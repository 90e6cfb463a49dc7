import FinDashboard.Risk.NoOversell
import FinDashboard.Core.CacheConsistency
import FinDashboard.Core.SubmissionRace
import FinDashboard.Core.ReadyGate
import FinDashboard.Simulation.PositionInvariant
import FinDashboard.Simulation.RestartRecovery
import FinDashboard.Simulation.TargetConvergence
import FinDashboard.Backtest.OrderLifecycle
import FinDashboard.Backtest.NextBar
import FinDashboard.Jobs.Progress
import FinDashboard.Jobs.ConcurrencyCap
import FinDashboard.Jobs.Attempts
import FinDashboard.Jobs.LeaseFencing
import FinDashboard.Tushare.RequestBudget
import FinDashboard.Tushare.RangeArithmetic
import FinDashboard.Tushare.AdjustedPrices
import FinDashboard.Validation.WalkForward
import FinDashboard.Validation.TrialBudget
import FinDashboard.Research.BatchPrefix
import FinDashboard.Scheduler.DailyRuns
import FinDashboard.Qmt.Linking
import FinDashboard.Core.KillSwitch
import FinDashboard.Tsmom.Equity
import FinDashboard.Tsmom.Margin
import FinDashboard.MeanReversion.LimitRuns
import FinDashboard.ConvertibleDoubleLow.RebalanceLimits
import FinDashboard.ResearchCode.PromotionBinding
import FinDashboard.Selection.Soundness
import FinDashboard.Factors.Ties
import FinDashboard.Core.BulkCancel
import FinDashboard.Reconcile.Exactness
import FinDashboard.Risk.RateLimit
import FinDashboard.Core.MockPositions
import FinDashboard.Simulation.FillAtomicity
import FinDashboard.Simulation.Solvency
import FinDashboard.Releases.Publication
import FinDashboard.Releases.DailyMetrics
import FinDashboard.Portfolio.Neutralization
import FinDashboard.Backtest.OrderAggregates
import FinDashboard.Portfolio.Sizing
import FinDashboard.Portfolio.RiskBudget
import FinDashboard.Portfolio.Exits
import FinDashboard.ParquetCache.AkShare
import FinDashboard.ParquetCache.ReadCache
import FinDashboard.ParquetCache.CloseColumns
import FinDashboard.Instruments.RollJumps
import FinDashboard.Instruments.NameHistory
import FinDashboard.Quality.CrossValidation
import FinDashboard.Factors.LazySeries
import FinDashboard.Portfolio.Purchases
import FinDashboard.Tsmom.ContinuousSeries
import FinDashboard.Portfolio.CappedSimplex
import FinDashboard.Research.RankRules
import FinDashboard.Factors.BufferedSelection
import FinDashboard.Research.DecisionSchedule
import FinDashboard.Factors.RankCorrelation
