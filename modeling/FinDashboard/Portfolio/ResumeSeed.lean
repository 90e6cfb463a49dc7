import FinDashboard.Portfolio.Adapter
import FinDashboard.Portfolio.LedgerIdentity

/-!
# A resumed run is the run that was not interrupted

The replay of the completed decisions is the book they left, the account of the last of them is the account
they left, and the check of the replay accepts it; so a resumed adapter goes on from the same state.
-/

namespace FinDashboard.Portfolio

open Ledger Runs List PortfolioPipelineAdapter

variable {α ω K F : Type} [DecimalArithmetic K] [FloatArithmetic F]

section Replay

variable {math : PipelineMath K F} {item : PortfolioDecisionInput α F}

theorem replayMark_of_markHeld {entry after : String × BookPosition K}
    {held : Option (String × ℤ × K)} (marked : markHeld math item entry = .ok (after, held)) :
    replayMark math (resumeStubOf item) entry = some after := by
  unfold markHeld at marked
  unfold replayMark
  dsimp only [resumeStubOf]
  by_cases empty : entry.2.quantity ≤ 0
  · rw [if_pos empty] at marked ⊢
    cases marked
    rfl
  · rw [if_neg empty] at marked ⊢
    cases price : find entry.1 item.prices with
    | none =>
      rw [price] at marked
      cases marked
    | some price =>
      cases info : find entry.1 item.lotInfo with
      | none => simp [*] at marked
      | some info =>
        simp only [*] at marked
        cases marked
        rfl

theorem replayFill_of_applied {state after : PipelineState K} {fill : ResearchFill K}
    {info : AssetLotInfo F} (known : find fill.symbol item.lotInfo = some info)
    (applied : Applied math state fill info item.businessDate after) :
    replayFill math (resumeStubOf item) state.positions fill = some after.positions := by
  unfold replayFill
  dsimp only [resumeStubOf]
  rw [known]
  cases applied with
  | opened action =>
    rw [action]
    dsimp only
    unfold openBook bookOf
    dsimp only
    split_ifs <;> rfl
  | closed action covered =>
    have enough := Int.not_lt.mpr covered
    rw [action]
    dsimp only
    rw [bookOf] at enough
    rw [if_neg enough]
    unfold closeBook bookOf
    dsimp only
    split_ifs with empty
    · rw [empty]
    · rfl

theorem raiseHighWater_eq_replayRaise :
    raiseHighWater math item = replayRaise (K := K) math (resumeStubOf item) := rfl

end Replay

variable {completed : List (DecisionBundle ω K F)}

section Decisions

variable {setup : PipelineSetup α ω K F} {item : PortfolioDecisionInput α F} {index offset : ℕ}
  {state next : PipelineState K} {decision : DecisionBundle ω K F}

theorem replayFills_of_executed {instructions : List (RebalanceInstruction K)} {plan : PlanExecution K}
    (ran : executeInstructions setup item index offset state instructions = .ok plan) :
    plan.fills.foldlM (replayFill setup.math (resumeStubOf item)) state.positions =
      some plan.state.positions := by
  induction instructions generalizing offset state plan with
  | nil =>
    cases ran
    rfl
  | cons instruction rest ih =>
    obtain ⟨done, first, ran⟩ := bind_eq_ok.mp ran
    obtain ⟨later, remaining, ran⟩ := bind_eq_ok.mp ran
    cases ran
    have replayed := ih remaining
    dsimp only
    rw [foldlM_append]
    cases executeInstruction_executed first with
    | refused order shortfall missed => exact replayed
    | filled order shortfall fill info after missed known untaxed applied =>
      have filled := replayFill_of_applied known applied
      dsimp only at filled
      rw [Option.toList_some, foldlM_cons, filled]
      exact replayed

theorem replayFills_of_plan {trades : List (RebalanceTrade F)}
    {instructions : List (RebalanceInstruction K)} {plan : PlanExecution K}
    (ran : executeResearchPlan setup item index state trades instructions = .ok plan) :
    plan.fills.foldlM (replayFill setup.math (resumeStubOf item)) state.positions =
      some plan.state.positions := by
  obtain ⟨before, first, ran⟩ := bind_eq_ok.mp ran
  have unmoved :=
    missedTrades_invariant (P := fun reached => reached.positions = state.positions)
      (fun _ _ held _ => held) first rfl
  rw [← unmoved]
  exact replayFills_of_executed ran

/-- One decision replayed: marking, fills and marking again lead to the book it left. -/
theorem Decided.replayed (decided : Decided setup index state item decision next) :
    replayDecision setup.math (resumeStubOf item) state.positions decision = some next.positions := by
  cases decided with
  | intro book exits trades instructions executed marked current planned after risk times fills
      positions ledger =>
    obtain ⟨marks, collected, current⟩ := bind_eq_ok.mp current
    have marking : state.positions.mapM (replayMark setup.math (resumeStubOf item)) =
        some book.positions := by
      rw [mapM_of_collect collected fun entry mark done => replayMark_of_markHeld done]
      dsimp only at current
      split_ifs at current
      cases current
      rfl
    obtain ⟨_, account⟩ := markAfterExecution_ok after
    have filling := replayFills_of_plan planned
    unfold replayDecision
    rw [marking, fills]
    simp only [Option.bind_eq_bind, Option.bind_some]
    rw [filling, Option.bind_some, account.state_eq, raiseHighWater_eq_replayRaise]

theorem replayBook_of_reaches {inputs : List (PortfolioDecisionInput α F)}
    {others : List (ResumeReplayStub F)}
    (reached : Reaches (buildDecision setup) index state inputs completed next) :
    replayBook setup.math completed (inputs.map resumeStubOf ++ others) state.positions =
      some next.positions := by
  induction reached with
  | start => rfl
  | next first later ih =>
    have replayed := (buildDecision_decided first).replayed
    rw [map_cons, cons_append, replayBook, replayed]
    exact ih

end Decisions

section Check

/-- What a record shows of a position. -/
def shownOf (position : ResearchPosition K) : ℤ × K × K :=
  (position.quantity, position.averagePrice, position.realizedPnl)

def recordOf (book : BookPosition K) : Option (ℤ × K × K) :=
  if isRecorded book then some (book.quantity, book.averagePrice, book.realizedPnl) else none

variable {positions : List (String × BookPosition K)}

theorem nodup_sortedBook (sound : SoundBook positions) : ((sortedBook positions).map (·.1)).Nodup :=
  ((perm_insertionSort _ positions).map _).nodup_iff.mpr sound.nodup

variable {entry : String × BookPosition K}

theorem find_sortedBook (sound : SoundBook positions) (member : entry ∈ positions) :
    find entry.1 (sortedBook positions) = some entry.2 :=
  find_of_mem (nodup_sortedBook sound) ((perm_insertionSort _ positions).mem_iff.mpr member)

theorem find_openedOnOf (sound : SoundBook positions) (member : entry ∈ positions) :
    find entry.1 (openedOnOf positions) = entry.2.openedOn := by
  have shape : openedOnOf positions = (sortedBook positions).filterMap fun entry =>
      (if 0 < entry.2.quantity then entry.2.openedOn else none).map fun day => (entry.1, day) := by
    unfold openedOnOf
    congr 1
    funext entry
    split_ifs <;> rfl
  rw [shape, find_filterMap (f := fun book : BookPosition K =>
    if 0 < book.quantity then book.openedOn else none) (nodup_sortedBook sound),
    find_sortedBook sound member, Option.bind_some]
  by_cases held : 0 < entry.2.quantity
  · rw [if_pos held]
  · have empty : entry.2.quantity = 0 := by
      have := sound.nonneg entry member
      omega
    rw [if_neg held, sound.closed entry member empty]

theorem find_highWatersOf {math : PipelineMath K F} (sound : SoundBook positions)
    (member : entry ∈ positions) (held : 0 < entry.2.quantity) :
    find entry.1 (highWatersOf math positions) = some (math.float entry.2.highWaterPrice) := by
  have shape : highWatersOf math positions = (sortedBook positions).filterMap fun entry =>
      (if 0 < entry.2.quantity then some (math.float entry.2.highWaterPrice) else none).map
        fun price => (entry.1, price) := by
    unfold highWatersOf
    congr 1
    funext entry
    split_ifs <;> rfl
  rw [shape, find_filterMap (f := fun book : BookPosition K =>
    if 0 < book.quantity then some (math.float book.highWaterPrice) else none)
    (nodup_sortedBook sound), find_sortedBook sound member, Option.bind_some, if_pos held]

variable {math : PipelineMath K F} {item : PortfolioDecisionInput α F}

theorem markPosition_recorded {mark : PositionMark K} (marked : markPosition math item entry = .ok mark) :
    (mark.recorded.map fun position => (position.symbol, shownOf position)) =
      (recordOf entry.2).map fun shown => (entry.1, shown) := by
  unfold markPosition at marked
  dsimp only at marked
  unfold recordOf
  by_cases missing : ((find entry.1 item.lotInfo).isNone && isRecorded entry.2) = true
  · rw [if_pos missing] at marked
    cases marked
  · rw [if_neg missing] at marked
    by_cases shown : isRecorded entry.2 = true
    · rw [if_pos shown] at marked ⊢
      obtain ⟨position, made, marked⟩ := bind_eq_ok.mp marked
      cases marked
      obtain ⟨symbol, quantity, average, realized⟩ := newPosition_ok made
      rw [Option.map_some, Option.map_some, shownOf, symbol, quantity, average, realized]
    · rw [if_neg shown] at marked ⊢
      cases marked
      rfl

theorem shown_positions {marks : List (PositionMark K)}
    (collected : collect (markPosition math item) (sortedBook positions) = .ok marks) :
    ((marks.filterMap (·.recorded)).map fun position => (position.symbol, shownOf position)) =
      (sortedBook positions).filterMap fun entry =>
        (recordOf entry.2).map fun shown => (entry.1, shown) := by
  have each := collect_map collected fun entry _ mark done => markPosition_recorded done
  have flat := congrArg (filterMap id) each
  rw [filterMap_map, filterMap_map] at flat
  rw [map_filterMap]
  exact flat

theorem find_recordedPositions {last : DecisionBundle ω K F} {marks : List (PositionMark K)}
    (sound : SoundBook positions)
    (collected : collect (markPosition math item) (sortedBook positions) = .ok marks)
    (recorded : last.positions = marks.filterMap (·.recorded)) (symbol : String) :
    (find symbol (recordedPositions last)).map shownOf =
      (find symbol (sortedBook positions)).bind recordOf := by
  have shown := shown_positions collected
  rw [← recorded] at shown
  have symbols : (last.positions.map (·.symbol)).Nodup := by
    have distinct := nodup_keys_filterMap (f := recordOf) (nodup_sortedBook sound)
    rw [← shown, map_map] at distinct
    exact distinct
  have dictionary : recordedPositions last =
      last.positions.map fun position => (position.symbol, position) :=
    foldl_assign (by simpa using symbols)
  have fields : ((recordedPositions last).map fun entry => (entry.1, shownOf entry.2)) =
      last.positions.map fun position => (position.symbol, shownOf position) := by
    rw [dictionary, map_map]
    rfl
  rw [← find_map, fields, shown, find_filterMap (nodup_sortedBook sound)]

end Check

section Verify

variable {setup : PipelineSetup α ω K F} {item : PortfolioDecisionInput α F} {index : ℕ}
  {state next : PipelineState K} {decision : DecisionBundle ω K F}

theorem recordOf_raiseHighWater {math : PipelineMath K F} (entry : String × BookPosition K) :
    recordOf (raiseHighWater math item entry).2 = recordOf entry.2 := by
  have alike : holding (raiseHighWater math item entry) = holding entry :=
    holding_raiseHighWater entry
  have quantity : (raiseHighWater math item entry).2.quantity = entry.2.quantity :=
    congrArg (·.2.quantity) alike
  have average : (raiseHighWater math item entry).2.averagePrice = entry.2.averagePrice :=
    congrArg (·.2.averagePrice) alike
  have realized : (raiseHighWater math item entry).2.realizedPnl = entry.2.realizedPnl :=
    congrArg (·.2.realizedPnl) alike
  rw [recordOf, recordOf, isRecorded, isRecorded, quantity, average, realized]

theorem Decided.verified (decided : Decided setup index state item decision next)
    (sound : SoundBook state.positions) :
    verifyResumeState setup.math decision next.positions = true := by
  have after := decided.sound sound
  cases decided with
  | intro book exits trades instructions executed marked current planned marking risk times fills
      positions ledger =>
    obtain ⟨marks, account⟩ := markAfterExecution_ok marking
    obtain ⟨-, opened, waters, -, -⟩ := riskStateOf_ok risk
    have moved : marked.state.positions =
        executed.state.positions.map (raiseHighWater setup.math item) := by
      rw [account.state_eq]
    have before : SoundBook executed.state.positions := by
      apply after.of_holdings
      rw [moved, holdings_raiseHighWater]
    have shown := find_recordedPositions before account.collected
      (positions.trans account.positions_eq)
    rw [verifyResumeState, Bool.and_eq_true, all_eq_true, all_eq_true]
    constructor
    · intro entry member
      have record : (find entry.1 (recordedPositions decision)).map shownOf = recordOf entry.2 := by
        have old := member
        rw [moved] at old
        obtain ⟨earlier, known, rfl⟩ := mem_map.mp old
        have key : (raiseHighWater setup.math item earlier).1 = earlier.1 :=
          congrArg (·.1) (holding_raiseHighWater earlier)
        rw [recordOf_raiseHighWater, shown, key, find_sortedBook before known, Option.bind_some]
      have nonneg := after.nonneg entry member
      unfold matchesRecord
      cases found : find entry.1 (recordedPositions decision) with
      | none =>
        have unrecorded : isRecorded entry.2 = false := by
          rw [found, Option.map_none, recordOf] at record
          by_cases recorded : isRecorded entry.2 = true
          · rw [if_pos recorded] at record
            cases record
          · exact Bool.not_eq_true _ ▸ recorded
        rw [isRecorded, Bool.or_eq_false_iff, decide_eq_false_iff_not] at unrecorded
        have empty : entry.2.quantity = 0 := by omega
        simp [empty, unrecorded.2]
      | some position =>
        rw [found, Option.map_some, recordOf] at record
        split_ifs at record
        have same := Option.some.inj record
        have quantity : position.quantity = entry.2.quantity := congrArg (·.1) same
        have average : position.averagePrice = entry.2.averagePrice := congrArg (·.2.1) same
        have realized : position.realizedPnl = entry.2.realizedPnl := congrArg (·.2.2) same
        dsimp only
        rw [quantity, average, realized, opened, waters, find_openedOnOf after member,
          setup.math.decimal_self, setup.math.decimal_self]
        by_cases held : 0 < entry.2.quantity
        · simp [find_highWatersOf after member held, setup.math.float_self]
        · have closed : entry.2.quantity ≤ 0 := by omega
          simp [closed]
    · intro entry member
      have keys : marked.state.positions.map (·.1) = executed.state.positions.map (·.1) := by
        apply keys_of_holdings
        rw [moved, holdings_raiseHighWater]
      rw [decide_eq_true_eq, keys]
      have record := shown entry.1
      cases known : find entry.1 (sortedBook executed.state.positions) with
      | some held =>
        exact mem_map_of_mem ((perm_insertionSort _ _).mem_iff.mp (mem_of_find known))
      | none =>
        rw [known, Option.bind_none, Option.map_eq_none_iff] at record
        exact absurd (mem_map_of_mem member) (find_eq_none record)

end Verify

section Resume

variable {setup : PipelineSetup α ω K F} {item : PortfolioDecisionInput α F} {index : ℕ}
  {state next : PipelineState K} {decision : DecisionBundle ω K F}

theorem Decided.account (decided : Decided setup index state item decision next) :
    next =
      { cash := decision.ledger.cash
        positions := next.positions
        feesPaid := decision.ledger.feesPaid
        taxPaid := decision.ledger.taxPaid
        slippagePaid := decision.ledger.slippagePaid
        fillShortfall := decision.ledger.fillShortfall
        cooldownUntil := decision.riskState.cooldownUntil
        equityHighWater := decision.riskState.portfolioEquityHighWater
        portfolioPaused := decision.riskState.portfolioPaused } := by
  cases decided with
  | intro book exits trades instructions executed marked current planned marking risk times fills
      positions ledger =>
    obtain ⟨marks, account⟩ := markAfterExecution_ok marking
    obtain ⟨cooldowns, -, -, highWater, paused⟩ := riskStateOf_ok risk
    obtain ⟨fees, tax, slippage, shortfall⟩ := account.costs_eq
    rw [ledger, account.cash_eq, fees, tax, slippage, shortfall, cooldowns, highWater, paused,
      account.state_eq]

theorem Decided.times (decided : Decided setup index state item decision next) :
    decision.businessDate = item.businessDate ∧ decision.decisionAt = item.decisionAt := by
  cases decided with
  | intro book exits trades instructions executed marked current planned marking risk times => exact times

theorem soundBook_initial (initialCapital : K) :
    SoundBook (initialState initialCapital).positions := ⟨nodup_nil, nofun, nofun⟩

theorem alignedWith_of_reaches {inputs rest : List (PortfolioDecisionInput α F)}
    {others : List (ResumeReplayStub F)} {seenDates : List ℤ} {previousAt : Option ℤ}
    (reached : Reaches (buildDecision setup) index state inputs completed next)
    (validated : validateManifest seenDates previousAt (inputs ++ rest) = true) :
    alignedWith previousAt completed (inputs.map resumeStubOf ++ others) = true := by
  induction reached generalizing seenDates previousAt with
  | start => rfl
  | next first later ih =>
    rw [cons_append, validateManifest, Bool.and_eq_true, Bool.and_eq_true] at validated
    obtain ⟨⟨-, ordered⟩, validated⟩ := validated
    obtain ⟨date, time⟩ := (buildDecision_decided first).times
    rw [map_cons, cons_append, alignedWith, date, time, ordered, ih validated]
    simp [resumeStubOf]

theorem pipelineStateFromResume_of_reaches {inputs : List (PortfolioDecisionInput α F)}
    (others : List (ResumeReplayStub F))
    (reached : Reaches (buildDecision setup) 0 (initialState setup.initialCapital) inputs completed next)
    (produced : completed ≠ []) :
    pipelineStateFromResume setup.math completed (inputs.map resumeStubOf ++ others) = some next := by
  have keeps : ∀ place state (item : PortfolioDecisionInput α F) decision next,
      SoundBook state.positions → buildDecision setup place state item = .ok (decision, next) →
        SoundBook next.positions :=
    fun place state item decision next held built => (buildDecision_decided built).sound held
  have start := soundBook_initial setup.initialCapital
  obtain ⟨last, before, item, final, found, sound, built⟩ := reached.last keeps start produced
  have decided := buildDecision_decided built
  have replayed : replayBook setup.math completed (inputs.map resumeStubOf ++ others) [] =
      some next.positions := replayBook_of_reaches reached
  unfold pipelineStateFromResume
  rw [found, replayed]
  simp only [Option.bind_eq_bind, Option.bind_some]
  rw [if_pos (decided.verified sound), ← decided.account]

end Resume

/-- A new adapter: with its inputs at hand, or with a stream of them of which it has kept the first. -/
inductive NewAdapter (inputs : List (PortfolioDecisionInput α F)) (count : ℕ) :
    PortfolioPipelineAdapter α ω K F → Prop
  | sequence : NewAdapter inputs count { inputs := .sequence inputs }
  | stream : NewAdapter inputs count
      (prefetchInputs { inputs := .stream inputs [] } count)

section NewAdapters

variable {inputs : List (PortfolioDecisionInput α F)} {count : ℕ}
  {adapter : PortfolioPipelineAdapter α ω K F}

theorem NewAdapter.unseeded (new : NewAdapter inputs count adapter) :
    adapter.resumeBundles = none ∧ adapter.resumeState = none := by
  cases new <;> exact ⟨rfl, rfl⟩

theorem NewAdapter.inputsFrom (new : NewAdapter inputs count adapter) :
    adapter.inputsFrom count = inputs.drop count := by
  cases new <;> rfl

theorem NewAdapter.validationInputs (new : NewAdapter inputs count adapter) :
    ∃ others, adapter.validationInputs = (inputs.take count).map resumeStubOf ++ others := by
  cases new with
  | sequence =>
    refine ⟨(inputs.drop count).map resumeStubOf, ?_⟩
    rw [← map_append, take_append_drop]
    rfl
  | stream => exact ⟨[], (append_nil _).symm⟩

end NewAdapters

/-- A new adapter with the same inputs takes over any of the first decisions of a run, unless there are
none, and then yields what the run that was not interrupted yielded. -/
theorem resume_produces_rest (setup : PipelineSetup α ω K F)
    (inputs : List (PortfolioDecisionInput α F)) (validated : validateManifest [] none inputs = true)
    (count : ℕ) (produced : count ≤ (freshDecisions setup inputs).1.length)
    (adapter : PortfolioPipelineAdapter α ω K F) (new : NewAdapter inputs count adapter) :
    let resumed := adapter.resumeFrom setup.math ((freshDecisions setup inputs).1.take count)
    (resumed.1 = true ↔ 0 < count) ∧
      resumed.2.decisions setup = freshDecisions setup inputs := by
  obtain ⟨bundles, seeded⟩ := new.unseeded
  intro resumed
  by_cases empty : count = 0
  · subst empty
    have refused : resumed = (false, adapter) := by
      show resumeFrom _ _ _ = _
      rw [take_zero, resumeFrom, bundles]
      rfl
    rw [refused]
    refine ⟨by simp, ?_⟩
    unfold decisions
    rw [bundles, seeded]
    dsimp only [Option.getD_none, length_nil]
    rw [new.inputsFrom]
    rfl
  · obtain ⟨mid, reached, remaining, ending⟩ := outputs_cut produced
    obtain ⟨others, checked⟩ := new.validationInputs
    have length := length_take_of_le produced
    have yielded : (freshDecisions setup inputs).1.take count ≠ [] := by
      intro nothing
      rw [nothing] at length
      exact empty length.symm
    have rebuilt : pipelineStateFromResume setup.math ((freshDecisions setup inputs).1.take count)
        ((inputs.take count).map resumeStubOf ++ others) = some mid :=
      pipelineStateFromResume_of_reaches others reached yielded
    have aligned : alignedWith none ((freshDecisions setup inputs).1.take count)
        ((inputs.take count).map resumeStubOf ++ others) = true := by
      apply alignedWith_of_reaches reached
      rw [take_append_drop]
      exact validated
    have enough : ¬((inputs.take count).map resumeStubOf ++ others).length <
        ((freshDecisions setup inputs).1.take count).length := by
      have same := reached.length
      rw [length_append, length_map]
      unfold freshDecisions
      omega
    have accepted : resumed = (true, { adapter with
        resumeBundles := some ((freshDecisions setup inputs).1.take count)
        resumeState := some mid }) := by
      show resumeFrom _ _ _ = _
      have first : (adapter.resumeBundles.isSome ||
          ((freshDecisions setup inputs).1.take count).isEmpty) = false := by
        rw [bundles, Option.isSome_none, Bool.false_or, isEmpty_eq_false_iff]
        exact yielded
      rw [resumeFrom, first, checked, if_neg Bool.false_ne_true,
        if_neg enough, if_pos aligned, rebuilt]
    rw [accepted]
    refine ⟨by simp [Nat.pos_of_ne_zero empty], ?_⟩
    unfold decisions
    dsimp only [Option.getD_some]
    have coming : ({ adapter with
        resumeBundles := some ((freshDecisions setup inputs).1.take count)
        resumeState := some mid } : PortfolioPipelineAdapter α ω K F).inputsFrom count =
          inputs.drop count := new.inputsFrom
    rw [Nat.zero_add] at remaining ending
    rw [length, coming, ← remaining, ← ending]
    have whole : (freshDecisions setup inputs).1.take count ++
        (freshDecisions setup inputs).1.drop count = (freshDecisions setup inputs).1 :=
      take_append_drop _ _
    exact Prod.ext whole rfl

/-- A purchase taken over, and the sale on the next day decided anew. -/
theorem resume_produces_rest_sample :
    let run := freshDecisions sampleSetup sampleInputs
    let adapter : PortfolioPipelineAdapter (List (RebalanceTrade ℚ)) Unit ℚ ℚ :=
      { inputs := .sequence sampleInputs }
    let resumed := adapter.resumeFrom sampleSetup.math (run.1.take 1)
    run.1.length = 2 ∧ (resumed.1 = true ↔ 0 < 1) ∧ resumed.2.decisions sampleSetup = run := by
  have length : (freshDecisions sampleSetup sampleInputs).1.length = 2 := by decide +kernel
  exact ⟨length, resume_produces_rest sampleSetup sampleInputs (by decide +kernel) 1
    (by rw [length]; decide) _ .sequence⟩

/-- The decisions that were completed before the first one are none, and none are not taken over. -/
theorem resume_refuses_nothing :
    ¬∀ count < (freshDecisions sampleSetup sampleInputs).1.length,
      (resumeFrom sampleSetup.math { inputs := .sequence sampleInputs }
        ((freshDecisions sampleSetup sampleInputs).1.take count)).1 = true := by
  intro accepted
  have length : (freshDecisions sampleSetup sampleInputs).1.length = 2 := by decide +kernel
  have refused := accepted 0 (by rw [length]; decide)
  rw [take_zero] at refused
  cases refused

end FinDashboard.Portfolio
