import FinDashboard.Risk.Limits
import FinDashboard.Risk.SellCoverage

/-!
# The coverage of resting sales, step by step

Calls insert sales on top of the commitment and otherwise only settle orders. Booking moves
an execution from the remaining quantity of its order to the booked ones; applying it takes
the same quantity from the commitment and from the position.
-/

namespace FinDashboard.Risk

open Async Broker Core Persistence Ledger List

variable {account : AccountId} {config : RiskConfig}

theorem filledOf_singleton (fill : Fill) (clientOrderId : ClientOrderId) : filledOf [fill] clientOrderId =
      if fill.clientOrderId = clientOrderId then fill.quantity else 0 := by
  have hsum := filledOf_append [] fill clientOrderId
  simpa [filledOf] using hsum

/-- The active rows of an order carry its booked executions. -/
def RowsCaughtUp (clientOrderId : ClientOrderId) (s : Store) : Prop :=
  ∀ row ∈ s.orders, row.clientOrderId = clientOrderId → row.isActive = true →
    filledOf s.bookedFills clientOrderId ≤ row.filledQuantity

namespace SellStage

variable {unbooked unapplied : List Fill} {s s' : Store} {order : Order} {reply : Reply}

section Calls

variable {clientOrderId : ClientOrderId}

theorem no_executions (h : SellStage account unbooked unapplied s)
    (hfresh : ∀ fill ∈ s.fills, fill.clientOrderId ≠ clientOrderId) :
    filledOf s.fills clientOrderId = 0 ∧ filledOf s.bookedFills clientOrderId = 0 ∧
      filledOf s.appliedFills clientOrderId = 0 ∧ filledOf unbooked clientOrderId = 0 := by
  have hbooked : ∀ fill ∈ s.bookedFills, fill.clientOrderId ≠ clientOrderId := fun fill hfill =>
    hfresh fill (h.stored fill (mem_append_left _ hfill))
  refine ⟨filledOf_eq_zero hfresh, filledOf_eq_zero hbooked, ?_, ?_⟩
  · refine filledOf_eq_zero fun fill hfill => hbooked fill ?_
    rw [h.bookedFills]
    exact mem_append_left _ hfill
  · exact filledOf_eq_zero fun fill hfill =>
      hfresh fill (h.stored fill (mem_append_right _ hfill))

theorem insert (h : SellStage account unbooked unapplied s) (hplaced : IsPlaced account config order)
    (hrows : RowsSettled (s.insertOrder order)) (habsent : findOrder s order.clientOrderId = none)
    (hfresh : ∀ fill ∈ s.fills, fill.clientOrderId ≠ order.clientOrderId)
    (hroom : order.side = .sell → order.quantity + committed s account order.symbol.code ≤
      availableQuantity s account order.symbol.code) :
    SellStage account unbooked unapplied (s.insertOrder order) := by
  obtain ⟨hfills, hbooked, happlied, hunbooked⟩ := h.no_executions hfresh
  have hactive : order.isActive = true := by
    obtain ⟨request, clientOrderId, level, rfl, -⟩ := hplaced
    rfl
  have hzero : order.filledQuantity = 0 ∧ order.status ≠ .filled ∧ 0 ≤ order.quantity := by
    obtain ⟨request, clientOrderId, level, rfl, hscreen⟩ := hplaced
    exact ⟨rfl, nofun, (terms_of_screen hscreen).1.le⟩
  refine ⟨hrows, h.bookedFills, h.stored, h.capacity, ?_, ?_, h.cached, ?_, ?_, h.positions, ?_⟩
  · intro row hmem
    rcases mem_append.mp hmem with hold | hnew
    · exact h.quantity row hold
    · obtain rfl := mem_singleton.mp hnew
      rw [fills_insertOrder, hfills]
      exact hzero.2.2
  · intro row hmem other hother
    rcases mem_append.mp hmem with hold | hnew
    · exact h.terms row hold other hother
    · obtain rfl := mem_singleton.mp hnew
      have hrow := h.rows.keyed.row row.clientOrderId (by rw [inflight_insertOrder] at hother; simp [hother])
      rw [habsent] at hrow
      cases hrow
  · intro row hmem
    rcases mem_append.mp hmem with hold | hnew
    · exact h.row row hold
    · obtain rfl := mem_singleton.mp hnew
      refine ⟨⟨?_, fun hfilled => absurd hfilled hzero.2.1⟩, fun _ => ⟨?_, fun _ => ?_⟩⟩
      · rw [hzero.1, hunbooked, fills_insertOrder, hfills, add_zero]
      · change filledOf s.appliedFills _ ≤ _
        rw [happlied, hzero.1]
      · change filledOf s.bookedFills _ ≤ _
        rw [hbooked, hzero.1]
  · intro fill hfill
    obtain ⟨hquantity, hcached, row, hmem, hrow⟩ := h.pending fill hfill
    exact ⟨hquantity, hcached, row, mem_append_left _ hmem, hrow⟩
  · intro code
    have hcovered := h.covered code
    unfold committed at hcovered hroom ⊢
    change total (sellObligation account code s.bookedFills s.appliedFills) (s.orders ++ [order]) ≤
      availableQuantity s account code
    rw [total_append, total_cons, total_nil, add_zero]
    by_cases hsell : isSellOf account code order = true
    · have hcode : order.side = .sell ∧ order.symbol.code = code := by
        simp only [isSellOf, Bool.and_eq_true, decide_eq_true_eq] at hsell
        exact ⟨hsell.1.2, hsell.2⟩
      have hlimit := hroom hcode.1
      rw [hcode.2] at hlimit
      have hvalue : sellObligation account code s.bookedFills s.appliedFills order =
          order.quantity := by
        rw [sellObligation, if_pos hsell, if_pos hactive, happlied, sub_zero]
      rw [hvalue]
      linarith
    · have hvalue : sellObligation account code s.bookedFills s.appliedFills order = 0 := by
        rw [sellObligation, if_neg hsell]
      rw [hvalue]
      linarith

theorem cacheFresh (h : SellStage account unbooked unapplied s)
    (hplaced : IsPlaced account config order)
    (hrows : RowsSettled (s.cache order.clientOrderId { order with status := .submitting }))
    (hfresh : ∀ fill ∈ s.fills, fill.clientOrderId ≠ order.clientOrderId)
    (hrow : ∀ row ∈ s.orders, row.clientOrderId = order.clientOrderId → row = order) :
    SellStage account unbooked unapplied
      (s.cache order.clientOrderId { order with status := .submitting }) := by
  obtain ⟨hfills, hbooked, -, hunbooked⟩ := h.no_executions hfresh
  have hzero : order.filledQuantity = 0 := by
    obtain ⟨request, clientOrderId, level, rfl, -⟩ := hplaced
    rfl
  refine h.ofCache hrows ?_ ⟨?_, nofun⟩ ?_
  · intro row hmem heq
    rw [hrow row hmem heq]
  · change order.filledQuantity + filledOf unbooked order.clientOrderId ≤
      filledOf s.fills order.clientOrderId
    rw [hzero, hunbooked, hfills, add_zero]
  · intro _
    change _ ≤ order.filledQuantity
    rw [hbooked, hzero]

theorem ofPersistCopy (h : SellStage account unbooked unapplied s) {copy : Order}
    (hpending : copy.status = .cancelPending) (hexists : (findOrder s copy.clientOrderId).isSome)
    (hrows : RowsSettled (persist s copy))
    (hactive : ∀ row ∈ s.orders, row.clientOrderId = copy.clientOrderId → row.status.isActive = true)
    (hfilled : ∀ row ∈ s.orders, row.clientOrderId = copy.clientOrderId →
      row.filledQuantity = copy.filledQuantity) :
    SellStage account unbooked unapplied (persist s copy) := by
  obtain ⟨row, hmem, hid⟩ := findOrder_isSome.mp hexists
  obtain ⟨hsound, happlied⟩ := h.row row hmem
  have hle := hsound.le
  rw [hfilled row hmem hid, hid] at hle
  refine h.ofPersist hrows (fun other hother heq _ => hactive other hother heq) hle ?_ fun _ => ?_
  · intro _ _ _ hdone
    rw [hpending] at hdone
    cases hdone
  · have hboth := happlied (hactive row hmem hid)
    rwa [hfilled row hmem hid, hid] at hboth

theorem ofStep {point : Point} (hok : sellCondition account point reply s)
    (hpoint : point.ofCall) (hstep : Step account config point s s')
    (h : SellStage account unbooked unapplied s) : SellStage account unbooked unapplied s' := by
  obtain ⟨⟨hlegal, -, -⟩, hcopies, hroom⟩ := hok
  have hrows := RowsSettled.ofStep hlegal hstep h.rows
  unfold Step at hstep
  split at hstep
  · obtain rfl | ⟨hplaced, habsent, rfl⟩ := hstep
    · exact h
    · exact h.insert hplaced hrows habsent hlegal hroom
  · obtain ⟨hplaced, -, rfl⟩ := hstep
    exact h.cacheFresh hplaced hrows hlegal.1 hlegal.2
  · obtain rfl | ⟨hpending, hexists, rfl⟩ := hstep
    · exact h
    · exact h.ofPersistCopy hpending hexists hrows hcopies hroom
  · exact hpoint.elim
  · exact hpoint.elim
  · exact hpoint.elim
  · exact ofRoutine hstep h

theorem caughtUp_ofRoutine (hroutine : Routine s s') (h : SellStage account unbooked unapplied s)
    (hrows : RowsCaughtUp clientOrderId s) : RowsCaughtUp clientOrderId s' := by
  induction hroutine with
  | other _ horders _ hbooked =>
    unfold RowsCaughtUp
    rw [horders, hbooked]
    exact hrows
  | load => exact hrows
  | mutate => exact hrows
  | persist hcached _ =>
    intro row hmem hid hactive
    obtain ⟨-, hold⟩ | ⟨horder, old, -, -, hwrite⟩ := mem_persist hmem
    · exact hrows row hold hid hactive
    · have hfilled := (h.cached _ _ hcached).2
      rw [← h.rows.keyed.id _ _ hcached, ← horder, hid] at hfilled
      rw [hwrite] at hactive ⊢
      exact hfilled hactive
  | trans hfirst _ ih ih' => exact ih' (ofRoutine hfirst h) (ih h hrows)

theorem caughtUp_ofStep {point : Point} (hok : sellCondition account point reply s)
    (hpoint : point.ofCall) (hstep : Step account config point s s')
    (h : SellStage account unbooked unapplied s)
    (hrows : RowsCaughtUp clientOrderId s) : RowsCaughtUp clientOrderId s' := by
  obtain ⟨⟨hlegal, -, -⟩, hcopies, hroom⟩ := hok
  unfold Step at hstep
  split at hstep
  · obtain rfl | ⟨⟨request, id, level, rfl, -⟩, -, rfl⟩ := hstep
    · exact hrows
    · intro row hmem hid hactive
      rcases mem_append.mp hmem with hold | hnew
      · exact hrows row hold hid hactive
      · obtain rfl := mem_singleton.mp hnew
        obtain ⟨-, hbooked, -, -⟩ := h.no_executions hlegal
        rw [← hid]
        exact hbooked.le
  · obtain ⟨-, -, rfl⟩ := hstep
    exact hrows
  · obtain rfl | ⟨-, -, rfl⟩ := hstep
    · exact hrows
    · intro row hmem hid hactive
      obtain ⟨-, hold⟩ | ⟨-, old, hold, holdid, hwrite⟩ := mem_persist hmem
      · exact hrows row hold hid hactive
      · have hsame : row.filledQuantity = old.filledQuantity := by
          rw [hwrite, hroom old hold holdid]
          rfl
        have hrow : row.clientOrderId = old.clientOrderId := by rw [hwrite]; rfl
        rw [hsame]
        exact hrows old hold (hrow.symm.trans hid) (hcopies old hold holdid)
  · exact hpoint.elim
  · exact hpoint.elim
  · exact hpoint.elim
  · exact caughtUp_ofRoutine hstep h hrows

end Calls

section Stages

variable {fill : Fill}

theorem store (h : SellStage account [] [] s) (hok : sellCondition account (.addFill fill) reply s)
    (hcached : (s.inflight fill.clientOrderId).isSome) :
    SellStage account [fill] [] { s with fills := s.fills ++ [fill] } := by
  obtain ⟨⟨-, hexecution, hown⟩, -⟩ := hok
  obtain ⟨row, hmem, hid⟩ := findOrder_isSome.mp (h.rows.keyed.row _ hcached)
  obtain ⟨hquantity, hside, hsymbol, -, -⟩ := hexecution row hmem hid
  have hempty : ∀ clientOrderId, filledOf [] clientOrderId = 0 := fun _ => rfl
  have hsound : ∀ {order : Order}, FilledSound s.fills [] order →
      FilledSound (s.fills ++ [fill]) [fill] order := by
    intro order hold
    refine ⟨?_, hold.complete⟩
    have hle := hold.le
    rw [hempty] at hle
    rw [filledOf_singleton, filledOf_append]
    linarith
  refine ⟨h.rows.of_eq rfl rfl, h.bookedFills, ?_, ?_, ?_, h.terms, ?_, ?_, ?_, h.positions, h.covered⟩
  · intro f hf
    rcases mem_append.mp hf with hbooked | hnew
    · exact mem_append_left _ (h.stored f (mem_append_left _ hbooked))
    · exact mem_append_right _ hnew
  · intro clientOrderId
    have hcapacity := h.capacity clientOrderId
    rw [hempty] at hcapacity
    change filledOf s.bookedFills clientOrderId + _ ≤ filledOf (s.fills ++ [fill]) clientOrderId
    rw [filledOf_singleton, filledOf_append]
    linarith
  · intro other hother
    change filledOf (s.fills ++ [fill]) other.clientOrderId ≤ other.quantity
    rw [filledOf_append]
    split
    · rename_i heq
      exact (hexecution other hother heq.symm).2.2.2.1
    · rw [add_zero]
      exact h.quantity other hother
  · intro clientOrderId order horder
    obtain ⟨hold, hbooked⟩ := h.cached clientOrderId order horder
    exact ⟨hsound hold, hbooked⟩
  · intro other hother
    obtain ⟨hold, happlied⟩ := h.row other hother
    exact ⟨hsound hold, happlied⟩
  · intro f hf
    obtain rfl : f = fill := by simpa using hf
    exact ⟨hquantity, hcached, row, hmem, hid, hown row hmem hid, hside.symm, hsymbol.symm⟩

theorem forget (h : SellStage account [fill] [] s) : SellStage account [] [] s := by
  have hempty : ∀ clientOrderId, filledOf [] clientOrderId = 0 := fun _ => rfl
  have hnonneg : ∀ clientOrderId, 0 ≤ filledOf [fill] clientOrderId := by
    intro clientOrderId
    refine filledOf_nonneg (fun f hf => ?_) clientOrderId
    exact (h.pending f (by simpa using hf)).1
  have hsound : ∀ {order : Order}, FilledSound s.fills [fill] order →
      FilledSound s.fills [] order := by
    intro order hold
    have hle := hold.le
    have hpos := hnonneg order.clientOrderId
    refine ⟨?_, hold.complete⟩
    rw [hempty]
    linarith
  refine ⟨h.rows, h.bookedFills, ?_, ?_, h.quantity, h.terms, ?_, ?_, by simp, h.positions, h.covered⟩
  · intro f hf
    exact h.stored f (mem_append_left _ (by simpa using hf))
  · intro clientOrderId
    have hcapacity := h.capacity clientOrderId
    have hpos := hnonneg clientOrderId
    rw [hempty]
    linarith
  · intro clientOrderId order horder
    obtain ⟨hold, hbooked⟩ := h.cached clientOrderId order horder
    exact ⟨hsound hold, hbooked⟩
  · intro other hother
    obtain ⟨hold, happlied⟩ := h.row other hother
    exact ⟨hsound hold, happlied⟩

theorem filled_add_le (h : SellStage account [fill] [] s)
    (hcached : s.inflight fill.clientOrderId = some order) :
    order.filledQuantity + fill.quantity ≤ filledOf s.fills fill.clientOrderId ∧
      order.filledQuantity + fill.quantity ≤ order.quantity := by
  have hid := h.rows.keyed.id _ _ hcached
  have hle := (h.cached _ _ hcached).1.le
  rw [hid, filledOf_singleton, if_pos rfl] at hle
  obtain ⟨-, -, row, hmem, hrow, -⟩ := h.pending fill (by simp)
  have hquantity := h.quantity row hmem
  have hterms := h.terms row hmem order (by rw [hrow]; exact hcached)
  rw [hrow] at hquantity
  exact ⟨hle, by linarith⟩

/-- The object of a fill, mutated, with or without the state machine's consent. -/
theorem cacheExecution (h : SellStage account [fill] [] s)
    (hcached : s.inflight fill.clientOrderId = some order) {status : OrderStatus}
    (hlegal : canTransition order.status status = true)
    (hcomplete : status = .filled → order.quantity ≤ order.filledQuantity + fill.quantity) :
    SellStage account [] [] (s.cache fill.clientOrderId { addExecution fill order with status }) := by
  have hid := h.rows.keyed.id _ _ hcached
  have hpositive := (h.pending fill (by simp)).1
  have hrows : RowsSettled (s.cache fill.clientOrderId { addExecution fill order with status }) :=
    h.rows.ofMutate hcached hlegal rfl
  refine h.forget.ofCache hrows ?_ ⟨?_, hcomplete⟩ ?_
  · intro row hmem heq
    exact h.terms row hmem order (by rw [heq]; exact hcached)
  · change order.filledQuantity + fill.quantity + 0 ≤ filledOf s.fills order.clientOrderId
    rw [hid, add_zero]
    exact (h.filled_add_le hcached).1
  · intro hactive
    have hbefore : order.isActive = true := by
      by_contra hsettled
      have hterminal := isTerminal_of_canTransition hlegal
        (by simpa [Order.isActive, OrderStatus.isActive] using hsettled)
      simp [Order.isActive, OrderStatus.isActive, hterminal] at hactive
    have hbooked := (h.cached _ _ hcached).2 hbefore
    change filledOf s.bookedFills fill.clientOrderId ≤ order.filledQuantity + fill.quantity
    linarith

theorem isActive_of_admitsFill (h : SellStage account [fill] [] s)
    (hcached : s.inflight fill.clientOrderId = some order)
    (hadmitted : admitsFill fill order = true) : order.isActive = true := by
  by_contra hsettled
  have hterminal : order.status.isTerminal = true := by
    simpa [Order.isActive, OrderStatus.isActive] using hsettled
  have htarget := (canTransition_of_isTerminal hterminal).mp hadmitted
  have hfilled : order.status = .filled := by
    unfold fillTarget at htarget
    split at htarget
    · exact htarget
    · rw [htarget] at hterminal
      cases hterminal
  have hcomplete := (h.cached _ _ hcached).1.complete hfilled
  have hroom := (h.filled_add_le hcached).2
  have hpositive := (h.pending fill (by simp)).1
  linarith

theorem book (h : SellStage account [fill] [] s) (hcached : s.inflight fill.clientOrderId = some order)
    (hadmitted : admitsFill fill order = true) :
    SellStage account [] [fill] { s.cache fill.clientOrderId (executed fill order) with
      bookedFills := s.bookedFills ++ [fill] } := by
  have hid := h.rows.keyed.id _ _ hcached
  have hactive := h.isActive_of_admitsFill hcached hadmitted
  have hbase : SellStage account [] [] (s.cache fill.clientOrderId (executed fill order)) := by
    refine h.cacheExecution hcached hadmitted fun hfilled => ?_
    unfold fillTarget at hfilled
    split at hfilled
    · rename_i hremaining
      have hquantity : order.quantity - (order.filledQuantity + fill.quantity) ≤ 0 := hremaining
      linarith
    · cases hfilled
  have hrowsActive : ∀ row ∈ s.orders, row.clientOrderId = fill.clientOrderId →
      row.isActive = true := by
    intro row hmem heq
    by_contra hsettled
    have hterminal := h.rows.settled row hmem
      (by simpa [Order.isActive, OrderStatus.isActive] using hsettled) order
      (by rw [heq]; exact hcached)
    simp [Order.isActive, OrderStatus.isActive, hterminal] at hactive
  have hother : ∀ {id}, id ≠ fill.clientOrderId →
      filledOf (s.bookedFills ++ [fill]) id = filledOf s.bookedFills id := by
    intro id hne
    rw [filledOf_append, if_neg (Ne.symm hne), add_zero]
  refine ⟨hbase.rows.of_eq rfl rfl, ?_, ?_, ?_, hbase.quantity, hbase.terms, ?_, ?_, ?_,
    hbase.positions, ?_⟩
  · have hlast : s.bookedFills = s.appliedFills := by simpa using h.bookedFills
    change s.bookedFills ++ [fill] = s.appliedFills ++ [fill]
    rw [hlast]
  · intro f hf
    rw [append_nil] at hf
    exact h.stored f hf
  · intro id
    have hcapacity := h.capacity id
    change filledOf (s.bookedFills ++ [fill]) id + 0 ≤ filledOf s.fills id
    rw [filledOf_append]
    rw [filledOf_singleton] at hcapacity
    linarith
  · intro id current hcurrent
    refine ⟨(hbase.cached id current hcurrent).1, fun hnow => ?_⟩
    change filledOf (s.bookedFills ++ [fill]) id ≤ current.filledQuantity
    by_cases heq : id = fill.clientOrderId
    · have hsame : executed fill order = current := by simpa [heq] using hcurrent
      have hbooked := (h.cached _ _ hcached).2 hactive
      rw [heq, filledOf_append, if_pos rfl, ← hsame]
      change _ ≤ order.filledQuantity + fill.quantity
      linarith
    · rw [hother heq]
      exact (hbase.cached id current hcurrent).2 hnow
  · intro row hmem
    obtain ⟨hsound, happlied⟩ := hbase.row row hmem
    refine ⟨hsound, fun hnow => ⟨(happlied hnow).1, fun hnone => ?_⟩⟩
    change filledOf (s.bookedFills ++ [fill]) row.clientOrderId ≤ row.filledQuantity
    have hne : row.clientOrderId ≠ fill.clientOrderId := by
      rintro heq
      simp [heq] at hnone
    rw [hother hne]
    exact (happlied hnow).2 hnone
  · intro f hf
    obtain rfl : f = fill := by simpa using hf
    obtain ⟨hpositive, -, hrow⟩ := h.pending f (by simp)
    exact ⟨hpositive, by simp, hrow⟩
  · intro code
    refine le_trans (le_of_eq (total_congr fun row hmem => ?_)) (hbase.covered code)
    change sellObligation account code (s.bookedFills ++ [fill]) s.appliedFills row =
      sellObligation account code s.bookedFills s.appliedFills row
    unfold sellObligation
    by_cases heq : row.clientOrderId = fill.clientOrderId
    · rw [if_pos (hrowsActive row hmem heq), if_pos (hrowsActive row hmem heq)]
    · rw [hother heq]

theorem write (h : SellStage account [] [fill] s) (hcached : s.inflight fill.clientOrderId = some order) :
    SellStage account [] [fill] (persist s order) ∧
      RowsCaughtUp fill.clientOrderId (persist s order) := by
  have hid := h.rows.keyed.id _ _ hcached
  have hrow := h.rows.keyed.row _ (by rw [hcached]; rfl)
  refine ⟨h.ofPersistCached hcached (by rwa [hid]), ?_⟩
  intro row hmem heq hactive
  obtain ⟨hne, -⟩ | ⟨-, old, -, -, hwrite⟩ := mem_persist hmem
  · exact absurd (heq.trans hid.symm) hne
  · have hfilled := (h.cached _ _ hcached).2
    rw [hwrite] at hactive ⊢
    exact hfilled hactive

/-- The position gives up the sold quantity together with the commitment. -/
theorem apply (h : SellStage account [] [fill] s) (hrows : RowsCaughtUp fill.clientOrderId s) :
    SellStage account [] []
      { upsertLocal (positionAfter fill (localPosition s account fill.symbol)) s with
        appliedFills := s.appliedFills ++ [fill] } := by
  obtain ⟨hpositive, -, sold, hsold, hsoldid, haccount, hside, hsymbol⟩ :=
    h.pending fill (by simp)
  refine ⟨h.rows.of_eq (inflight_upsertLocal _ s) (orders_upsertLocal _ s), ?_, ?_, ?_, ?_, ?_, ?_,
    ?_, by simp, ?_, ?_⟩
  · rw [bookedFills_upsertLocal, append_nil, h.bookedFills]
  · rw [bookedFills_upsertLocal, fills_upsertLocal]
    exact h.stored
  · rw [bookedFills_upsertLocal, fills_upsertLocal]
    exact h.capacity
  · rw [orders_upsertLocal, fills_upsertLocal]
    exact h.quantity
  · rw [orders_upsertLocal, inflight_upsertLocal]
    exact h.terms
  · rw [inflight_upsertLocal, fills_upsertLocal, bookedFills_upsertLocal]
    exact h.cached
  · rw [orders_upsertLocal, inflight_upsertLocal, fills_upsertLocal, bookedFills_upsertLocal]
    intro row hmem
    obtain ⟨hsound, happlied⟩ := h.row row hmem
    refine ⟨hsound, fun hactive => ⟨?_, (happlied hactive).2⟩⟩
    by_cases heq : row.clientOrderId = fill.clientOrderId
    · have hcaught := hrows row hmem heq hactive
      rw [h.bookedFills, ← heq] at hcaught
      exact hcaught
    · rw [filledOf_append, if_neg (Ne.symm heq), add_zero]
      exact (happlied hactive).1
  · exact h.positions.upsertLocal (positionAfter_sound (localPosition_sound h.positions))
  · intro code
    have havailable : availableQuantity s account code -
          (if fill.side = .sell ∧ code = fill.symbol.code then fill.quantity else 0) ≤
        availableQuantity (upsertLocal (positionAfter fill (localPosition s account fill.symbol)) s)
          account code := availableQuantity_applyFill hpositive h.positions code
    have hcovered := h.covered code
    unfold committed at hcovered ⊢
    rw [orders_upsertLocal, bookedFills_upsertLocal]
    have hless : ∀ row ∈ s.orders,
        sellObligation account code s.bookedFills (s.appliedFills ++ [fill]) row ≤
          sellObligation account code s.bookedFills s.appliedFills row := by
      intro row _
      unfold sellObligation
      rw [filledOf_append]
      split
      · split <;> split <;> linarith
      · exact le_refl _
    have htaken := total_add_le_total (d := if fill.side = .sell ∧ code = fill.symbol.code then
      fill.quantity else 0) hless hsold ?_
    · change _ ≤ availableQuantity
        (upsertLocal (positionAfter fill (localPosition s account fill.symbol)) s) account code
      linarith
    · by_cases hsale : fill.side = .sell ∧ code = fill.symbol.code
      · have hsell : isSellOf account code sold = true := by
          simp [isSellOf, haccount, hside, hsale.1, hsymbol, hsale.2]
        rw [if_pos hsale]
        unfold sellObligation
        rw [if_pos hsell, if_pos hsell, filledOf_append, if_pos hsoldid.symm]
        linarith
      · rw [if_neg hsale, add_zero]
        exact hless sold hsold

end Stages

end SellStage

end FinDashboard.Risk
