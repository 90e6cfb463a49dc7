import FinDashboard.Qmt.Addressing

/-!
# Which orders an adapter instance can address

The dictionaries of an instance link an order exactly when the instance was told its number. Trades and
order callbacks bring their remark along; order errors and cancellations need the dictionaries.
-/

namespace FinDashboard.Qmt

open Broker Ledger Text QmtBroker List QmtBroker

namespace World

variable {world next : World} {id : GeneratedId} {entry other : BookEntry}

theorem Linked.forget (linked : world.Linked) (book : next.book = world.book)
    (submitted : next.submitted = world.submitted) (told : next.told = [])
    (numbers : next.broker.brokerIdToCid = []) (cids : next.broker.cidToBrokerId = []) : next.Linked where
  number_injective := by
    rw [book]
    exact linked.number_injective
  owner_injective := by
    unfold Ours
    rw [book, submitted]
    exact linked.owner_injective
  told_book := by simp [told]
  known_number := by simp [numbers, find]
  known_owner := by simp [cids, find]
  by_number := by simp [numbers, told, find]
  by_owner := by simp [cids, told, find]

theorem Linked.keep (linked : world.Linked) (book : next.book = world.book)
    (submitted : next.submitted = world.submitted) {told : List ℤ}
    (heard : next.told = world.told ++ told)
    (unowned : ∀ orderId ∈ told, ∃ entry ∈ world.book, entry.orderId = orderId ∧ entry.owner = [])
    (numbers : next.broker.brokerIdToCid = world.broker.brokerIdToCid)
    (cids : next.broker.cidToBrokerId = world.broker.cidToBrokerId) : next.Linked := by
  have same : ∀ id entry, world.Ours id entry →
      (entry.orderId ∈ next.told ↔ entry.orderId ∈ world.told) := by
    rintro id entry ⟨_, member, owner⟩
    rw [heard, mem_append, or_iff_left]
    intro new
    obtain ⟨other, there, number, none_left⟩ := unowned _ new
    obtain rfl := linked.number_injective other there entry member number
    exact id.text_ne_nil (owner.symm.trans none_left)
  have ours : ∀ id entry, next.Ours id entry ↔ world.Ours id entry := by
    intro id entry
    unfold Ours
    rw [book, submitted]
  constructor
  case number_injective =>
    rw [book]
    exact linked.number_injective
  case owner_injective =>
    simp only [ours]
    exact linked.owner_injective
  case told_book =>
    intro orderId member
    rw [heard] at member
    rw [book]
    rcases mem_append.mp member with old | new
    · exact linked.told_book orderId old
    · obtain ⟨entry, there, number, _⟩ := unowned orderId new
      exact ⟨entry, there, number⟩
  case known_number =>
    rw [book, numbers]
    exact linked.known_number
  case known_owner =>
    rw [book, cids]
    exact linked.known_owner
  case by_number =>
    intro id entry mine
    have before := (ours id entry).mp mine
    simp only [numbers, same id entry before]
    exact linked.by_number id entry before
  case by_owner =>
    intro id entry mine
    have before := (ours id entry).mp mine
    simp only [cids, same id entry before]
    exact linked.by_owner id entry before

/-- A step that neither tells nor records anything. -/
theorem Linked.quiet (linked : world.Linked) (book : next.book = world.book)
    (submitted : next.submitted = world.submitted) (heard : next.told = world.told)
    (numbers : next.broker.brokerIdToCid = world.broker.brokerIdToCid)
    (cids : next.broker.cidToBrokerId = world.broker.cidToBrokerId) : next.Linked :=
  linked.keep book submitted (heard.trans (append_nil _).symm) nofun numbers cids

theorem Linked.record (linked : world.Linked) (member : entry ∈ world.book)
    (book : next.book = world.book) (submitted : next.submitted = world.submitted)
    (heard : next.told = world.told ++ [entry.orderId]) (numbers : next.broker.brokerIdToCid =
      assign (orderIdText entry.orderId) (String.ofList entry.owner) world.broker.brokerIdToCid)
    (cids : next.broker.cidToBrokerId =
      assign (String.ofList entry.owner) (orderIdText entry.orderId) world.broker.cidToBrokerId) :
    next.Linked := by
  have ours : ∀ id entry, next.Ours id entry ↔ world.Ours id entry := by
    intro id entry
    unfold Ours
    rw [book, submitted]
  have told : ∀ orderId, orderId ∈ next.told ↔ orderId ∈ world.told ∨ orderId = entry.orderId := by
    simp [heard]
  constructor
  case number_injective =>
    rw [book]
    exact linked.number_injective
  case owner_injective =>
    simp only [ours]
    exact linked.owner_injective
  case told_book =>
    intro orderId heard
    rw [book]
    rcases (told orderId).mp heard with old | rfl
    · exact linked.told_book orderId old
    · exact ⟨entry, member, rfl⟩
  case known_number =>
    intro orderId cid found
    rw [numbers, find_assign] at found
    rw [book]
    by_cases same : orderIdText entry.orderId = orderIdText orderId
    · exact ⟨entry, member, orderIdText_injective same⟩
    · rw [if_neg same] at found
      exact linked.known_number orderId cid found
  case known_owner =>
    intro owner text found
    rw [cids, find_assign] at found
    rw [book]
    by_cases same : String.ofList entry.owner = String.ofList owner
    · exact ⟨entry, member, String.ofList_injective same⟩
    · rw [if_neg same] at found
      exact linked.known_owner owner text found
  case by_number =>
    intro id other mine
    have before := (ours id other).mp mine
    rw [numbers, find_assign]
    simp only [told]
    by_cases same : entry = other
    · subst same
      simp [before.2.2]
    · have apart : orderIdText entry.orderId ≠ orderIdText other.orderId := fun equal =>
        same (linked.number_injective entry member other before.2.1 (orderIdText_injective equal))
      have different : other.orderId ≠ entry.orderId := fun equal =>
        apart (congrArg orderIdText equal.symm)
      rw [if_neg apart, linked.by_number id other before]
      simp only [different, or_false]
  case by_owner =>
    intro id other mine
    have before := (ours id other).mp mine
    rw [cids, find_assign]
    simp only [told]
    by_cases same : entry = other
    · subst same
      simp [before.2.2]
    · have apart : String.ofList entry.owner ≠ String.ofList id.text := by
        intro equal
        have owner := String.ofList_injective equal
        exact same (linked.owner_injective id entry other ⟨before.1, member, owner⟩ before)
      have different : other.orderId ≠ entry.orderId := fun equal =>
        same (linked.number_injective entry member other before.2.1 equal.symm)
      rw [if_neg apart, linked.by_owner id other before]
      simp only [different, or_false]

theorem Linked.extend (linked : world.Linked) (book : next.book = world.book ++ [entry])
    (submitted : next.submitted = world.submitted) (heard : next.told = world.told)
    (broker : next.broker = world.broker) (fresh : ∀ other ∈ world.book, other.orderId ≠ entry.orderId)
    (apart : ∀ id ∈ world.submitted, entry.owner = id.text →
      ∀ other ∈ world.book, other.owner ≠ id.text) : next.Linked := by
  have ours : ∀ id other, next.Ours id other →
      world.Ours id other ∨ (id ∈ world.submitted ∧ other = entry ∧ entry.owner = id.text) := by
    rintro id other ⟨mine, member, owner⟩
    rw [submitted] at mine
    rw [book] at member
    rcases mem_append.mp member with old | new
    · exact Or.inl ⟨mine, old, owner⟩
    · obtain rfl := mem_singleton.mp new
      exact Or.inr ⟨mine, rfl, owner⟩
  have unheard : entry.orderId ∉ world.told := by
    intro told
    obtain ⟨other, member, number⟩ := linked.told_book _ told
    exact fresh other member number
  constructor
  case number_injective =>
    rw [book]
    intro first one second two same
    rcases mem_append.mp one with old | new
    · rcases mem_append.mp two with old' | new'
      · exact linked.number_injective first old second old' same
      · obtain rfl := mem_singleton.mp new'
        exact absurd same (fresh first old)
    · obtain rfl := mem_singleton.mp new
      rcases mem_append.mp two with old' | new'
      · exact absurd same.symm (fresh second old')
      · exact (mem_singleton.mp new').symm
  case owner_injective =>
    intro id first second one two
    rcases ours id first one with old | ⟨mine, rfl, owner⟩
    · rcases ours id second two with old' | ⟨mine, rfl, owner⟩
      · exact linked.owner_injective id first second old old'
      · exact absurd old.2.2 (apart id mine owner first old.2.1)
    · rcases ours id second two with old' | ⟨_, rfl, _⟩
      · exact absurd old'.2.2 (apart id mine owner second old'.2.1)
      · rfl
  case told_book =>
    intro orderId told
    rw [heard] at told
    obtain ⟨other, member, number⟩ := linked.told_book orderId told
    exact ⟨other, by rw [book]; exact mem_append_left _ member, number⟩
  case known_number =>
    intro orderId cid found
    rw [broker] at found
    obtain ⟨other, member, number⟩ := linked.known_number orderId cid found
    exact ⟨other, by rw [book]; exact mem_append_left _ member, number⟩
  case known_owner =>
    intro owner text found
    rw [broker] at found
    obtain ⟨other, member, same⟩ := linked.known_owner owner text found
    exact ⟨other, by rw [book]; exact mem_append_left _ member, same⟩
  case by_number =>
    intro id other mine
    rw [heard, broker]
    rcases ours id other mine with old | ⟨_, rfl, _⟩
    · exact linked.by_number id other old
    · rw [if_neg unheard]
      cases found : find (orderIdText other.orderId) world.broker.brokerIdToCid with
      | none => rfl
      | some cid =>
        obtain ⟨known, member, number⟩ := linked.known_number _ cid found
        exact absurd number (fresh known member)
  case by_owner =>
    intro id other mine
    rw [heard, broker]
    rcases ours id other mine with old | ⟨placed, rfl, owner⟩
    · exact linked.by_owner id other old
    · rw [if_neg unheard]
      cases found : find (String.ofList id.text) world.broker.cidToBrokerId with
      | none => rfl
      | some text =>
        obtain ⟨known, member, same⟩ := linked.known_owner _ text found
        exact absurd same (apart id placed owner known member)

theorem Linked.place (linked : world.Linked) (book : next.book = world.book)
    (submitted : next.submitted = world.submitted ++ [id]) (heard : next.told = world.told)
    (broker : next.broker = world.broker) (fresh : ∀ entry ∈ world.book, entry.owner ≠ id.text) :
    next.Linked := by
  have ours : ∀ other entry, next.Ours other entry → world.Ours other entry := by
    rintro other entry ⟨mine, member, owner⟩
    rw [submitted] at mine
    rw [book] at member
    rcases mem_append.mp mine with old | new
    · exact ⟨old, member, owner⟩
    · obtain rfl := mem_singleton.mp new
      exact absurd owner (fresh entry member)
  constructor
  case number_injective =>
    rw [book]
    exact linked.number_injective
  case owner_injective =>
    exact fun other first second one two =>
      linked.owner_injective other first second (ours other first one) (ours other second two)
  case told_book =>
    rw [book, heard]
    exact linked.told_book
  case known_number =>
    rw [book, broker]
    exact linked.known_number
  case known_owner =>
    rw [book, broker]
    exact linked.known_owner
  case by_number =>
    intro other entry mine
    rw [heard, broker]
    exact linked.by_number other entry (ours other entry mine)
  case by_owner =>
    intro other entry mine
    rw [heard, broker]
    exact linked.by_owner other entry (ours other entry mine)

/-- A new instance before its first order. -/
def start (accountId : AccountId) : World := { broker := connect { accountId } }

theorem linked_start (accountId : AccountId) : (start accountId).Linked where
  number_injective := nofun
  owner_injective := fun _ _ _ one => absurd one.2.1 (by simp [start])
  told_book := nofun
  known_number := by simp [start, connect, pushEvent, find]
  known_owner := by simp [start, connect, pushEvent, find]
  by_number := fun _ _ mine => absurd mine.2.1 (by simp [start])
  by_owner := fun _ _ mine => absurd mine.2.1 (by simp [start])

theorem linked_placeOrderReturned {order : Order} {outcome : CallOutcome (Option ℤ)}
    (linked : world.Linked) (possible : world.Possible (.placeOrderReturned order outcome)) :
    (world.step (.placeOrderReturned order outcome)).Linked := by
  obtain ⟨_, known⟩ := possible
  cases outcome with
  | timeout => exact linked.quiet rfl rfl (append_nil _) rfl rfl
  | failed => exact linked.quiet rfl rfl (append_nil _) rfl rfl
  | returned answer =>
    cases answer with
    | none => exact linked.quiet rfl rfl (append_nil _) rfl rfl
    | some orderId =>
      by_cases refused : orderId < 0
      · have quiet : toldByReturn (.returned (some orderId)) = [] := if_pos refused
        have untouched : (world.broker.placeOrderReturned order (.returned (some orderId))).1 =
            world.broker := by
          simp [placeOrderReturned, refused]
        have heard : world.told ++ toldByReturn (.returned (some orderId)) = world.told := by
          rw [quiet, append_nil]
        exact linked.quiet rfl rfl heard (congrArg brokerIdToCid untouched)
          (congrArg cidToBrokerId untouched)
      · obtain ⟨entry, member, number, owner⟩ := known orderId rfl (by omega)
        subst number
        have heard : toldByReturn (.returned (some entry.orderId)) = [entry.orderId] :=
          if_neg refused
        have recorded :
            (world.broker.placeOrderReturned order (.returned (some entry.orderId))).1 =
              world.broker.recordOidMapping (String.ofList entry.owner)
                (orderIdText entry.orderId) := by
          simp [placeOrderReturned, refused, owner]
        exact linked.record member rfl rfl (congrArg (world.told ++ ·) heard)
          (congrArg brokerIdToCid recorded) (congrArg cidToBrokerId recorded)

variable {data : XtObject} {now : ℤ}

theorem linked_stockOrder (linked : world.Linked)
    (possible : world.Possible (.callback now (.stockOrder data))) :
    (world.step (.callback now (.stockOrder data))).Linked := by
  obtain ⟨typed, entry, member, names⟩ := possible
  have heard : toldByCallback (.stockOrder data) = [entry.orderId] := by
    simp [toldByCallback, names.1]
  by_cases owned : entry.owner = []
  · have untouched := onXtOrder_unowned world.broker names owned
    refine linked.keep rfl rfl (congrArg (world.told ++ ·) heard) ?_
      (congrArg brokerIdToCid untouched) (congrArg cidToBrokerId untouched)
    intro orderId told
    exact ⟨entry, member, (mem_singleton.mp told).symm, owned⟩
  · obtain ⟨statusCode, status⟩ := Option.isSome_iff_exists.mp typed
    obtain ⟨events, handled, _⟩ := onXtOrder_owned world.broker names owned status
    exact linked.record member rfl rfl (congrArg (world.told ++ ·) heard)
      (congrArg brokerIdToCid handled) (congrArg cidToBrokerId handled)

theorem onXtTrade_maps (now : ℤ) (broker : QmtBroker) (data : XtObject) :
    (broker.onXtTrade now data).brokerIdToCid = broker.brokerIdToCid ∧
      (broker.onXtTrade now data).cidToBrokerId = broker.cidToBrokerId := by
  unfold onXtTrade
  cases xtTradeToFill now data with
  | none => exact ⟨rfl, rfl⟩
  | some fill =>
    by_cases unowned : fill.clientOrderId = ""
    · simp [unowned]
    · simp [unowned, pushEvent]

variable (broker : QmtBroker)

theorem onXtOrderError_maps (data : XtObject) :
    (broker.onXtOrderError data).brokerIdToCid = broker.brokerIdToCid ∧
      (broker.onXtOrderError data).cidToBrokerId = broker.cidToBrokerId := by
  cases found : find (String.ofList (fieldText data "order_id")) broker.brokerIdToCid with
  | none => simp [onXtOrderError, found]
  | some cid => simp [onXtOrderError, found, pushEvent]

theorem connect_maps : broker.connect.brokerIdToCid = broker.brokerIdToCid ∧
      broker.connect.cidToBrokerId = broker.cidToBrokerId := by
  by_cases online : broker.connected <;> simp [connect, online, pushEvent]

theorem disconnect_maps : broker.disconnect.brokerIdToCid = broker.brokerIdToCid ∧
      broker.disconnect.cidToBrokerId = broker.cidToBrokerId := by
  by_cases online : broker.connected <;> simp [disconnect, online, pushEvent]

theorem linked_callback {raw : RawCallback} (linked : world.Linked)
    (possible : world.Possible (.callback now raw)) : (world.step (.callback now raw)).Linked := by
  cases raw with
  | disconnected => exact linked.quiet rfl rfl (append_nil _) rfl rfl
  | stockOrder data => exact linked_stockOrder linked possible
  | stockTrade data =>
    have maps := onXtTrade_maps now world.broker data
    exact linked.quiet rfl rfl (append_nil _) maps.1 maps.2
  | orderError data =>
    have maps := onXtOrderError_maps world.broker data
    exact linked.quiet rfl rfl (append_nil _) maps.1 maps.2
  | cancelError data => exact linked.quiet rfl rfl (append_nil _) rfl rfl

theorem step_query (world : World) (raw : Option (List XtObject)) :
    ∃ reported, world.step (.query raw) = { world with reported := reported } := by
  cases asked : world.broker.queryActiveOrders raw with
  | ok orders => exact ⟨world.reported ++ orders.map (·.clientOrderId), by simp only [step, asked]⟩
  | error raised => exact ⟨world.reported, by simp only [step, asked]⟩

/-- Every step the surroundings allow keeps the link. -/
theorem linked_step {s : Step} (linked : world.Linked) (possible : world.Possible s) :
    (world.step s).Linked := by
  cases s with
  | submit id order => exact linked.place rfl rfl rfl rfl possible.2.2.2
  | accept id orderId =>
    obtain ⟨_, unowned, fresh⟩ := possible
    have owner : BookEntry.owner { orderId, remark := encodeOrderRemark id.text } = id.text :=
      id.decode_encode
    refine linked.extend rfl rfl rfl rfl fresh ?_
    intro other _ same
    rw [← same, owner]
    exact unowned
  | foreign entry =>
    exact linked.extend rfl rfl rfl rfl possible.1 fun id placed same =>
      absurd same (possible.2 id placed)
  | placeOrderReturned order outcome => exact linked_placeOrderReturned linked possible
  | callback now raw => exact linked_callback linked possible
  | query raw =>
    obtain ⟨reported, asked⟩ := step_query world raw
    rw [asked]
    exact linked.quiet rfl rfl rfl rfl rfl
  | cancel clientOrderId => exact linked
  | connect =>
    have maps := connect_maps world.broker
    exact linked.quiet rfl rfl rfl maps.1 maps.2
  | disconnect =>
    have maps := disconnect_maps world.broker
    exact linked.quiet rfl rfl rfl maps.1 maps.2
  | restart => exact linked.forget rfl rfl rfl rfl rfl

theorem Ours.text_ne_nil (mine : world.Ours id entry) : entry.owner ≠ [] := by
  rw [mine.2.2]
  exact id.text_ne_nil

theorem Ours.eq_of_names (linked : world.Linked) (mine : world.Ours id entry)
    (member : other ∈ world.book) (names : data.Names other)
    (number : field data "order_id" = some (.int entry.orderId)) : other = entry := by
  rw [names.1, Option.some.injEq, XtValue.int.injEq] at number
  exact linked.number_injective other member entry mine.2.1 number

/-- Order callbacks and trades are addressed by their remarks, whatever the instance was told. -/
theorem addressed_stockOrder (linked : world.Linked)
    (possible : world.Possible (.callback now (.stockOrder data))) :
    world.Addressed (.callback now (.stockOrder data)) := by
  intro id entry mine number kind stands
  obtain ⟨typed, other, member, names⟩ := possible
  obtain rfl := mine.eq_of_names linked member names number
  obtain ⟨statusCode, status⟩ := Option.isSome_iff_exists.mp typed
  obtain ⟨events, handled, pushed⟩ := onXtOrder_owned world.broker names mine.text_ne_nil status
  obtain ⟨event, single, type, owner⟩ := pushed kind stands
  refine ⟨event, ?_, type, owner.trans (by rw [mine.2.2])⟩
  rw [← single]
  exact congrArg eventQueue handled

theorem addressed_stockTrade (linked : world.Linked)
    (possible : world.Possible (.callback now (.stockTrade data))) :
    world.Addressed (.callback now (.stockTrade data)) := by
  intro id entry mine number kind stands
  obtain ⟨typed, other, member, names⟩ := possible
  obtain rfl := mine.eq_of_names linked member names number
  obtain ⟨event, pushed, type, owner⟩ :=
    onXtTrade_owned now world.broker names typed mine.text_ne_nil
  exact ⟨event, pushed, type.trans (Option.some.inj stands), owner.trans (by rw [mine.2.2])⟩

theorem addressed_orderError_iff (linked : world.Linked) :
    world.Addressed (.callback now (.orderError data)) ↔
      world.Told (.callback now (.orderError data)) := by
  have text {entry : BookEntry} (number : field data "order_id" = some (.int entry.orderId)) :
      String.ofList (fieldText data "order_id") = orderIdText entry.orderId := by
    simp [fieldText, number, XtValue.str, orderIdText]
  constructor
  · intro addressed id entry mine number
    by_contra untold
    have unknown := linked.by_number id entry mine
    rw [if_neg untold, ← text number] at unknown
    obtain ⟨event, pushed, _⟩ := addressed id entry mine number .orderRejected rfl
    have dropped : world.broker.handleRawCallback now (.orderError data) = world.broker := by
      simp [handleRawCallback, onXtOrderError, unknown]
    rw [dropped] at pushed
    simp at pushed
  · intro told id entry mine number kind stands
    have known := linked.by_number id entry mine
    rw [if_pos (told id entry mine number), ← text number] at known
    have named := ofList_ne_empty id.text_ne_nil
    simp only [handleRawCallback, onXtOrderError, known, pushEvent, if_neg named]
    exact ⟨_, rfl, Option.some.inj stands, rfl⟩

/-- A reported order can be cancelled exactly when the instance was told its number. -/
theorem addressed_cancel_iff {clientOrderId : ClientOrderId} (linked : world.Linked) :
    world.Addressed (.cancel clientOrderId) ↔ world.Told (.cancel clientOrderId) := by
  constructor
  · intro addressed id entry mine same reported online
    by_contra untold
    have unknown := linked.by_owner id entry mine
    rw [if_neg untold, ← same] at unknown
    have raised := addressed id entry mine same reported online
    simp only [cancelOrder, requireConnected, online, unknown] at raised
    cases raised
  · intro told id entry mine same reported online
    have known := linked.by_owner id entry mine
    rw [if_pos (told id entry mine same reported online), ← same] at known
    have read : readInteger (orderIdText entry.orderId).toList = some entry.orderId := by
      simp [orderIdText, readInteger_integerText]
    simp only [cancelOrder, requireConnected, online, known, read]
    rfl

theorem addressed_iff_told {s : Step} (linked : world.Linked) (possible : world.Possible s) :
    world.Addressed s ↔ world.Told s := by
  cases s with
  | callback now raw =>
    cases raw with
    | stockOrder data => exact iff_of_true (addressed_stockOrder linked possible) trivial
    | stockTrade data => exact iff_of_true (addressed_stockTrade linked possible) trivial
    | orderError data => exact addressed_orderError_iff linked
    | disconnected => exact iff_of_true nofun trivial
    | cancelError data => exact iff_of_true nofun trivial
  | cancel clientOrderId => exact addressed_cancel_iff linked
  | _ => exact Iff.rfl

/-- A run addresses every order at every step exactly when each order error it handles, and each
cancellation of a reported order, finds an instance that was told the order's number. -/
theorem guarded_addressed_iff (accountId : AccountId) (steps : List Step)
    (possible : Runs.Guarded step Possible (start accountId) steps) :
    Runs.Guarded step Addressed (start accountId) steps ↔
      Runs.Guarded step Told (start accountId) steps :=
  possible.iff_of_possible (linked_start accountId) (fun _ _ => linked_step)
    fun _ _ => addressed_iff_told

def sampleId : GeneratedId where
  today := "20260105".toList
  suffix := "0123456789abcdef".toList
  today_length := by decide
  today_digits := by decide
  suffix_length := by decide
  suffix_hex := all_eq_true.mp (by decide)

def sampleOrder : Order where
  clientOrderId := String.ofList sampleId.text
  accountId := "account"
  symbol := { code := "600000.SH", market := .aShare }
  side := .buy
  orderType := .limit
  quantity := 100
  price := some 10

/-- `XtOrderError` names the order by its number only. -/
def sampleError : XtObject := fun name => if name = "order_id" then some (.int 7) else none

/-- The order reaches the book under the number 7, its call ends, and its error is handled. -/
def sampleRun (outcome : CallOutcome (Option ℤ)) : List Step :=
  [ .submit sampleId sampleOrder, .accept sampleId 7, .placeOrderReturned sampleOrder outcome,
    .callback 0 (.orderError sampleError) ]

theorem sampleRun_possible {outcome : CallOutcome (Option ℤ)}
    (answers : ∀ orderId, outcome = .returned (some orderId) → orderId = 7) :
    Runs.Guarded step Possible (start "account") (sampleRun outcome) := by
  refine ⟨⟨rfl, rfl, nofun, nofun⟩, ⟨mem_singleton.mpr rfl, nofun, nofun⟩, ⟨?_, ?_⟩, trivial, trivial⟩
  · exact mem_singleton.mpr rfl
  · intro orderId returned _
    refine ⟨_, mem_singleton.mpr rfl, (answers orderId returned).symm, ?_⟩
    exact congrArg String.ofList sampleId.decode_encode.symm

theorem guarded_addressed_returned :
    Runs.Guarded step Addressed (start "account") (sampleRun (.returned (some 7))) := by
  have possible := @sampleRun_possible (.returned (some 7)) (by simp)
  refine (guarded_addressed_iff "account" _ possible).mpr ⟨trivial, trivial, trivial, ?_, trivial⟩
  intro id entry mine number
  have seven : (7 : ℤ) = entry.orderId := by
    simpa [field, sampleError] using number
  simp [seven.symm, step, start, toldByReturn]

/-- The error of an order whose `place_order` has timed out is dropped. -/
theorem timed_out_error_dropped : ¬ ∀ accountId steps,
    Runs.Guarded step Possible (start accountId) steps →
      Runs.Guarded step Addressed (start accountId) steps := by
  intro every
  have addressed := every "account" (sampleRun .timeout) (sampleRun_possible nofun)
  obtain ⟨_, _, _, lost, _⟩ := addressed
  obtain ⟨event, pushed, _⟩ := lost sampleId _
    ⟨mem_singleton.mpr rfl, mem_singleton.mpr rfl, sampleId.decode_encode⟩ rfl
    .orderRejected rfl
  simp [handleRawCallback, onXtOrderError, step, start, connect, pushEvent, placeOrderReturned,
    find] at pushed

end World

end FinDashboard.Qmt
