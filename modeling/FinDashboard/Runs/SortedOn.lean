import Mathlib.Data.Finset.Sort

/-!
# Sorting by a key

A stable sort puts the keys in order. Where different items have different keys, the result does
not depend on the order in which the items are given.
-/

namespace FinDashboard

open List

variable {α β : Type} [LinearOrder β] {key other : α → β} {items others : List α} {a b : α}

def sortedOn (key : α → β) (items : List α) : List α :=
  items.insertionSort fun a b => key a ≤ key b

theorem sortedOn_perm : (sortedOn key items).Perm items := perm_insertionSort _ _

@[simp] theorem mem_sortedOn : a ∈ sortedOn key items ↔ a ∈ items := sortedOn_perm.mem_iff

theorem pairwise_sortedOn : (sortedOn key items).Pairwise fun a b => key a ≤ key b := by
  have total : Std.Total fun a b : α => key a ≤ key b := ⟨fun a b => le_total (key a) (key b)⟩
  have transitive : IsTrans α fun a b => key a ≤ key b := ⟨fun _ _ _ => le_trans⟩
  exact pairwise_insertionSort _ _

/-- Items with different keys are sorted the same way however they are given. -/
theorem sortedOn_eq_of_perm (shuffled : items.Perm others)
    (apart : ∀ a ∈ items, ∀ b ∈ items, key a = key b → a = b) :
    sortedOn key items = sortedOn key others := by
  refine List.Perm.eq_of_pairwise ?_ pairwise_sortedOn pairwise_sortedOn
    (sortedOn_perm.trans (shuffled.trans sortedOn_perm.symm))
  intro a b first second le ge
  have here := shuffled.mem_iff.mpr (mem_sortedOn.mp second)
  exact apart a (mem_sortedOn.mp first) b here (le_antisymm le ge)

theorem pair_sublist_sortedOn (first : a ∈ items) (second : b ∈ items) (before : key a < key b) :
    List.Sublist [a, b] (sortedOn key items) := by
  have sorted : (sortedOn key items).Pairwise fun a b => key a ≤ key b := pairwise_sortedOn
  have left : a ∈ sortedOn key items := mem_sortedOn.mpr first
  have right : b ∈ sortedOn key items := mem_sortedOn.mpr second
  generalize sortedOn key items = sorted_items at *
  induction sorted_items with
  | nil => cases left
  | cons item rest ih =>
    obtain ⟨smallest, remaining⟩ := pairwise_cons.mp sorted
    obtain rfl | later := mem_cons.mp left
    · have after : b ∈ rest := by
        obtain rfl | after := mem_cons.mp right
        · exact absurd before (lt_irrefl _)
        · exact after
      exact (singleton_sublist.mpr after).cons_cons a
    · have after : b ∈ rest := by
        obtain rfl | after := mem_cons.mp right
        · exact absurd (smallest a later) (not_le.mpr before)
        · exact after
      exact (ih remaining later after).cons item

variable {p : α → Bool}

theorem filter_orderedInsert {sorted : List α} (order : sorted.Pairwise fun a b => key a ≤ key b) :
    (sorted.orderedInsert (fun a b => key a ≤ key b) a).filter p =
      if p a then (sorted.filter p).orderedInsert (fun a b => key a ≤ key b) a else sorted.filter p := by
  induction sorted with
  | nil => cases chosen : p a <;> simp [chosen]
  | cons first rest ih =>
    obtain ⟨smallest, order⟩ := pairwise_cons.mp order
    rw [orderedInsert_cons]
    by_cases before : key a ≤ key first
    · rw [if_pos before]
      cases chosen : p a with
      | false => rw [filter_cons_of_neg (by simp [chosen]), if_neg Bool.false_ne_true]
      | true =>
        rw [filter_cons_of_pos chosen, if_pos rfl]
        cases kept : (first :: rest).filter p with
        | nil => rfl
        | cons next more =>
          -- what is kept first is no smaller than the first item
          have member : next ∈ (first :: rest).filter p := by simp [kept]
          have least : key first ≤ key next := by
            rcases mem_cons.mp (mem_of_mem_filter member) with rfl | later
            · exact le_rfl
            · exact smallest next later
          rw [orderedInsert_cons, if_pos (before.trans least)]
    · rw [if_neg before]
      cases chosen : p first with
      | false =>
        rw [filter_cons_of_neg (by simp [chosen]), filter_cons_of_neg (by simp [chosen]), ih order]
      | true =>
        rw [filter_cons_of_pos chosen, filter_cons_of_pos chosen, ih order, orderedInsert_cons,
          if_neg before]
        split_ifs with same
        · rfl
        · rfl

theorem filter_sortedOn (p : α → Bool) : (sortedOn key items).filter p = sortedOn key (items.filter p) := by
  induction items with
  | nil => rfl
  | cons item rest ih =>
    have step : (sortedOn key (item :: rest)).filter p =
        if p item then (sortedOn key (rest.filter p)).orderedInsert (fun a b => key a ≤ key b) item
          else sortedOn key (rest.filter p) := by
      rw [← ih]
      exact filter_orderedInsert pairwise_sortedOn
    rw [step]
    cases chosen : p item with
    | false => rw [filter_cons_of_neg (by simp [chosen]), if_neg Bool.false_ne_true]
    | true =>
      rw [filter_cons_of_pos chosen, if_pos rfl]
      rfl

theorem map_sortedOn {γ δ : Type} [LinearOrder δ] {later : γ → δ} (f : α → γ)
    (same : ∀ a ∈ items, ∀ b ∈ items, key a ≤ key b ↔ later (f a) ≤ later (f b)) :
    (sortedOn key items).map f = sortedOn later (items.map f) :=
  map_insertionSort _ _ f items same

theorem sortedOn_congr {γ : Type} [LinearOrder γ] {later : α → γ}
    (same : ∀ a ∈ items, ∀ b ∈ items, key a ≤ key b ↔ later a ≤ later b) :
    sortedOn key items = sortedOn later items := by
  have mapped : (sortedOn key items).map id = sortedOn later (items.map id) :=
    map_insertionSort _ _ id items same
  rwa [map_id, map_id] at mapped

/-- The indices of the items in the order of a stable sort. -/
def argsort (key : α → β) (items : List α) : List (Fin items.length) :=
  sortedOn (fun i => key (items.get i)) (finRange items.length)

theorem map_argsort {γ : Type} (f : α → γ) :
    (argsort key items).map (fun i => f (items.get i)) = (sortedOn key items).map f := by
  have indexed : (argsort key items).map items.get = sortedOn key ((finRange items.length).map items.get) :=
    map_sortedOn items.get fun _ _ _ _ => Iff.rfl
  rw [map_get_finRange] at indexed
  rw [← indexed, map_map]
  rfl

/-- The first index from `lo` on, before `hi`, where the search goes no further up. -/
def bisectFrom (up : ℕ → Bool) (lo hi : ℕ) : ℕ :=
  if lo < hi then
    if up ((lo + hi) / 2) then bisectFrom up ((lo + hi) / 2 + 1) hi else bisectFrom up lo ((lo + hi) / 2)
  else lo
termination_by hi - lo

/-- The search finds the place up to which it goes up. -/
theorem bisectFrom_eq {up : ℕ → Bool} {cut lo hi : ℕ} (left : lo ≤ cut) (right : cut ≤ hi)
    (below : ∀ i, i < cut → up i = true) (above : ∀ i, cut ≤ i → i < hi → up i = false) :
    bisectFrom up lo hi = cut := by
  induction lo, hi using bisectFrom.induct up with
  | case1 lo hi open' goes ih =>
    rw [bisectFrom, if_pos open', if_pos goes]
    have inside : (lo + hi) / 2 < cut := by
      by_contra outside
      rw [above _ (by omega) (by omega)] at goes
      cases goes
    exact ih (by omega) right above
  | case2 lo hi open' stops ih =>
    rw [bisectFrom, if_pos open', if_neg stops]
    have outside : cut ≤ (lo + hi) / 2 := by
      by_contra inside
      exact stops (below _ (by omega))
    exact ih left outside fun i late early => above i late (by omega)
  | case3 lo hi closed =>
    rw [bisectFrom, if_neg closed]
    omega

def bisectLeft (values : List β) (value : β) : ℕ :=
  bisectFrom (fun i => values[i]?.any fun here => here < value) 0 values.length

def bisectRight (values : List β) (value : β) : ℕ :=
  bisectFrom (fun i => values[i]?.any fun here => !(value < here)) 0 values.length

/-- Items that have a property come before the others. -/
theorem filter_append_of_pairwise (first : items.Pairwise fun a b => p b = true → p a = true) :
    items.filter p ++ items.filter (fun a => !p a) = items := by
  induction items with
  | nil => rfl
  | cons item rest ih =>
    obtain ⟨earlier, first⟩ := pairwise_cons.mp first
    cases holds : p item with
    | true => simp [holds, ih first]
    | false =>
      have none : rest.filter p = [] := by
        refine filter_eq_nil_iff.mpr fun a member chosen => ?_
        rw [earlier a member chosen] at holds
        cases holds
      have all : rest.filter (fun a => !p a) = rest := by
        refine filter_eq_self.mpr fun a member => ?_
        cases chosen : p a with
        | false => rfl
        | true => exact absurd (mem_filter.mpr ⟨member, chosen⟩) (by simp [none])
      simp [holds, none, all]

omit [LinearOrder β] in
theorem bisectFrom_any {p : β → Bool} {values : List β}
    (first : values.Pairwise fun a b => p b = true → p a = true) :
    bisectFrom (fun i => values[i]?.any p) 0 values.length = (values.filter p).length := by
  have split := filter_append_of_pairwise first
  refine bisectFrom_eq (Nat.zero_le _) (length_filter_le p values) ?_ ?_
  · intro i early
    rw [← split, getElem?_append_left early, getElem?_eq_getElem early, Option.any_some]
    exact (mem_filter.mp (getElem_mem early)).2
  · intro i late _
    rw [← split, getElem?_append_right late]
    cases found : (values.filter fun a => !p a)[i - (values.filter p).length]? with
    | none => rfl
    | some value =>
      have member := (mem_filter.mp (mem_of_getElem? found)).2
      simpa using member

theorem bisectLeft_eq {values : List β} (order : values.Pairwise (· ≤ ·)) (value : β) :
    bisectLeft values value = (values.filter (· < value)).length := by
  refine bisectFrom_any (order.imp ?_)
  intro a b le less
  exact decide_eq_true (le.trans_lt (of_decide_eq_true less))

theorem bisectRight_eq {values : List β} (order : values.Pairwise (· ≤ ·)) (value : β) :
    bisectRight values value = (values.filter fun here => !(value < here)).length := by
  refine bisectFrom_any (order.imp ?_)
  intro a b le
  simp only [Bool.not_eq_true', decide_eq_false_iff_not, not_lt]
  exact le.trans

omit [LinearOrder β] in
/-- The items up to those with one property, less those with another one. -/
theorem drop_take_of_pairwise {p q : α → Bool} (first : items.Pairwise fun a b => p b = true → p a = true)
    (second : items.Pairwise fun a b => q b = true → q a = true) :
    (items.take (items.filter q).length).drop (items.filter p).length = items.filter fun a => !p a && q a := by
  induction items with
  | nil => rfl
  | cons item rest ih =>
    obtain ⟨firstItem, first⟩ := pairwise_cons.mp first
    obtain ⟨secondItem, second⟩ := pairwise_cons.mp second
    have window := ih first second
    cases within : q item with
    | false =>
      have none : (item :: rest).filter q = [] := by
        refine filter_eq_nil_iff.mpr (forall_mem_cons.mpr ⟨by simp [within], fun a member chosen => ?_⟩)
        rw [secondItem a member chosen] at within
        cases within
      have empty : ((item :: rest).filter fun a => !p a && q a) = [] := by
        rw [← filter_filter, none]
        rfl
      rw [none, empty, length_nil, take_zero, drop_nil]
    | true =>
      rw [filter_cons_of_pos within, length_cons, take_succ_cons]
      cases below : p item with
      | true =>
        rw [filter_cons_of_pos below, length_cons, drop_succ_cons, window,
          filter_cons_of_neg (by simp [below])]
      | false =>
        have none : rest.filter p = [] := by
          refine filter_eq_nil_iff.mpr fun a member chosen => ?_
          rw [firstItem a member chosen] at below
          cases below
        rw [none] at window
        rw [filter_cons_of_neg (by simp [below]), none, length_nil, drop_zero,
          filter_cons_of_pos (by simp [below, within])]
        exact congrArg (item :: ·) window

theorem tied_sublist_sortedOn (tied : key a ≤ key b) (given : List.Sublist [a, b] items) :
    List.Sublist [a, b] (sortedOn key items) := pair_sublist_insertionSort tied given

/-- The chosen items first, everything else behind them. -/
def pull (chosen : α → Bool) (items : List α) : List α :=
  items.filter chosen ++ items.filter fun a => !chosen a

omit [LinearOrder β] in
theorem pull_perm (chosen : α → Bool) (items : List α) : (pull chosen items).Perm items :=
  filter_append_perm chosen items

theorem pair_sublist_pull {chosen : α → Bool} (first : a ∈ items) (second : b ∈ items)
    (pulled : chosen a = true) (left : chosen b = false) : List.Sublist [a, b] (pull chosen items) := by
  have here : List.Sublist [a] (items.filter chosen) :=
    singleton_sublist.mpr (mem_filter.mpr ⟨first, pulled⟩)
  have behind : List.Sublist [b] (items.filter fun a => !chosen a) :=
    singleton_sublist.mpr (mem_filter.mpr ⟨second, by rw [left]; rfl⟩)
  exact here.append behind

/-- In a list without repetition two items come in one order only. -/
theorem idxOf_lt_of_sublist [DecidableEq α] (apart : items.Nodup)
    (before : List.Sublist [a, b] items) : items.idxOf a < items.idxOf b := by
  induction items with
  | nil => cases before
  | cons item rest ih =>
    obtain ⟨fresh, apart⟩ := nodup_cons.mp apart
    cases before with
    | cons _ later =>
      have members : a ∈ rest ∧ b ∈ rest := by
        simpa using later.subset
      have first : item ≠ a := fun same => fresh (same ▸ members.1)
      have second : item ≠ b := fun same => fresh (same ▸ members.2)
      rw [idxOf_cons_ne _ first, idxOf_cons_ne _ second]
      exact Nat.succ_lt_succ (ih apart later)
    | cons_cons _ later =>
      have member := singleton_sublist.mp later
      have second : a ≠ b := fun same => fresh (same ▸ member)
      rw [idxOf_cons_self, idxOf_cons_ne _ second]
      exact Nat.succ_pos _

/-- The members of a list in order, each once. -/
def sortedSet (items : List β) : List β := sortedOn id items.dedup

theorem mem_sortedSet {b : β} {items : List β} : b ∈ sortedSet items ↔ b ∈ items := by
  rw [sortedSet, mem_sortedOn, mem_dedup]

theorem nodup_sortedSet (items : List β) : (sortedSet items).Nodup :=
  sortedOn_perm.nodup_iff.mpr items.nodup_dedup

/-- The same members in order, however they are listed. -/
theorem sortedSet_congr {items others : List β} (same : ∀ b, b ∈ items ↔ b ∈ others) :
    sortedSet items = sortedSet others := by
  refine sortedOn_eq_of_perm ?_ fun a _ b _ equal => equal
  refine (perm_ext_iff_of_nodup items.nodup_dedup others.nodup_dedup).mpr fun b => ?_
  rw [mem_dedup, mem_dedup, same b]

/-- The index of the last item with a property, counted from the front. -/
def lastIndexWhere (p : α → Bool) (items : List α) : ℕ :=
  items.length - 1 - items.reverse.findIdx p

theorem getElem?_lastIndexWhere (some_item : ∃ a ∈ items, p a = true) :
    items[lastIndexWhere p items]? = (items.filter p).getLast? := by
  obtain ⟨a, member, holds⟩ := some_item
  have early : items.reverse.findIdx p < items.length := by
    have found := findIdx_lt_length_of_exists ⟨a, mem_reverse.mpr member, holds⟩
    rwa [length_reverse] at found
  rw [getLast?_filter, find?_eq_getElem?_findIdx, getElem?_reverse early]
  rfl

theorem getElem?_lastIndexWhere_eq [DecidableEq α] (member : a ∈ items) :
    items[lastIndexWhere (fun b => b = a) items]? = some a := by
  have kept : a ∈ items.filter fun b => b = a := mem_filter.mpr ⟨member, decide_eq_true rfl⟩
  have last := getLast_mem (ne_nil_of_mem kept)
  rw [getElem?_lastIndexWhere ⟨a, member, decide_eq_true rfl⟩,
    getLast?_eq_some_getLast (ne_nil_of_mem kept),
    of_decide_eq_true (mem_filter.mp last).2]

/-- The item a stable sort by the key puts last: the last one among those with the greatest key. -/
def latestOn (key : α → β) (items : List α) : Option α :=
  (items.filter fun a => (items.map key).max? = some (key a)).getLast?

theorem latestOn_spec (latest : latestOn key items = some a) :
    a ∈ items ∧ ∀ b ∈ items, key b ≤ key a := by
  obtain ⟨member, greatest⟩ := mem_filter.mp (mem_of_getLast? latest)
  refine ⟨member, fun b other => ?_⟩
  exact (max?_eq_some_iff.mp (of_decide_eq_true greatest)).2 _ (mem_map_of_mem other)

theorem exists_latestOn (some_item : a ∈ items) : ∃ b, latestOn key items = some b := by
  obtain ⟨greatest, found⟩ := Option.isSome_iff_exists.mp
    (isSome_max?_of_mem (mem_map_of_mem (f := key) some_item))
  obtain ⟨b, member, rfl⟩ := mem_map.mp (max?_mem found)
  have kept : b ∈ items.filter fun a => (items.map key).max? = some (key a) :=
    mem_filter.mpr ⟨member, decide_eq_true found⟩
  exact ⟨_, getLast?_eq_some_getLast (ne_nil_of_mem kept)⟩

theorem getElem?_lastIndexWhere_key {greatest : β} (found : (items.map key).max? = some greatest) :
    items[lastIndexWhere (fun a => key a = greatest) items]? = latestOn key items := by
  obtain ⟨b, member, same⟩ := mem_map.mp (max?_mem found)
  rw [getElem?_lastIndexWhere ⟨b, member, decide_eq_true same⟩]
  unfold latestOn
  rw [found]
  simp only [Option.some.injEq, eq_comm]

/-- It is found among the items with a property by one search through all of them. -/
theorem getElem?_lastIndexWhere_filter {greatest : β}
    (found : ((items.filter p).map key).max? = some greatest) :
    items[lastIndexWhere (fun a => p a && decide (key a = greatest)) items]? =
      latestOn key (items.filter p) := by
  obtain ⟨b, member, same⟩ := mem_map.mp (max?_mem found)
  obtain ⟨here, holds⟩ := mem_filter.mp member
  rw [getElem?_lastIndexWhere ⟨b, here, by simp [holds, same]⟩]
  unfold latestOn
  rw [found, filter_filter]
  simp only [Option.some.injEq, eq_comm, Bool.and_comm]

end FinDashboard
