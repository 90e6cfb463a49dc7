import Mathlib.Data.List.Sublists

/-!
# Greedy selection under caps

Candidates are taken in order until a limit is reached; one whose group already has as many taken
members as its cap is passed over. What is taken keeps the order, no limit is exceeded, and nothing
is passed over for another reason.
-/

namespace FinDashboard

open List

variable {α κ : Type} [DecidableEq κ] (group : α → κ) (cap : Option ℕ) (limit : ℕ)

def groupCount (taken : List α) (code : κ) : ℕ := taken.countP fun a => group a = code

/-- A group that admits no further member. -/
def Full (taken : List α) (code : κ) : Prop := ∃ most ∈ cap, most ≤ groupCount group taken code

instance (taken : List α) (code : κ) : Decidable (Full group cap taken code) :=
  match cap with
  | none => isFalse (by rintro ⟨most, member, -⟩; cases member)
  | some most => decidable_of_iff (most ≤ groupCount group taken code) (by simp [Full])

/-- Take the candidates one after the other, after those already taken. -/
def greedy (taken : List α) : List α → List α
  | [] => taken
  | a :: rest =>
    if Full group cap taken (group a) then greedy taken rest
    else if limit ≤ taken.length + 1 then taken ++ [a]
    else greedy (taken ++ [a]) rest

variable {group cap limit} {taken candidates : List α} {a b : α}

theorem prefix_greedy : taken <+: greedy group cap limit taken candidates := by
  induction candidates generalizing taken with
  | nil => exact prefix_rfl
  | cons candidate rest ih =>
    unfold greedy
    split_ifs
    · exact ih
    · exact prefix_append taken [candidate]
    · exact (prefix_append taken [candidate]).trans ih

theorem greedy_sublist : (greedy group cap limit taken candidates).Sublist (taken ++ candidates) := by
  induction candidates generalizing taken with
  | nil => simp [greedy]
  | cons candidate rest ih =>
    unfold greedy
    split_ifs
    · exact ih.trans ((sublist_cons_self candidate rest).append_left taken)
    · exact (singleton_sublist.mpr mem_cons_self).append_left taken
    · have later : (greedy group cap limit (taken ++ [candidate]) rest).Sublist
          (taken ++ [candidate] ++ rest) := ih
      rwa [append_assoc, singleton_append] at later

theorem length_greedy_le (short : taken.length < limit) :
    (greedy group cap limit taken candidates).length ≤ limit := by
  induction candidates generalizing taken with
  | nil => exact short.le
  | cons candidate rest ih =>
    unfold greedy
    split_ifs with full reached
    · exact ih short
    · rw [length_append, length_singleton]
      exact short
    · apply ih
      rw [length_append, length_singleton]
      exact not_le.mp reached

theorem groupCount_append_singleton (code : κ) : groupCount group (taken ++ [a]) code =
      groupCount group taken code + if group a = code then 1 else 0 := by
  simp [groupCount, countP_append, countP_singleton]

theorem groupCount_greedy_le {most : ℕ} (capped : cap = some most)
    (within : ∀ code, groupCount group taken code ≤ most) (code : κ) :
    groupCount group (greedy group cap limit taken candidates) code ≤ most := by
  induction candidates generalizing taken with
  | nil => exact within code
  | cons candidate rest ih =>
    have grown (open_group : ¬ Full group cap taken (group candidate)) (code : κ) :
        groupCount group (taken ++ [candidate]) code ≤ most := by
      have room : groupCount group taken (group candidate) < most := by
        refine not_le.mp fun reached => open_group ⟨most, ?_, reached⟩
        rw [capped]
        exact rfl
      rw [groupCount_append_singleton]
      split_ifs with same
      · rw [← same]
        exact room
      · exact within code
    unfold greedy
    split_ifs with full reached
    · exact ih within
    · exact grown full code
    · exact ih (grown full)

/-- A candidate that was passed over for a later one belongs to a group whose cap was reached by
members taken before it. -/
theorem full_of_passed_over (order : List.Sublist [a, b] candidates) (nodup : candidates.Nodup)
    (fresh : ∀ x ∈ candidates, x ∉ taken) (chosen : b ∈ greedy group cap limit taken candidates)
    (left : a ∉ greedy group cap limit taken candidates) :
    ∃ earlier, earlier <+: greedy group cap limit taken candidates ∧
      (∀ x ∈ earlier, x ∈ taken ∨ List.Sublist [x, a] candidates) ∧ Full group cap earlier (group a) := by
  induction candidates generalizing taken with
  | nil => cases order
  | cons candidate rest ih =>
    obtain ⟨new, remaining⟩ := nodup_cons.mp nodup
    have later : ∀ x ∈ rest, x ∉ taken := fun x member => fresh x (mem_cons_of_mem _ member)
    have shifted {earlier : List α} {front : List α}
        (found : ∀ x ∈ earlier, x ∈ front ∨ List.Sublist [x, a] rest) (within : a ∈ rest)
        (fronts : ∀ x ∈ front, x ∈ taken ∨ x = candidate) :
        ∀ x ∈ earlier, x ∈ taken ∨ List.Sublist [x, a] (candidate :: rest) := by
      intro x member
      obtain inFront | before := found x member
      · obtain old | rfl := fronts x inFront
        · exact Or.inl old
        · exact Or.inr ((singleton_sublist.mpr within).cons_cons x)
      · exact Or.inr (before.cons candidate)
    unfold greedy at chosen left ⊢
    by_cases same : a = candidate
    · -- the candidate itself is the one passed over
      subst same
      split_ifs at chosen left ⊢ with full reached
      · exact ⟨taken, prefix_greedy, fun x member => Or.inl member, full⟩
      · exact absurd (mem_append_right taken mem_cons_self) left
      · exact absurd (prefix_greedy.subset (mem_append_right taken mem_cons_self)) left
    · have inRest : List.Sublist [a, b] rest := by
        cases order with
        | cons _ below => exact below
        | cons_cons _ _ => exact absurd rfl same
      have within := inRest.subset mem_cons_self
      split_ifs at chosen left ⊢ with full reached
      · obtain ⟨earlier, front, found, capped⟩ := ih inRest remaining later chosen left
        exact ⟨earlier, front, shifted found within fun x member => Or.inl member, capped⟩
      · -- the limit was reached before the later candidate
        have outside := inRest.subset (mem_cons_of_mem _ mem_cons_self)
        obtain old | last := mem_append.mp chosen
        · exact absurd old (later b outside)
        · exact absurd (mem_singleton.mp last ▸ outside) new
      · have apart : ∀ x ∈ rest, x ∉ taken ++ [candidate] := by
          intro x member kept
          obtain old | last := mem_append.mp kept
          · exact later x member old
          · exact new (mem_singleton.mp last ▸ member)
        obtain ⟨earlier, front, found, capped⟩ := ih inRest remaining apart chosen left
        refine ⟨earlier, front, shifted found within fun x member => ?_, capped⟩
        obtain old | last := mem_append.mp member
        · exact Or.inl old
        · exact Or.inr (mem_singleton.mp last)

/-- A greater limit goes on after the candidates of a smaller one. -/
theorem greedy_prefix {more : ℕ} (le : limit ≤ more) (taken candidates : List α) :
    greedy group cap limit taken candidates <+: greedy group cap more taken candidates := by
  induction candidates generalizing taken with
  | nil => exact prefix_rfl
  | cons candidate rest ih =>
    unfold greedy
    split_ifs with full reached reached' reached'
    · exact ih taken
    · exact prefix_rfl
    · exact prefix_greedy
    · exact absurd (le.trans reached') reached
    · exact ih _

end FinDashboard
