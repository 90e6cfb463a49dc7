import FinDashboard.Runs.SortedOn

/-!
# Steps that treat every row alike

A step over keyed rows is row-wise when it replaces the value of each row by a function of the row,
and the function depends on the rows but not on their order. Row-wise steps keep the keys in place,
and permuted rows give permuted results.
-/

namespace FinDashboard

variable {κ β γ δ : Type}

def RowWise (step : List (κ × β) → List (κ × γ)) : Prop :=
  ∀ rows : List (κ × β), (rows.map Prod.fst).Nodup →
    ∃ f : κ × β → γ, ∀ others, rows.Perm others → step others = others.map fun row => (row.1, f row)

variable {step : List (κ × β) → List (κ × γ)} {rows others : List (κ × β)}

theorem RowWise.of_statistic {σ : Type} (statistic : List (κ × β) → σ) (f : σ → κ × β → γ)
    (steps : ∀ rows, step rows = rows.map fun row => (row.1, f (statistic rows) row))
    (invariant : ∀ rows others, (rows.map Prod.fst).Nodup → rows.Perm others →
      statistic others = statistic rows) : RowWise step := by
  intro rows apart
  refine ⟨f (statistic rows), fun others shuffled => ?_⟩
  rw [steps others, invariant rows others apart shuffled]

theorem RowWise.of_map (f : κ × β → γ)
    (steps : ∀ rows, step rows = rows.map fun row => (row.1, f row)) : RowWise step :=
  fun _ _ => ⟨f, fun others _ => steps others⟩

theorem RowWise.id : RowWise fun rows : List (κ × β) => rows := by
  refine RowWise.of_map Prod.snd fun rows => ?_
  simp

theorem RowWise.keys (rowWise : RowWise step) (apart : (rows.map Prod.fst).Nodup) :
    (step rows).map Prod.fst = rows.map Prod.fst := by
  obtain ⟨f, mapped⟩ := rowWise rows apart
  rw [mapped rows (List.Perm.refl rows), List.map_map]
  rfl

theorem RowWise.perm (rowWise : RowWise step) (apart : (rows.map Prod.fst).Nodup)
    (shuffled : rows.Perm others) : (step rows).Perm (step others) := by
  obtain ⟨f, mapped⟩ := rowWise rows apart
  rw [mapped rows (List.Perm.refl rows), mapped others shuffled]
  exact shuffled.map _

/-- Any two results can be made to stand in either order. -/
theorem RowWise.exists_sublist [DecidableEq κ] (rowWise : RowWise step)
    (apart : (rows.map Prod.fst).Nodup) {a b : κ × γ} (first : a ∈ step rows) (second : b ∈ step rows)
    (distinct : a.1 ≠ b.1) : ∃ moved, rows.Perm moved ∧ List.Sublist [a, b] (step moved) := by
  obtain ⟨f, mapped⟩ := rowWise rows apart
  rw [mapped rows (List.Perm.refl rows)] at first second
  obtain ⟨p, firstRow, rfl⟩ := List.mem_map.mp first
  obtain ⟨q, secondRow, rfl⟩ := List.mem_map.mp second
  have shuffled : rows.Perm (pull (fun row => row.1 = p.1) rows) := (pull_perm _ rows).symm
  have ahead : List.Sublist [p, q] (pull (fun row => row.1 = p.1) rows) :=
    pair_sublist_pull firstRow secondRow (decide_eq_true rfl) (decide_eq_false (Ne.symm distinct))
  refine ⟨_, shuffled, ?_⟩
  rw [mapped _ shuffled]
  exact ahead.map fun row => (row.1, f row)

theorem RowWise.comp {next : List (κ × γ) → List (κ × δ)} (second : RowWise next)
    (first : RowWise step) : RowWise fun rows => next (step rows) := by
  intro rows apart
  have keys := first.keys apart
  obtain ⟨f, mapped⟩ := first rows apart
  obtain ⟨g, remapped⟩ := second (step rows) (keys ▸ apart)
  refine ⟨fun row => g (row.1, f row), fun others shuffled => ?_⟩
  change next (step others) = _
  rw [remapped (step others) (first.perm apart shuffled), mapped others shuffled, List.map_map]
  rfl

/-- A choice between steps that the rows do not decide. -/
theorem RowWise.ite {other : List (κ × β) → List (κ × γ)} (condition : Prop)
    [Decidable condition] (first : RowWise step) (second : RowWise other) :
    RowWise fun rows => if condition then step rows else other rows := by
  by_cases holds : condition
  · simpa only [if_pos holds] using first
  · simpa only [if_neg holds] using second

end FinDashboard
