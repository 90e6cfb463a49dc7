import FinDashboard.Ledger.Dictionary
import Mathlib.Data.List.Dedup
import Mathlib.Data.List.Induction

/-!
# Dictionary columns and groups

A column of names is kept as codes into the dictionary of its names. Rows with a key and a name are
collected in a dictionary of dictionaries.
-/

namespace FinDashboard.Ledger

open List

variable {κ ν β : Type} [DecidableEq κ] [DecidableEq ν]

/-- The names of a column in the order in which they first come. -/
def dictionary (column : List κ) : List κ :=
  column.foldl (fun names name => if name ∈ names then names else names ++ [name]) []

variable (column : List κ)

theorem dictionary_append_singleton (name : κ) : dictionary (column ++ [name]) =
      if name ∈ dictionary column then dictionary column else dictionary column ++ [name] := by
  unfold dictionary
  rw [foldl_append]
  rfl

@[simp] theorem mem_dictionary {column : List κ} {name : κ} : name ∈ dictionary column ↔ name ∈ column := by
  induction column using reverseRecOn generalizing name with
  | nil => rfl
  | append_singleton earlier last ih =>
    rw [dictionary_append_singleton]
    by_cases known : last ∈ dictionary earlier
    · rw [if_pos known, ih, mem_append, mem_singleton]
      refine ⟨Or.inl, fun member => member.elim id fun same => ?_⟩
      exact same ▸ ih.mp known
    · rw [if_neg known, mem_append, mem_append, ih]

theorem nodup_dictionary : (dictionary column).Nodup := by
  induction column using reverseRecOn with
  | nil => exact nodup_nil
  | append_singleton earlier last ih =>
    rw [dictionary_append_singleton]
    split_ifs with known
    · exact ih
    · rw [← concat_eq_append]
      exact ih.concat known

theorem length_dictionary : (dictionary column).length = column.dedup.length := by
  refine ((perm_ext_iff_of_nodup (nodup_dictionary column) column.nodup_dedup).mpr fun name => ?_).length_eq
  rw [mem_dictionary, mem_dedup]

theorem filter_dictionary (p : κ → Bool) (column : List κ) :
    (dictionary column).filter p = dictionary (column.filter p) := by
  induction column using reverseRecOn with
  | nil => rfl
  | append_singleton earlier last ih =>
    rw [dictionary_append_singleton, filter_append]
    cases kept : p last with
    | false =>
      rw [filter_cons_of_neg (by simp [kept]), filter_nil, append_nil, ← ih]
      split_ifs
      · rfl
      · rw [filter_append, filter_cons_of_neg (by simp [kept]), filter_nil, append_nil]
    | true =>
      have same : last ∈ dictionary (earlier.filter p) ↔ last ∈ dictionary earlier := by simp [kept]
      rw [filter_cons_of_pos kept, filter_nil, dictionary_append_singleton]
      by_cases known : last ∈ dictionary earlier
      · rw [if_pos known, if_pos (same.mpr known), ih]
      · rw [if_neg known, if_neg (mt same.mp known), filter_append, ih, filter_cons_of_pos kept,
          filter_nil]

def dictionaryEncode (column : List κ) : List κ × List ℕ :=
  (dictionary column, column.map fun name => (dictionary column).idxOf name)

theorem map_dictionaryEncode :
    ((dictionaryEncode column).2.map fun code => (dictionaryEncode column).1[code]?)
    = column.map some := by
  unfold dictionaryEncode
  rw [map_map]
  refine map_congr_left fun name member => ?_
  exact List.getElem?_idxOf (mem_dictionary.mpr member)

/-- `setdefault` with the number of the names so far. -/
def remember (codes : List (κ × ℕ)) (name : κ) : List (κ × ℕ) × ℕ :=
  match find name codes with
  | some code => (codes, code)
  | none => (assign name codes.length codes, codes.length)

def rememberAll (codes : List (κ × ℕ)) : List κ → List (κ × ℕ) × List ℕ
  | [] => (codes, [])
  | name :: rest =>
    let (codes, code) := remember codes name
    let (codes, others) := rememberAll codes rest
    (codes, code :: others)

/-- The names are numbered in their order. -/
def Numbered (codes : List (κ × ℕ)) : Prop := codes.map (·.2) = range codes.length

def named (codes : List (κ × ℕ)) (code : ℕ) : Option κ := (codes.map (·.1))[code]?

variable {codes : List (κ × ℕ)}

theorem named_of_find {name : κ} {code : ℕ} (numbered : Numbered codes)
    (found : find name codes = some code) : named codes code = some name := by
  obtain ⟨place, inside, entry⟩ := getElem_of_mem (mem_of_find found)
  have number : (codes.map (·.2))[place]? = some code := by
    rw [List.getElem?_map, List.getElem?_eq_getElem inside, entry]
    rfl
  rw [numbered, List.getElem?_range inside] at number
  rw [named, List.getElem?_map, ← Option.some.inj number, List.getElem?_eq_getElem inside, entry]
  rfl

/-- What one name does to the numbering: it stays, known names keep their codes, and the name has the code given. -/
theorem remember_spec (numbered : Numbered codes) (name : κ) :
    Numbered (remember codes name).1 ∧ codes <+: (remember codes name).1 ∧
      named (remember codes name).1 (remember codes name).2 = some name := by
  unfold remember
  cases found : find name codes with
  | some code => exact ⟨numbered, prefix_rfl, named_of_find numbered found⟩
  | none =>
    rw [assign_of_fresh (find_eq_none found)]
    refine ⟨?_, prefix_append _ _, ?_⟩
    · unfold Numbered at numbered ⊢
      simp [numbered, range_succ]
    · simp [named]

omit [DecidableEq κ] in
theorem named_of_longer {codes later : List (κ × ℕ)} {code : ℕ} {name : κ} (longer : codes <+: later)
    (here : named codes code = some name) : named later code = some name := by
  obtain ⟨more, rfl⟩ := longer
  unfold named at here ⊢
  rw [map_append]
  exact (List.getElem?_append_left (List.getElem?_eq_some_iff.mp here).1).trans here

theorem rememberAll_spec (names : List κ) (numbered : Numbered codes) :
    Numbered (rememberAll codes names).1 ∧ codes <+: (rememberAll codes names).1 ∧
      (rememberAll codes names).2.map (named (rememberAll codes names).1) = names.map some := by
  induction names generalizing codes with
  | nil => exact ⟨numbered, prefix_rfl, rfl⟩
  | cons name rest ih =>
    obtain ⟨numberedFirst, first, code⟩ := remember_spec numbered name
    obtain ⟨numberedLast, last, others⟩ := ih numberedFirst
    refine ⟨numberedLast, first.trans last, ?_⟩
    exact congrArg₂ cons (named_of_longer last code) others

omit [DecidableEq κ] in
theorem exists_renumbered {names column : List κ} {remap indices : List ℕ}
    (renumbered : remap.map (named codes) = names.map some)
    (encoded : indices.map (fun code => names[code]?) = column.map some) :
    ∃ renumberedIndices, indices.mapM (fun code => remap[code]?) = some renumberedIndices ∧
      renumberedIndices.map (named codes) = column.map some := by
  induction indices generalizing column with
  | nil =>
    have empty : column = [] := by simpa using encoded.symm
    exact ⟨[], rfl, by rw [empty]; rfl⟩
  | cons index rest ih =>
    obtain ⟨name, others, rfl⟩ := exists_cons_of_ne_nil (l := column) (by rintro rfl; cases encoded)
    obtain ⟨here, later⟩ := cons.inj encoded
    obtain ⟨codesLater, found, namedLater⟩ := ih later
    have place := congrArg (fun items : List (Option κ) => items[index]?) renumbered
    simp only [List.getElem?_map, here] at place
    obtain ⟨code, codeHere, nameHere⟩ := Option.map_eq_some_iff.mp place
    refine ⟨code :: codesLater, ?_, ?_⟩
    · rw [mapM_cons, codeHere, found]
      rfl
    · rw [map_cons, map_cons, nameHere, namedLater]

/-- The entries of rows with a key, a name and a value. -/
def collect (rows : List (κ × ν × β)) : List (ν × β) :=
  rows.foldl (fun held row => assign row.2.1 row.2.2 held) []

/-- `setdefault` of the key with an empty dictionary, and the assignment of the name there. -/
def enter (frame : List (κ × List (ν × β))) (row : κ × ν × β) : List (κ × List (ν × β)) :=
  assign row.1 (assign row.2.1 row.2.2 ((find row.1 frame).getD [])) frame

def grouped (rows : List (κ × ν × β)) : List (κ × List (ν × β)) := rows.foldl enter []

theorem find_keyed (f : κ → β) (key : κ) (names : List κ) :
    find key (names.map fun name => (name, f name)) = if key ∈ names then some (f key) else none := by
  induction names with
  | nil => rfl
  | cons first rest ih =>
    rw [map_cons, find_cons, ih]
    by_cases here : first = key
    · rw [if_pos here, if_pos (here ▸ mem_cons_self), here]
    · have later : key ∈ first :: rest ↔ key ∈ rest := by simp [Ne.symm here]
      rw [if_neg here, if_congr later rfl rfl]

theorem assign_keyed (f : κ → β) {key : κ} {value : β} {names : List κ} (apart : names.Nodup) (member : key ∈ names) :
    assign key value (names.map fun name => (name, f name)) =
      names.map fun name => (name, if name = key then value else f name) := by
  induction names with
  | nil => cases member
  | cons first rest ih =>
    obtain ⟨fresh, apart⟩ := nodup_cons.mp apart
    rw [map_cons, map_cons, assign]
    by_cases here : first = key
    · have others : (rest.map fun name => (name, if name = key then value else f name)) =
          rest.map fun name => (name, f name) := by
        refine map_congr_left fun name later => ?_
        have other : name ≠ key := fun same => fresh ((same.trans here.symm) ▸ later)
        rw [if_neg other]
      rw [if_pos here, if_pos here, others, here]
    · have later := (mem_cons.mp member).resolve_left (Ne.symm here)
      rw [if_neg here, if_neg here, ih apart later]

omit [DecidableEq κ] in
theorem collect_append_singleton (rows : List (κ × ν × β)) (row : κ × ν × β) :
    collect (rows ++ [row]) = assign row.2.1 row.2.2 (collect rows) := by
  unfold collect
  rw [foldl_append]
  rfl

omit [DecidableEq κ] in
theorem collect_of_nodup {rows : List (κ × ν × β)} (apart : (rows.map (·.2.1)).Nodup) :
    collect rows = rows.map (·.2) := by
  induction rows using reverseRecOn with
  | nil => rfl
  | append_singleton earlier last ih =>
    rw [map_append, map_singleton] at apart
    obtain ⟨before, _, different⟩ := nodup_append.mp apart
    have fresh : last.2.1 ∉ (earlier.map (·.2)).map (·.1) := by
      intro member
      rw [map_map] at member
      exact different _ member _ (mem_singleton_self _) rfl
    rw [collect_append_singleton, ih before, assign_of_fresh fresh, map_append]
    rfl

/-- The keys come in the order in which they first occur, each with the entries of its rows. -/
theorem grouped_eq (rows : List (κ × ν × β)) :
    grouped rows = (dictionary (rows.map (·.1))).map fun key => (key, collect (rows.filter fun row => row.1 = key)) := by
  induction rows using reverseRecOn with
  | nil => rfl
  | append_singleton earlier last ih =>
    have step : grouped (earlier ++ [last]) = enter (grouped earlier) last := by
      unfold grouped
      rw [foldl_append]
      rfl
    have own : collect ((earlier ++ [last]).filter fun row => row.1 = last.1) =
        assign last.2.1 last.2.2 (collect (earlier.filter fun row => row.1 = last.1)) := by
      rw [filter_append, filter_cons_of_pos (by simp), filter_nil, collect_append_singleton]
    have other : ∀ key, key ≠ last.1 →
        ((earlier ++ [last]).filter fun row => row.1 = key) = earlier.filter fun row => row.1 = key := by
      intro key apart
      rw [filter_append, filter_cons_of_neg (by simpa using Ne.symm apart), filter_nil, append_nil]
    rw [step, ih, enter, find_keyed, map_append, map_singleton, dictionary_append_singleton]
    by_cases known : last.1 ∈ dictionary (earlier.map (·.1))
    · rw [if_pos known, if_pos known, Option.getD_some, assign_keyed _ (nodup_dictionary _) known]
      refine map_congr_left fun key _ => ?_
      by_cases here : key = last.1
      · rw [if_pos here, here, own]
      · rw [if_neg here, other key here]
    · have empty : (earlier.filter fun row => row.1 = last.1) = [] := by
        refine filter_eq_nil_iff.mpr fun row member same => known ?_
        rw [mem_dictionary, ← of_decide_eq_true same]
        exact mem_map_of_mem member
      have fresh : last.1 ∉ ((dictionary (earlier.map (·.1))).map fun key =>
          (key, collect (earlier.filter fun row => row.1 = key))).map (·.1) := by
        simpa [map_map] using known
      rw [if_neg known, if_neg known, Option.getD_none, assign_of_fresh fresh, map_append, map_singleton, own,
        empty]
      congr 1
      refine map_congr_left fun key member => ?_
      rw [other key fun same => known (same ▸ member)]

/-- The entries of a key are those of its rows. -/
theorem find_grouped (key : κ) (rows : List (κ × ν × β)) : find key (grouped rows) =
      if key ∈ rows.map (·.1) then some (collect (rows.filter fun row => row.1 = key)) else none := by
  rw [grouped_eq, find_keyed, if_congr mem_dictionary rfl rfl]

theorem keys_grouped (rows : List (κ × ν × β)) : (grouped rows).map (·.1) = dictionary (rows.map (·.1)) := by
  rw [grouped_eq, map_map]
  exact map_id _

theorem filter_grouped (p : κ → Bool) (rows : List (κ × ν × β)) :
    ((grouped rows).filter fun entry => p entry.1) = grouped (rows.filter fun row => p row.1) := by
  have keys : (rows.filter fun row => p row.1).map (·.1) = (rows.map (·.1)).filter p := by
    rw [filter_map]
    rfl
  rw [grouped_eq, grouped_eq, keys, ← filter_dictionary, filter_map]
  refine map_congr_left fun key member => ?_
  have kept : p key = true := (mem_filter.mp member).2
  rw [filter_filter]
  congr 2
  refine filter_congr fun row _ => ?_
  by_cases here : row.1 = key
  · simp [here, kept]
  · simp [here]

end FinDashboard.Ledger
