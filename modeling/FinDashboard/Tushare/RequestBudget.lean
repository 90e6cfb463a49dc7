import FinDashboard.Runs.Guarded
import Mathlib.Algebra.Order.Ring.Int
import Mathlib.Data.List.Count

/-!
# The daily request budget

Several budget objects, of one or of several processes, share a usage file. An acquisition reads
the count of the day, and replaces the file by one that holds the next count; the lock it holds
belongs to its own object.
-/

namespace FinDashboard.Tushare.Budget

open List

open FinDashboard.Runs (run Guarded)

/-- A calendar day in Shanghai. -/
abbrev Day := ℕ

/-- What a usage file holds; a file whose writing broke off is torn. -/
inductive UsageText
  | torn
  | usage (date : Day) (requests : ℤ)
deriving DecidableEq, Repr

/-- A file that is missing, torn or of another day counts as unused. -/
def readUsage (usageFile : Option UsageText) (today : Day) : ℤ :=
  match usageFile with
  | some (.usage date requests) => if date = today then max 0 requests else 0
  | _ => 0

/-- How far the acquisition of an object has come. -/
inductive Phase
  | idle
  | dated (today : Day)
  | counted (today : Day) (used : ℤ)
  | prepared (today : Day) (used : ℤ)
deriving DecidableEq, Repr

/-- The files, the clock, the budget objects, and the day of every acquisition granted so far. -/
structure State where
  usageFile : Option UsageText
  temporary : Option UsageText
  day : Day
  objects : List Phase
  granted : List Day
deriving DecidableEq, Repr

/-- No file yet, and objects that acquire nothing. -/
def State.start (objects : ℕ) (day : Day) : State :=
  { usageFile := none
    temporary := none
    day := day
    objects := replicate objects .idle
    granted := [] }

def State.enter (st : State) (i : ℕ) (phase : Phase) : State :=
  { st with objects := st.objects.set i phase }

/-- The points an acquisition stops at, the end of a day, and the restart of a process. -/
inductive Step
  | midnight
  | start (i : ℕ)
  | read (i : ℕ) (fails : Bool)
  | writeTemporary (i : ℕ) (complete : Bool)
  | replace (i : ℕ) (denied : Bool)
  | restart (i : ℕ)
deriving DecidableEq, Repr

/-- What `_read_usage` returns; a file that cannot be read counts as unused. -/
def State.readBy (st : State) (today : Day) (fails : Bool) : ℤ :=
  if fails then 0 else readUsage st.usageFile today

def step (dailyRequestLimit : ℤ) (st : State) : Step → State
  | .midnight => { st with day := st.day + 1 }
  | .start i =>
    match st.objects[i]? with
    | some .idle => st.enter i (.dated st.day)
    | _ => st
  | .read i fails =>
    match st.objects[i]? with
    | some (.dated today) =>
      if dailyRequestLimit ≤ st.readBy today fails then st.enter i .idle
      else st.enter i (.counted today (st.readBy today fails))
    | _ => st
  | .writeTemporary i complete =>
    match st.objects[i]? with
    | some (.counted today used) =>
      if complete then
        { st.enter i (.prepared today used) with temporary := some (.usage today (used + 1)) }
      else { st.enter i .idle with temporary := some .torn }
    | _ => st
  | .replace i denied =>
    match st.objects[i]?, st.temporary with
    | some (.prepared _ _), some text =>
      if denied then st.enter i .idle
      else { st.enter i .idle with
        usageFile := some text, temporary := none, granted := st.granted ++ [st.day] }
    -- The temporary file was replaced by another object.
    | some (.prepared _ _), none => st.enter i .idle
    | _, _ => st
  | .restart i => st.enter i .idle

/-- The object is between its read of the usage file and its replacement of it. -/
def Phase.pending : Phase → Bool
  | .counted _ _ | .prepared _ _ => true
  | _ => false

/-- The day of an acquisition that reads the usage file next. -/
def State.readingDay (st : State) (i : ℕ) : Option Day :=
  match st.objects[i]? with
  | some (.dated today) => some today
  | _ => none

/-- The day of an acquisition that replaces the usage file next. -/
def State.writingDay (st : State) (i : ℕ) : Option Day :=
  match st.objects[i]? with
  | some (.prepared today _) => some today
  | _ => none

/-- A read that finds requests left meets no other pending acquisition, it fails only where the
file holds no request of its day, and an acquisition ends on the day it began. -/
def Careful (dailyRequestLimit : ℤ) (st : State) : Step → Prop
  | .read i fails =>
    ∀ today ∈ st.readingDay i, st.readBy today fails < dailyRequestLimit →
      (fails = true → readUsage st.usageFile today = 0) ∧ ∀ phase ∈ st.objects, phase.pending = false
  | .replace i denied =>
    ∀ today ∈ st.writingDay i, denied = false → today = st.day
  | _ => True

instance (dailyRequestLimit : ℤ) (st : State) : ∀ s, Decidable (Careful dailyRequestLimit st s)
  | .read i fails => inferInstanceAs (Decidable (∀ today ∈ st.readingDay i,
      st.readBy today fails < dailyRequestLimit →
        (fails = true → readUsage st.usageFile today = 0) ∧
          ∀ phase ∈ st.objects, phase.pending = false))
  | .replace i denied => inferInstanceAs (Decidable (∀ today ∈ st.writingDay i,
      denied = false → today = st.day))
  | .midnight | .start _ | .writeTemporary _ _ | .restart _ => .isTrue trivial

/-- The later file holds at least the count of the day, or the count of a later day. -/
def Keeps (before after : Option UsageText) : Prop :=
  ∀ date requests, before = some (.usage date requests) →
    ∃ date' requests', after = some (.usage date' requests') ∧
      (date < date' ∨ date = date' ∧ requests ≤ requests')

/-- At every point of the run, no day has more acquisitions than the limit, and the file keeps the
counts it held before. -/
def BudgetHolds (dailyRequestLimit : ℤ) (st : State) (steps : List Step) : Prop :=
  ∀ first second, steps = first ++ second →
    (∀ day, ((run (step dailyRequestLimit) st first).granted.count day : ℤ) ≤ dailyRequestLimit) ∧
    Keeps (run (step dailyRequestLimit) st first).usageFile
      (run (step dailyRequestLimit) st steps).usageFile

/-- The file counts the acquisitions of the day, and the one pending acquisition has read it. -/
structure Sound (dailyRequestLimit : ℤ) (st : State) : Prop where
  dated : ∀ text, st.usageFile = some text →
    ∃ date requests, text = .usage date requests ∧ date ≤ st.day ∧ 0 ≤ requests
  counts : ∀ day, st.day ≤ day → readUsage st.usageFile day = st.granted.count day
  limited : ∀ day, (st.granted.count day : ℤ) ≤ dailyRequestLimit
  alone : ∀ (i j : ℕ) (p q : Phase), st.objects[i]? = some p → st.objects[j]? = some q →
    p.pending = true → q.pending = true → i = j
  counted : ∀ (i : ℕ) today used, st.objects[i]? = some (Phase.counted today used) →
    used = readUsage st.usageFile today ∧ used < dailyRequestLimit
  prepared : ∀ (i : ℕ) today used, st.objects[i]? = some (Phase.prepared today used) →
    used = readUsage st.usageFile today ∧ used < dailyRequestLimit ∧
      st.temporary = some (.usage today (used + 1))

variable {dailyRequestLimit : ℤ} {st : State}

theorem Keeps.refl (file : Option UsageText) : Keeps file file := by
  intro date requests holds
  exact ⟨date, requests, holds, .inr ⟨rfl, le_rfl⟩⟩

theorem Keeps.trans {a b c : Option UsageText} (first : Keeps a b) (second : Keeps b c) : Keeps a c := by
  intro date requests holds
  obtain ⟨date₁, requests₁, holds₁, order₁⟩ := first date requests holds
  obtain ⟨date₂, requests₂, holds₂, order₂⟩ := second date₁ requests₁ holds₁
  refine ⟨date₂, requests₂, holds₂, ?_⟩
  rcases order₁ with later₁ | ⟨rfl, more₁⟩
  · rcases order₂ with later₂ | ⟨rfl, -⟩
    · exact .inl (later₁.trans later₂)
    · exact .inl later₁
  · rcases order₂ with later₂ | ⟨rfl, more₂⟩
    · exact .inl later₂
    · exact .inr ⟨rfl, more₁.trans more₂⟩

theorem readUsage_nonneg (file : Option UsageText) (today : Day) : 0 ≤ readUsage file today := by
  unfold readUsage
  split
  · split <;> simp
  · simp

theorem sound_start (positive : 1 ≤ dailyRequestLimit) (objects : ℕ) (day : Day) :
    Sound dailyRequestLimit (State.start objects day) := by
  have idle : ∀ (i : ℕ) (phase : Phase), (State.start objects day).objects[i]? = some phase → phase = .idle := by
    intro i phase entry
    exact eq_of_mem_replicate (mem_of_getElem? entry)
  constructor
  · nofun
  · intro d _
    rfl
  · intro d
    simp only [State.start, count_nil]
    omega
  · intro i j p q entry _ pending _
    rw [idle i p entry] at pending
    cases pending
  · intro i today used entry
    cases idle i _ entry
  · intro i today used entry
    cases idle i _ entry

theorem entry_of_enter {i j : ℕ} {phase p : Phase} (entry : (st.enter i phase).objects[j]? = some p) :
    i = j ∧ p = phase ∨ i ≠ j ∧ st.objects[j]? = some p := by
  simp only [State.enter, getElem?_set] at entry
  by_cases same : i = j
  · rw [if_pos same] at entry
    split at entry
    · exact .inl ⟨same, (Option.some.inj entry).symm⟩
    · cases entry
  · rw [if_neg same] at entry
    exact .inr ⟨same, entry⟩

namespace Sound

/-- An object may stop acquiring, or begin, at any time. -/
theorem enter (h : Sound dailyRequestLimit st) (i : ℕ) {phase : Phase}
    (quiet : phase.pending = false) : Sound dailyRequestLimit (st.enter i phase) := by
  constructor
  · exact h.dated
  · exact h.counts
  · exact h.limited
  · intro j k p q first second hp hq
    rcases entry_of_enter first with ⟨-, rfl⟩ | ⟨-, first⟩
    · simp [quiet] at hp
    · rcases entry_of_enter second with ⟨-, rfl⟩ | ⟨-, second⟩
      · simp [quiet] at hq
      · exact h.alone j k p q first second hp hq
  · intro j today used entry
    rcases entry_of_enter entry with ⟨-, rfl⟩ | ⟨-, entry⟩
    · cases quiet
    · exact h.counted j today used entry
  · intro j today used entry
    rcases entry_of_enter entry with ⟨-, rfl⟩ | ⟨-, entry⟩
    · cases quiet
    · exact h.prepared j today used entry

theorem others (h : Sound dailyRequestLimit st) {i : ℕ} {phase : Phase}
    (entry : st.objects[i]? = some phase) (pending : phase.pending = true) (j : ℕ) (p : Phase)
    (other : i ≠ j) (entry' : st.objects[j]? = some p) : p.pending = false := by
  cases pending' : p.pending with
  | false => rfl
  | true => exact absurd (h.alone i j phase p entry entry' pending pending') other

theorem of_others {st' : State} (i : ℕ) (phase : Phase)
    (others : ∀ (j : ℕ) (p : Phase), i ≠ j → st.objects[j]? = some p → p.pending = false)
    (objects : st'.objects = (st.enter i phase).objects) (dated : ∀ text, st'.usageFile = some text →
      ∃ date requests, text = .usage date requests ∧ date ≤ st'.day ∧ 0 ≤ requests)
    (counts : ∀ day, st'.day ≤ day → readUsage st'.usageFile day = st'.granted.count day)
    (limited : ∀ day, (st'.granted.count day : ℤ) ≤ dailyRequestLimit)
    (counted : ∀ today used, phase = .counted today used →
      used = readUsage st'.usageFile today ∧ used < dailyRequestLimit)
    (prepared : ∀ today used, phase = .prepared today used →
      used = readUsage st'.usageFile today ∧ used < dailyRequestLimit ∧
        st'.temporary = some (.usage today (used + 1))) : Sound dailyRequestLimit st' := by
  constructor
  · exact dated
  · exact counts
  · exact limited
  · intro j k p q first second hp hq
    rw [objects] at first second
    rcases entry_of_enter first with ⟨same, -⟩ | ⟨other, first⟩
    · rcases entry_of_enter second with ⟨same', -⟩ | ⟨other, second⟩
      · rw [← same, ← same']
      · simp [others k q other second] at hq
    · simp [others j p other first] at hp
  · intro j today used entry
    rw [objects] at entry
    rcases entry_of_enter entry with ⟨-, same⟩ | ⟨other, entry⟩
    · exact counted today used same.symm
    · cases others j _ other entry
  · intro j today used entry
    rw [objects] at entry
    rcases entry_of_enter entry with ⟨-, same⟩ | ⟨other, entry⟩
    · exact prepared today used same.symm
    · cases others j _ other entry

theorem unused (h : Sound dailyRequestLimit st) {day : Day} (later : st.day < day) :
    readUsage st.usageFile day = 0 := by
  cases file : st.usageFile with
  | none => rfl
  | some text =>
    obtain ⟨date, requests, same, past, -⟩ := h.dated text file
    have other := ne_of_lt (lt_of_le_of_lt past later)
    rw [same]
    simp [readUsage, other]

theorem midnight (h : Sound dailyRequestLimit st) :
    Sound dailyRequestLimit { st with day := st.day + 1 } := by
  constructor
  · intro text holds
    obtain ⟨date, requests, same, past, nonneg⟩ := h.dated text holds
    exact ⟨date, requests, same, Nat.le_succ_of_le past, nonneg⟩
  · intro day later
    exact h.counts day (Nat.le_of_succ_le later)
  · exact h.limited
  · exact h.alone
  · exact h.counted
  · exact h.prepared

theorem read (h : Sound dailyRequestLimit st) {i : ℕ} {fails : Bool}
    (careful : Careful dailyRequestLimit st (.read i fails)) :
    Sound dailyRequestLimit (step dailyRequestLimit st (.read i fails)) := by
  simp only [step]
  split
  · rename_i today entry
    split
    · exact h.enter i rfl
    · rename_i left
      obtain ⟨readable, quiet⟩ := careful today (by simp [State.readingDay, entry]) (lt_of_not_ge left)
      have read : st.readBy today fails = readUsage st.usageFile today := by
        cases fails with
        | false => rfl
        | true => exact (readable rfl).symm
      have others : ∀ (j : ℕ) (p : Phase), i ≠ j → st.objects[j]? = some p → p.pending = false :=
        fun j p _ entry' => quiet p (mem_of_getElem? entry')
      apply of_others i (.counted today (st.readBy today fails)) others
      · rfl
      · exact h.dated
      · exact h.counts
      · exact h.limited
      · intro today' used same
        cases same
        exact ⟨read, lt_of_not_ge left⟩
      · nofun
  · exact h

theorem writeTemporary (h : Sound dailyRequestLimit st) (i : ℕ) (complete : Bool) :
    Sound dailyRequestLimit (step dailyRequestLimit st (.writeTemporary i complete)) := by
  simp only [step]
  split
  · rename_i today used entry
    have others := h.others entry rfl
    obtain ⟨read, left⟩ := h.counted i today used entry
    split
    · apply of_others i (.prepared today used) others
      · rfl
      · exact h.dated
      · exact h.counts
      · exact h.limited
      · nofun
      · intro today' used' same
        cases same
        exact ⟨read, left, rfl⟩
    · exact of_others i .idle others rfl h.dated h.counts h.limited nofun nofun
  · exact h

theorem replace (h : Sound dailyRequestLimit st) {i : ℕ} {denied : Bool}
    (careful : Careful dailyRequestLimit st (.replace i denied)) :
    Sound dailyRequestLimit (step dailyRequestLimit st (.replace i denied)) := by
  simp only [step]
  split
  · rename_i today used text entry temporary
    split
    · exact h.enter i rfl
    · rename_i permitted
      have writing : st.writingDay i = some today := by simp [State.writingDay, entry]
      have sameDay := careful today writing (by simpa using permitted)
      obtain ⟨read, left, written⟩ := h.prepared i today used entry
      rw [temporary] at written
      cases written
      subst sameDay
      have nonneg := read ▸ readUsage_nonneg _ _
      have usedToday := read.trans (h.counts st.day le_rfl)
      apply of_others i .idle (h.others entry rfl)
      · rfl
      · intro text holds
        cases holds
        exact ⟨st.day, used + 1, rfl, le_rfl, by omega⟩
      · intro day later
        change readUsage (some (.usage st.day (used + 1))) day =
          ((st.granted ++ [st.day]).count day : ℕ)
        change st.day ≤ day at later
        have before := h.counts day later
        rw [count_append]
        rcases eq_or_lt_of_le later with same | later
        · subst same
          simp only [readUsage, if_true, count_singleton_self]
          omega
        · have other := ne_of_lt later
          have none := h.unused later
          simp only [readUsage, if_neg other, count_singleton, beq_iff_eq]
          omega
      · intro day
        have before := h.limited day
        change (((st.granted ++ [st.day]).count day : ℕ) : ℤ) ≤ dailyRequestLimit
        simp only [count_append, count_singleton, beq_iff_eq]
        split
        · rename_i same
          subst same
          push_cast
          omega
        · push_cast
          omega
      · nofun
      · nofun
  · exact h.enter i rfl
  · exact h

theorem step (h : Sound dailyRequestLimit st) {s : Step} (careful : Careful dailyRequestLimit st s) :
    Sound dailyRequestLimit (Budget.step dailyRequestLimit st s) := by
  cases s with
  | midnight => exact h.midnight
  | start i =>
    simp only [Budget.step]
    split
    · exact h.enter i rfl
    · exact h
  | read i fails => exact h.read careful
  | writeTemporary i complete => exact h.writeTemporary i complete
  | replace i denied => exact h.replace careful
  | restart i => exact h.enter i rfl

/-- The file changes with a replacement only, and then to the next count of the day. -/
theorem keeps (h : Sound dailyRequestLimit st) {s : Step} (careful : Careful dailyRequestLimit st s) :
    Keeps st.usageFile (Budget.step dailyRequestLimit st s).usageFile := by
  cases s with
  | midnight | restart => exact Keeps.refl _
  | start | read | writeTemporary =>
    simp only [Budget.step]
    repeat' split
    all_goals exact Keeps.refl _
  | replace i denied =>
    simp only [Budget.step]
    split
    · rename_i today used text entry temporary
      split
      · exact Keeps.refl _
      · rename_i permitted
        have writing : st.writingDay i = some today := by simp [State.writingDay, entry]
        have sameDay := careful today writing (by simpa using permitted)
        obtain ⟨read, -, written⟩ := h.prepared i today used entry
        rw [temporary] at written
        cases written
        intro date requests holds
        obtain ⟨date', requests', same, past, -⟩ := h.dated _ holds
        cases same
        refine ⟨today, used + 1, rfl, ?_⟩
        rcases eq_or_lt_of_le past with now | earlier
        · refine .inr ⟨now.trans sameDay.symm, ?_⟩
          have counted : readUsage st.usageFile today = max 0 requests := by
            rw [holds, sameDay, ← now]
            simp [readUsage]
          omega
        · exact .inl (sameDay ▸ earlier)
    · exact Keeps.refl _
    · exact Keeps.refl _

end Sound

end FinDashboard.Tushare.Budget
