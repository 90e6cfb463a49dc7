import FinDashboard.Runs.Guarded
import Mathlib.Data.List.Sort

/-!
# Publishing a frozen release

`FrozenDatasetReleaseBuilder.publish` freezes a release in a staging directory of its own and then
renames that directory to the final one. Any number of calls run at once over one release root. Each
step here is what one call does from one suspension point to the next.
-/

namespace FinDashboard.Releases

open Runs List

variable {Spec Content Digest Audit : Type}

/-- An artifact as the manifest lists it; `audit` stands for the findings kept beside its checksum. -/
structure ReleasedInstrument (Digest Audit : Type) where
  code : String
  artifactChecksum : Digest
  audit : Audit
  deriving DecidableEq, Repr

/-- What the checksum of a release is taken of. -/
structure Payload (Spec Digest Audit : Type) where
  spec : Spec
  publishedAt : ℤ
  instruments : List (ReleasedInstrument Digest Audit)
  deriving DecidableEq, Repr

structure ResearchDatasetRelease (Spec Digest Audit : Type) extends Payload Spec Digest Audit where
  releaseChecksum : Digest
  deriving DecidableEq, Repr

/-- The checksums of files and manifests, and the gates a frozen release has to pass. -/
structure Builder (Spec Content Digest Audit : Type) where
  sha256File : Content → Digest
  sha256Payload : Payload Spec Digest Audit → Digest
  accepts : List (ReleasedInstrument Digest Audit) → Bool

/-- A release directory; the path of an artifact is given by the code of its instrument. -/
structure Directory (Spec Content Digest Audit : Type) where
  artifacts : String → Option Content := fun _ => none
  manifest : Option (ResearchDatasetRelease Spec Digest Audit) := none

/-- `_release_checksum`; the checksum field itself is blanked. -/
def releaseChecksum (builder : Builder Spec Content Digest Audit)
    (release : ResearchDatasetRelease Spec Digest Audit) : Digest :=
  builder.sha256Payload release.toPayload

variable {release : ResearchDatasetRelease Spec Digest Audit}
variable {dir : Directory Spec Content Digest Audit}

section Verification

variable [DecidableEq Digest]

/-- `load_dataset_release` without an expected checksum. -/
def loadDatasetRelease (builder : Builder Spec Content Digest Audit)
    (dir : Directory Spec Content Digest Audit) : Option (ResearchDatasetRelease Spec Digest Audit) :=
  dir.manifest.filter fun release => release.releaseChecksum = releaseChecksum builder release

/-- The artifact of an instrument is there and has the checksum listed. -/
def ArtifactMatches (builder : Builder Spec Content Digest Audit)
    (dir : Directory Spec Content Digest Audit) (item : ReleasedInstrument Digest Audit) : Prop :=
  (dir.artifacts item.code).map builder.sha256File = some item.artifactChecksum

instance (builder : Builder Spec Content Digest Audit) (dir : Directory Spec Content Digest Audit)
    (item : ReleasedInstrument Digest Audit) : Decidable (ArtifactMatches builder dir item) :=
  inferInstanceAs (Decidable (_ = _))

def verifyDatasetRelease (builder : Builder Spec Content Digest Audit)
    (dir : Directory Spec Content Digest Audit) : Option (ResearchDatasetRelease Spec Digest Audit) :=
  (loadDatasetRelease builder dir).filter fun release =>
    ∀ item ∈ release.instruments, ArtifactMatches builder dir item

theorem verifyDatasetRelease_eq_some {builder : Builder Spec Content Digest Audit} :
    verifyDatasetRelease builder dir = some release ↔
      dir.manifest = some release ∧ release.releaseChecksum = releaseChecksum builder release ∧
        ∀ item ∈ release.instruments, ArtifactMatches builder dir item := by
  simp only [verifyDatasetRelease, loadDatasetRelease, Option.filter_eq_some_iff, decide_eq_true_eq,
    and_assoc]

end Verification

/-- One task of the freeze: it writes the artifact and then reads it back for its checksum. -/
inductive FreezeTask (Digest Audit : Type) where
  | waiting
  | written
  | frozen (item : ReleasedInstrument Digest Audit)
  | failed
  deriving DecidableEq, Repr

def FreezeTask.item? : FreezeTask Digest Audit → Option (ReleasedInstrument Digest Audit)
  | .frozen item => some item
  | _ => none

def FreezeTask.finished : FreezeTask Digest Audit → Bool
  | .frozen _ | .failed => true
  | .waiting | .written => false

/-- Where a call of `publish` is suspended. -/
inductive Phase (Spec Digest Audit : Type) where
  /-- before the calendar is loaded -/
  | entered
  /-- the final directory was there at the start -/
  | verifyingExisting
  | freezing (tasks : List (String × FreezeTask Digest Audit))
  | writingManifest (release : ResearchDatasetRelease Spec Digest Audit)
  /-- `_atomically_publish`, before the existence test -/
  | checking (release : ResearchDatasetRelease Spec Digest Audit) (attempt : ℕ)
  /-- the final directory has appeared meanwhile -/
  | verifyingWinner (release : ResearchDatasetRelease Spec Digest Audit) (attempt : ℕ)
  | moving (release : ResearchDatasetRelease Spec Digest Audit) (attempt : ℕ)
  | backingOff (release : ResearchDatasetRelease Spec Digest Audit) (attempt : ℕ)
  /-- `rmtree` of the staging directory -/
  | cleaning
  | returned (release : ResearchDatasetRelease Spec Digest Audit)
  | raised
  /-- cancelled while a thread still has the rename to do -/
  | abandoned (release : ResearchDatasetRelease Spec Digest Audit)
  deriving DecidableEq, Repr

inductive Outcome where
  | done
  | permissionError
  | failed
  | cancelled
  deriving DecidableEq, Repr

/-- What a call resumes with: the outcome of what it waited for, whether the work was carried out all
the same, and what is read from outside. -/
structure Reply (Content Audit : Type) where
  outcome : Outcome
  carriedOut : Bool := true
  /-- the freeze task that goes on -/
  task : String := ""
  content : Content
  audit : Audit
  /-- the clock -/
  now : ℤ := 0
  /-- a rename onto a directory that is there raises `PermissionError` -/
  locked : Bool := false

/-- The arguments of a call that may differ between calls of one release. -/
structure Request where
  instruments : List String
  /-- the schema is compatible with the previous release, and the kind of the release with the rest -/
  compatible : Bool := true

/-- A call and its staging directory; `mkdtemp` gives every call a name of its own. -/
structure Call (Spec Content Digest Audit : Type) where
  staging : Option (Directory Spec Content Digest Audit) := none
  phase : Phase Spec Digest Audit := .entered

namespace Call

variable (builder : Builder Spec Content Digest Audit) (spec : Spec) (request : Request)
  (reply : Reply Content Audit) (final : Option (Directory Spec Content Digest Audit))
  (call : Call Spec Content Digest Audit)

/-- An exception in the `try` of `publish`: `except Exception` removes the staging directory first, and
a cancellation is none of its exceptions. -/
def interrupted : Call Spec Content Digest Audit :=
  { call with phase := if reply.outcome = .cancelled then .raised else .cleaning }

/-- From the start to the first task of the freeze. -/
def enter : Call Spec Content Digest Audit :=
  if reply.outcome = .done ∧ request.compatible ∧ request.instruments ≠ [] ∧
      request.instruments.Nodup then
    if final.isSome then { call with phase := .verifyingExisting }
    else
      { staging := some {}
        phase := .freezing
          ((request.instruments.insertionSort (· ≤ ·)).map fun code => (code, .waiting)) }
  else { call with phase := .raised }

/-- The release found at the start is returned, if its specification is the same. -/
def verifyExisting [DecidableEq Digest] [DecidableEq Spec] : Call Spec Content Digest Audit :=
  match reply.outcome, final.bind (verifyDatasetRelease builder) with
  | .done, some existing =>
    if existing.spec = spec then { call with phase := .returned existing }
    else { call with phase := .raised }
  | _, _ => { call with phase := .raised }

def freezeOne (dir : Directory Spec Content Digest Audit) :
    FreezeTask Digest Audit → Directory Spec Content Digest Audit × FreezeTask Digest Audit
  | .waiting =>
    (if reply.outcome = .done ∨ reply.carriedOut then
        { dir with artifacts := Function.update dir.artifacts reply.task (some reply.content) }
      else dir,
      if reply.outcome = .done then .written else .failed)
  | .written =>
    match reply.outcome, dir.artifacts reply.task with
    | .done, some content => (dir, .frozen ⟨reply.task, builder.sha256File content, reply.audit⟩)
    | _, _ => (dir, .failed)
  | task => (dir, task)

def sealRelease (released : List (ReleasedInstrument Digest Audit)) :
    ResearchDatasetRelease Spec Digest Audit :=
  let payload : Payload Spec Digest Audit := ⟨spec, reply.now, released⟩
  ⟨payload, builder.sha256Payload payload⟩

/-- The gathering waits for all tasks, after a failure too. What they froze, in the order of the codes, has
to pass the gates. -/
def afterFreeze (tasks : List (String × FreezeTask Digest Audit)) : Phase Spec Digest Audit :=
  let released := tasks.filterMap fun task => task.2.item?
  if tasks.all fun task => task.2.finished then
    if (tasks.all fun task => task.2.item?.isSome) ∧ builder.accepts released then
      .writingManifest (sealRelease builder spec reply released)
    else .cleaning
  else .freezing tasks

def freeze (tasks : List (String × FreezeTask Digest Audit)) : Call Spec Content Digest Audit :=
  if reply.outcome = .cancelled then { call with phase := .raised }
  else
    match call.staging, tasks.lookup reply.task with
    | some dir, some task =>
      let next := freezeOne builder reply dir task
      { staging := some next.1
        phase := afterFreeze builder spec reply
          (tasks.map fun entry => if entry.1 = reply.task then (entry.1, next.2) else entry) }
    | _, _ => call

/-- `_write_manifest`, by way of a temporary file. -/
def writeManifest (release : ResearchDatasetRelease Spec Digest Audit) : Call Spec Content Digest Audit :=
  if reply.outcome = .done then
    { staging := call.staging.map fun dir => { dir with manifest := some release }
      phase := .checking release 0 }
  else call.interrupted reply

/-- The existence test of an attempt. -/
def check (release : ResearchDatasetRelease Spec Digest Audit) (attempt : ℕ) :
    Call Spec Content Digest Audit :=
  if reply.outcome = .done then
    if final.isSome then { call with phase := .verifyingWinner release attempt }
    else { call with phase := .moving release attempt }
  else call.interrupted reply

/-- A release another call has put there is verified; what is returned is the call's own all the same,
and its staging directory stays. -/
def verifyWinner [DecidableEq Digest] [DecidableEq Spec]
    (release : ResearchDatasetRelease Spec Digest Audit) : Call Spec Content Digest Audit :=
  match reply.outcome, final.bind (verifyDatasetRelease builder) with
  | .done, some existing =>
    if existing.spec = spec then { call with phase := .returned release }
    else { call with phase := .cleaning }
  | _, _ => call.interrupted reply

/-- A rename that failed is tried four times on a `PermissionError`, and once on any other error. -/
def refused (permission : Bool) (release : ResearchDatasetRelease Spec Digest Audit) (attempt : ℕ) :
    Call Spec Content Digest Audit :=
  if permission ∧ attempt < 3 then { call with phase := .backingOff release attempt }
  else { call with phase := .cleaning }

/-- The rename carried out by a thread whose call no longer waits for it. -/
def moved : Option (Directory Spec Content Digest Audit) × Call Spec Content Digest Audit :=
  match final with
  | none => (call.staging, { staging := none, phase := .raised })
  | some dir => (some dir, { call with phase := .raised })

/-- `staging.replace(final_dir)`: atomic, and an error when the final directory is there. -/
def rename (release : ResearchDatasetRelease Spec Digest Audit) (attempt : ℕ) :
    Option (Directory Spec Content Digest Audit) × Call Spec Content Digest Audit :=
  match reply.outcome, final with
  | .done, none => (call.staging, { staging := none, phase := .returned release })
  | .done, some dir => (some dir, call.refused reply.locked release attempt)
  | .permissionError, final => (final, call.refused true release attempt)
  | .failed, final => (final, call.refused false release attempt)
  | .cancelled, final =>
    if reply.carriedOut then call.moved final else (final, { call with phase := .abandoned release })

/-- The sleep between two attempts. -/
def backOff (release : ResearchDatasetRelease Spec Digest Audit) (attempt : ℕ) :
    Call Spec Content Digest Audit :=
  if reply.outcome = .done then { call with phase := .checking release (attempt + 1) }
  else call.interrupted reply

/-- `rmtree` ignores errors; then the exception goes on. -/
def clean : Call Spec Content Digest Audit :=
  { staging := if reply.carriedOut then none else call.staging, phase := .raised }

/-- `publish` from one suspension point to the next. -/
def resume [DecidableEq Digest] [DecidableEq Spec] :
    Option (Directory Spec Content Digest Audit) × Call Spec Content Digest Audit :=
  match call.phase with
  | .entered => (final, call.enter request reply final)
  | .verifyingExisting => (final, call.verifyExisting builder spec reply final)
  | .freezing tasks => (final, call.freeze builder spec reply tasks)
  | .writingManifest release => (final, call.writeManifest reply release)
  | .checking release attempt => (final, call.check reply final release attempt)
  | .verifyingWinner release _ => (final, call.verifyWinner builder spec reply final release)
  | .moving release attempt => call.rename reply final release attempt
  | .backingOff release attempt => (final, call.backOff reply release attempt)
  | .cleaning => (final, call.clean reply)
  | .abandoned _ =>
    if reply.carriedOut then call.moved final else (final, { call with phase := .raised })
  | .returned _ | .raised => (final, call)

end Call

section Publishing

variable {ι : Type} [DecidableEq ι] [DecidableEq Digest] [DecidableEq Spec]

/-- The release root while the calls of one release run: the final directory, and every call. -/
abbrev ReleaseRoot (ι Spec Content Digest Audit : Type) : Type :=
  Parties ι (Option (Directory Spec Content Digest Audit)) (Call Spec Content Digest Audit)

/-- One of the calls resumes. -/
def publish (builder : Builder Spec Content Digest Audit) (spec : Spec) (requests : ι → Request) :
    ReleaseRoot ι Spec Content Digest Audit → ι × Reply Content Audit →
      ReleaseRoot ι Spec Content Digest Audit :=
  turn fun i reply final call => call.resume builder spec (requests i) reply final

end Publishing

section Steps

variable [DecidableEq Digest] {builder : Builder Spec Content Digest Audit} {spec : Spec}
  {request : Request} {reply : Reply Content Audit}
  {final : Option (Directory Spec Content Digest Audit)} {call : Call Spec Content Digest Audit}

/-- The directory, if it is there, holds a manifest and every artifact the manifest lists. -/
def Complete (builder : Builder Spec Content Digest Audit)
    (final : Option (Directory Spec Content Digest Audit)) : Prop :=
  ∀ dir ∈ final, ∃ release, verifyDatasetRelease builder dir = some release

namespace Call

/-- What is in the staging directory of a call by the time the call needs it. -/
def Staged (builder : Builder Spec Content Digest Audit) (call : Call Spec Content Digest Audit) : Prop :=
  match call.phase with
  | .freezing tasks => ∃ dir, call.staging = some dir ∧
      ∀ code item, (code, FreezeTask.frozen item) ∈ tasks →
        item.code = code ∧ ArtifactMatches builder dir item
  | .writingManifest release => ∃ dir, call.staging = some dir ∧
      release.releaseChecksum = releaseChecksum builder release ∧
      ∀ item ∈ release.instruments, ArtifactMatches builder dir item
  | .checking release _ | .verifyingWinner release _ | .moving release _ | .backingOff release _
  | .abandoned release =>
    ∃ dir, call.staging = some dir ∧ verifyDatasetRelease builder dir = some release
  | _ => True

theorem staged_interrupted : (call.interrupted reply).Staged builder := by
  unfold interrupted
  split_ifs <;> trivial

theorem staged_refused (permission : Bool) (attempt : ℕ)
    (staged : ∃ dir, call.staging = some dir ∧ verifyDatasetRelease builder dir = some release) :
    (call.refused permission release attempt).Staged builder := by
  unfold refused
  split_ifs
  · exact staged
  · trivial

theorem staged_enter : (call.enter request reply final).Staged builder := by
  unfold enter
  split_ifs
  · trivial
  · refine ⟨{}, rfl, fun code item listed => ?_⟩
    obtain ⟨other, _, same⟩ := mem_map.mp listed
    cases same
  · trivial

omit [DecidableEq Digest] in
theorem artifactMatches_freezeOne
    {task : FreezeTask Digest Audit} {item : ReleasedInstrument Digest Audit}
    (others : item.code ≠ reply.task) (there : ArtifactMatches builder dir item) :
    ArtifactMatches builder (freezeOne builder reply dir task).1 item := by
  unfold freezeOne
  split
  · dsimp only
    split_ifs
    · unfold ArtifactMatches
      dsimp only
      rw [Function.update_of_ne others]
      exact there
    · exact there
  · split <;> exact there
  · exact there

omit [DecidableEq Digest] in
theorem artifactMatches_of_freezeOne
    {task : FreezeTask Digest Audit} {item : ReleasedInstrument Digest Audit}
    (before : ∀ item, task = .frozen item → item.code = reply.task ∧ ArtifactMatches builder dir item)
    (frozen : (freezeOne builder reply dir task).2 = .frozen item) :
    item.code = reply.task ∧ ArtifactMatches builder (freezeOne builder reply dir task).1 item := by
  cases task with
  | waiting =>
    simp only [freezeOne] at frozen
    split_ifs at frozen
  | written =>
    unfold freezeOne at frozen ⊢
    dsimp only at frozen ⊢
    split at frozen
    · rename_i content _ there
      cases frozen
      exact ⟨rfl, by simp [ArtifactMatches, there]⟩
    · cases frozen
  | frozen other => exact before item frozen
  | failed => cases frozen

variable {tasks : List (String × FreezeTask Digest Audit)}

/-- A gathering that ends well hands over what the tasks froze. -/
theorem staged_afterFreeze (frozen : ∀ code item, (code, FreezeTask.frozen item) ∈ tasks →
      item.code = code ∧ ArtifactMatches builder dir item) :
    Staged builder ⟨some dir, afterFreeze builder spec reply tasks⟩ := by
  unfold afterFreeze
  dsimp only
  split_ifs
  · refine ⟨dir, rfl, rfl, fun item released => ?_⟩
    obtain ⟨⟨code, task⟩, listed, handed⟩ := mem_filterMap.mp released
    cases task with
    | frozen other =>
      cases handed
      exact (frozen code item listed).2
    | waiting => cases handed
    | written => cases handed
    | failed => cases handed
  · trivial
  · exact ⟨dir, rfl, frozen⟩

theorem staged_freeze (phase : call.phase = .freezing tasks) (staged : call.Staged builder) :
    (call.freeze builder spec reply tasks).Staged builder := by
  have before := staged
  unfold Staged at before
  rw [phase] at before
  obtain ⟨dir, there, frozen⟩ := before
  unfold freeze
  split_ifs
  · trivial
  · rw [there]
    cases found : tasks.lookup reply.task with
    | none => exact staged
    | some task =>
      have listed : (reply.task, task) ∈ tasks := by
        obtain ⟨front, rear, split, _⟩ := lookup_eq_some_iff.mp found
        rw [split]
        exact mem_append_right _ mem_cons_self
      apply staged_afterFreeze
      intro code item member
      obtain ⟨⟨other, earlier⟩, was, same⟩ := mem_map.mp member
      dsimp only at same
      split_ifs at same with touched
      · obtain ⟨rfl, handed⟩ := Prod.ext_iff.mp same
        dsimp only at touched handed ⊢
        rw [touched]
        exact artifactMatches_of_freezeOne
          (fun item same => frozen _ item (same ▸ listed)) handed
      · cases same
        obtain ⟨named, matched⟩ := frozen _ item was
        exact ⟨named, artifactMatches_freezeOne (named ▸ touched) matched⟩

theorem staged_writeManifest (staged : ∃ dir, call.staging = some dir ∧
      release.releaseChecksum = releaseChecksum builder release ∧
      ∀ item ∈ release.instruments, ArtifactMatches builder dir item) :
    (call.writeManifest reply release).Staged builder := by
  obtain ⟨dir, there, checksum, matched⟩ := staged
  unfold writeManifest
  split_ifs
  · rw [there]
    exact ⟨{ dir with manifest := some release }, rfl,
      verifyDatasetRelease_eq_some.mpr ⟨rfl, checksum, matched⟩⟩
  · exact staged_interrupted

/-- The staging directory of a call that has written its manifest. -/
def Ready (builder : Builder Spec Content Digest Audit) (call : Call Spec Content Digest Audit)
    (release : ResearchDatasetRelease Spec Digest Audit) : Prop :=
  ∃ dir, call.staging = some dir ∧ verifyDatasetRelease builder dir = some release

theorem Ready.complete (ready : call.Ready builder release) : Complete builder call.staging := by
  obtain ⟨dir, there, verified⟩ := ready
  intro other member
  rw [there] at member
  cases member
  exact ⟨release, verified⟩

variable {attempt : ℕ}

theorem staged_check (ready : call.Ready builder release) :
    (call.check reply final release attempt).Staged builder := by
  unfold check
  split_ifs
  · exact ready
  · exact ready
  · exact staged_interrupted

theorem staged_backOff (ready : call.Ready builder release) :
    (call.backOff reply release attempt).Staged builder := by
  unfold backOff
  split_ifs
  · exact ready
  · exact staged_interrupted

theorem staged_moved (complete : Complete builder final) (ready : call.Ready builder release) :
    Complete builder (call.moved final).1 ∧ (call.moved final).2.Staged builder := by
  cases final with
  | none => exact ⟨ready.complete, trivial⟩
  | some dir => exact ⟨complete, trivial⟩

theorem staged_rename (complete : Complete builder final) (ready : call.Ready builder release) :
    Complete builder (call.rename reply final release attempt).1 ∧
      (call.rename reply final release attempt).2.Staged builder := by
  unfold rename
  split
  · exact ⟨ready.complete, trivial⟩
  · exact ⟨complete, staged_refused reply.locked attempt ready⟩
  · exact ⟨complete, staged_refused true attempt ready⟩
  · exact ⟨complete, staged_refused false attempt ready⟩
  · split_ifs
    · exact staged_moved complete ready
    · exact ⟨complete, ready⟩

variable [DecidableEq Spec]

theorem staged_verifyExisting : (call.verifyExisting builder spec reply final).Staged builder := by
  unfold verifyExisting
  split
  · split_ifs <;> trivial
  · trivial

theorem staged_verifyWinner : (call.verifyWinner builder spec reply final release).Staged builder := by
  unfold verifyWinner
  split
  · split_ifs <;> trivial
  · exact staged_interrupted

/-- A step keeps the final directory complete, and the staging directory as its call needs it. -/
theorem staged_resume (complete : Complete builder final) (staged : call.Staged builder) :
    Complete builder (call.resume builder spec request reply final).1 ∧
      (call.resume builder spec request reply final).2.Staged builder := by
  have before := staged
  unfold Staged at before
  unfold resume
  cases phase : call.phase with
  | entered => exact ⟨complete, staged_enter⟩
  | verifyingExisting => exact ⟨complete, staged_verifyExisting⟩
  | freezing tasks => exact ⟨complete, staged_freeze phase staged⟩
  | writingManifest release =>
    rw [phase] at before
    exact ⟨complete, staged_writeManifest before⟩
  | checking release attempt =>
    rw [phase] at before
    exact ⟨complete, staged_check before⟩
  | verifyingWinner release attempt => exact ⟨complete, staged_verifyWinner⟩
  | moving release attempt =>
    rw [phase] at before
    exact staged_rename complete before
  | backingOff release attempt =>
    rw [phase] at before
    exact ⟨complete, staged_backOff before⟩
  | cleaning => exact ⟨complete, trivial⟩
  | returned release => exact ⟨complete, staged⟩
  | raised => exact ⟨complete, staged⟩
  | abandoned release =>
    rw [phase] at before
    dsimp only
    split_ifs
    · exact staged_moved complete before
    · exact ⟨complete, trivial⟩

/-- No step replaces a final directory that is there. -/
theorem resume_persists : (call.resume builder spec request reply (some dir)).1 = some dir := by
  unfold resume
  cases call.phase with
  | moving release attempt =>
    dsimp only
    unfold rename
    cases reply.outcome with
    | cancelled =>
      dsimp only
      split_ifs <;> rfl
    | _ => rfl
  | abandoned release =>
    dsimp only
    split_ifs <;> rfl
  | _ => rfl

/-- What the call leaves behind: no staging directory before its freeze and after its end, and the final
directory with the release it returns. -/
def Settled (builder : Builder Spec Content Digest Audit)
    (final : Option (Directory Spec Content Digest Audit)) (call : Call Spec Content Digest Audit) :
    Prop :=
  match call.phase with
  | .entered | .verifyingExisting | .raised => call.staging = none
  | .returned release => call.staging = none ∧
      ∃ dir, final = some dir ∧ verifyDatasetRelease builder dir = some release
  | .abandoned _ => False
  | _ => True

/-- The call is not cancelled while it has a staging directory, unless the rename it waits for takes that
directory away all the same. The removal of the directory takes place. The call does not end with a
release that another call has put in place of its own. -/
def tidy (reply : Reply Content Audit) (final : Option (Directory Spec Content Digest Audit))
    (call : Call Spec Content Digest Audit) : Bool :=
  match call.phase with
  | .freezing _ | .writingManifest _ | .checking _ _ | .backingOff _ _ => reply.outcome ≠ .cancelled
  | .verifyingWinner _ _ => reply.outcome ≠ .cancelled ∧ reply.outcome ≠ .done
  | .moving _ _ => reply.outcome = .cancelled → reply.carriedOut ∧ final.isNone
  | .cleaning => reply.carriedOut
  | _ => true

omit [DecidableEq Spec] in
theorem settled_interrupted (going : reply.outcome ≠ .cancelled) :
    Settled builder final (call.interrupted reply) := by
  simp [Settled, interrupted, going]

omit [DecidableEq Spec] in
theorem settled_refused (permission : Bool) (release : ResearchDatasetRelease Spec Digest Audit)
    (attempt : ℕ) : Settled builder final (call.refused permission release attempt) := by
  unfold refused
  split_ifs <;> trivial

omit [DecidableEq Spec] in
theorem settled_freeze (phase : call.phase = .freezing tasks) (going : reply.outcome ≠ .cancelled) :
    Settled builder final (call.freeze builder spec reply tasks) := by
  unfold freeze
  rw [if_neg going]
  split
  · unfold afterFreeze
    dsimp only
    split_ifs <;> trivial
  · simp [Settled, phase]

theorem settled_verifyExisting (clean : call.staging = none) :
    Settled builder final (call.verifyExisting builder spec reply final) := by
  unfold verifyExisting
  split
  · rename_i existing _ verified
    split_ifs
    · exact ⟨clean, Option.bind_eq_some_iff.mp verified⟩
    · exact clean
  · exact clean

omit [DecidableEq Spec] in
theorem settled_rename (ready : call.Ready builder release)
    (going : reply.outcome = .cancelled → reply.carriedOut ∧ final.isNone) :
    Settled builder (call.rename reply final release attempt).1
      (call.rename reply final release attempt).2 := by
  unfold rename
  split
  · exact ⟨rfl, ready⟩
  · exact settled_refused reply.locked release attempt
  · exact settled_refused true release attempt
  · exact settled_refused false release attempt
  · rename_i cancelled
    obtain ⟨carried, absent⟩ := going cancelled
    rw [if_pos carried, Option.isNone_iff_eq_none.mp absent]
    rfl

/-- A step that tidies up leaves nothing behind. -/
theorem settled_resume (staged : call.Staged builder) (settled : Settled builder final call)
    (tidies : tidy reply final call = true) :
    Settled builder (call.resume builder spec request reply final).1
      (call.resume builder spec request reply final).2 := by
  have ready := staged
  have clean := settled
  unfold Staged at ready
  unfold Settled at clean
  unfold tidy at tidies
  unfold resume
  cases phase : call.phase with
  | entered =>
    rw [phase] at clean
    dsimp only [enter]
    split_ifs
    · exact clean
    · trivial
    · exact clean
  | verifyingExisting =>
    rw [phase] at clean
    exact settled_verifyExisting clean
  | freezing tasks =>
    rw [phase] at tidies
    exact settled_freeze phase (of_decide_eq_true tidies)
  | writingManifest release =>
    rw [phase] at tidies
    dsimp only [writeManifest]
    split_ifs
    · trivial
    · exact settled_interrupted (of_decide_eq_true tidies)
  | checking release attempt =>
    rw [phase] at tidies
    dsimp only [check]
    split_ifs
    · trivial
    · trivial
    · exact settled_interrupted (of_decide_eq_true tidies)
  | verifyingWinner release attempt =>
    rw [phase] at tidies
    obtain ⟨going, other⟩ := of_decide_eq_true tidies
    dsimp only [verifyWinner]
    split
    · rename_i done _
      exact absurd done other
    · exact settled_interrupted going
  | moving release attempt =>
    rw [phase] at ready tidies
    exact settled_rename ready (of_decide_eq_true tidies)
  | backingOff release attempt =>
    rw [phase] at tidies
    dsimp only [backOff]
    split_ifs
    · trivial
    · exact settled_interrupted (of_decide_eq_true tidies)
  | cleaning =>
    rw [phase] at tidies
    exact if_pos tidies
  | returned release => exact settled
  | raised => exact settled
  | abandoned release =>
    rw [phase] at clean
    exact clean.elim

omit [DecidableEq Spec] in
theorem Settled.later {later : Option (Directory Spec Content Digest Audit)}
    (settled : Settled builder final call) (persists : ∀ dir, final = some dir → later = some dir) :
    Settled builder later call := by
  unfold Settled at settled ⊢
  cases phase : call.phase with
  | returned release =>
    rw [phase] at settled
    obtain ⟨clean, dir, there, verified⟩ := settled
    exact ⟨clean, dir, persists dir there, verified⟩
  | _ =>
    rw [phase] at settled
    exact settled

end Call

end Steps

section Runs

variable {ι : Type} [DecidableEq ι] [DecidableEq Digest] [DecidableEq Spec]
  {builder : Builder Spec Content Digest Audit} {spec : Spec} {requests : ι → Request}
  {root : ReleaseRoot ι Spec Content Digest Audit} {events : List (ι × Reply Content Audit)}

/-- The call is over; a thread it left may still be at work. -/
def Phase.finished : Phase Spec Digest Audit → Bool
  | .returned _ | .raised | .abandoned _ => true
  | _ => false

def Phase.returnedChecksum? : Phase Spec Digest Audit → Option Digest
  | .returned release => some release.releaseChecksum
  | _ => none

def manifestChecksum? (dir : Option (Directory Spec Content Digest Audit)) : Option Digest :=
  (dir.bind Directory.manifest).map fun release => release.releaseChecksum

/-- All calls are about to start; a release published earlier is complete. -/
def Initial (builder : Builder Spec Content Digest Audit)
    (root : ReleaseRoot ι Spec Content Digest Audit) : Prop :=
  Complete builder root.shared ∧ ∀ i, root.own i = {}

/-- Publication is atomic and agrees with the disk in the state a run reaches. -/
structure AtomicRun (builder : Builder Spec Content Digest Audit) (spec : Spec)
    (requests : ι → Request) (root : ReleaseRoot ι Spec Content Digest Audit)
    (events : List (ι × Reply Content Audit)) : Prop where
  persists : ∀ first second, events = first ++ second →
    ∀ dir, (run (publish builder spec requests) root first).shared = some dir →
      (run (publish builder spec requests) root events).shared = some dir
  complete : Complete builder (run (publish builder spec requests) root events).shared
  agrees : ∀ i, ∀ checksum ∈
      ((run (publish builder spec requests) root events).own i).phase.returnedChecksum?,
    manifestChecksum? (run (publish builder spec requests) root events).shared = some checksum
  cleaned :
    (∀ i, ((run (publish builder spec requests) root events).own i).phase.finished = true) →
      ∀ i, ((run (publish builder spec requests) root events).own i).staging = none

/-- A final directory that is there stays as it is, whatever the calls do. -/
theorem final_persists (there : root.shared = some dir) :
    (run (publish builder spec requests) root events).shared = some dir := by
  have step : ∀ (root : ReleaseRoot ι Spec Content Digest Audit) event, root.shared = some dir →
      (publish builder spec requests root event).shared = some dir := by
    intro root event there
    simp only [publish, turn, there]
    exact Call.resume_persists
  exact @run_invariant (ReleaseRoot ι Spec Content Digest Audit) _ _
    (fun root => root.shared = some dir) _ there step events

/-- If every step tidies up, publication is atomic and agrees with the disk. -/
theorem publish_atomic (start : Initial builder root) (tidies : Guarded (publish builder spec requests)
      (TurnMeets fun _ reply final call => Call.tidy reply final call = true) root events) :
    AtomicRun builder spec requests root events := by
  have kept : EachKnows (Complete builder)
      (fun _ final call => Call.Staged builder call ∧ Call.Settled builder final call)
      (run (publish builder spec requests) root events) := by
    refine tidies.invariant ⟨start.1, fun i => by rw [start.2 i]; exact ⟨trivial, rfl⟩⟩ ?_
    intro root event knows tidy
    obtain ⟨staged, settled⟩ := knows.2 event.1
    refine knows.turn ⟨(Call.staged_resume knows.1 staged).1, (Call.staged_resume knows.1 staged).2,
      Call.settled_resume staged settled tidy⟩ ?_
    intro i call known
    refine ⟨known.1, known.2.later fun dir there => ?_⟩
    rw [there]
    exact Call.resume_persists
  constructor
  case persists =>
    intro first second split dir there
    rw [split, run_append]
    exact final_persists there
  case complete => exact kept.1
  case agrees =>
    intro i checksum member
    have settled := (kept.2 i).2
    unfold Call.Settled at settled
    cases phase : ((run (publish builder spec requests) root events).own i).phase with
    | returned release =>
      rw [phase] at member settled
      obtain ⟨_, dir, there, verified⟩ := settled
      obtain ⟨listed, _⟩ := verifyDatasetRelease_eq_some.mp verified
      cases member
      simp [manifestChecksum?, there, listed]
    | _ =>
      rw [phase] at member
      cases member
  case cleaned =>
    intro finished i
    have ended := finished i
    have settled := (kept.2 i).2
    unfold Call.Settled at settled
    cases phase : ((run (publish builder spec requests) root events).own i).phase with
    | returned release =>
      rw [phase] at settled
      exact settled.1
    | raised =>
      rw [phase] at settled
      exact settled
    | abandoned release =>
      rw [phase] at settled
      exact settled.elim
    | _ =>
      rw [phase] at ended
      cases ended

end Runs

namespace TwoCalls

/-- Checksums that keep what they are taken of. -/
def builder : Builder Unit (List ℤ) (List ℤ) Unit where
  sha256File content := content
  sha256Payload payload := payload.publishedAt :: payload.instruments.flatMap (·.artifactChecksum)
  accepts _ := true

def requests (_ : Bool) : Request := ⟨["600000"], true⟩

def root : ReleaseRoot Bool Unit (List ℤ) (List ℤ) Unit := ⟨none, fun _ => {}⟩

/-- What was waited for is done, at a time of the clock. -/
def done (now : ℤ) : Reply (List ℤ) Unit :=
  { outcome := .done, task := "600000", content := [7], audit := (), now }

/-- A call from its start to the existence test, which is still to come. -/
def frozen (call : Bool) (now : ℤ) : List (Bool × Reply (List ℤ) Unit) :=
  replicate 4 (call, done now)

/-- The second call starts when the first has renamed. -/
def afterwards : List (Bool × Reply (List ℤ) Unit) :=
  frozen false 1 ++ replicate 2 (false, done 1) ++ replicate 2 (true, done 2)

/-- The second call has frozen its release by the time the first renames. -/
def race : List (Bool × Reply (List ℤ) Unit) :=
  frozen false 1 ++ frozen true 2 ++ replicate 2 (false, done 1) ++
    replicate 2 (true, done 2)

end TwoCalls

/-- A call that starts when the release is there returns what is there. -/
theorem publish_atomic_afterwards :
    AtomicRun TwoCalls.builder () TwoCalls.requests TwoCalls.root TwoCalls.afterwards ∧
      ∀ call, ((run (publish TwoCalls.builder () TwoCalls.requests) TwoCalls.root
        TwoCalls.afterwards).own call).phase.returnedChecksum? = some [1, 7] :=
  ⟨publish_atomic ⟨nofun, fun _ => rfl⟩ (by decide), by decide⟩

/-- The call that loses the race returns the release it froze itself, and leaves its staging directory. -/
theorem publish_atomic_fails : Initial TwoCalls.builder TwoCalls.root ∧
      ¬AtomicRun TwoCalls.builder () TwoCalls.requests TwoCalls.root TwoCalls.race ∧
      ((run (publish TwoCalls.builder () TwoCalls.requests) TwoCalls.root
        TwoCalls.race).own true).staging.isSome := by
  refine ⟨⟨nofun, fun _ => rfl⟩, fun atomic => ?_, by decide⟩
  have agrees := atomic.agrees true [2, 7] (by decide)
  revert agrees
  decide

end FinDashboard.Releases
