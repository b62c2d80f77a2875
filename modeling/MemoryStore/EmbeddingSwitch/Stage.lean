/-
The attempt record of an embedding migration and the stage it is at
(`grpc-admin/src/db_migrate/embedding/attempt.rs`, `stage.rs`).

The stage in effect is derived from the record and the markers of the tables
together, so that an interruption between updating the two still yields one.
-/
import MemoryStore.EmbeddingSpace.Startup

namespace MemoryStore.EmbeddingSwitch

open EmbeddingSpace (MarkerState MigrationMarker)

inductive Method where
  | backup | noBackup
  deriving DecidableEq, Repr

/-- The value of `backup_mode=`. -/
def Method.asStr : Method → String
  | .backup => "backup"
  | .noBackup => "none"

inductive Stage where
  | backup | replace | rebuildPending | commit
  deriving DecidableEq, Repr

inductive Status where
  | running
  | completed
  /-- Ended before any data changed, or discarded. -/
  | abandoned
  | restored
  deriving DecidableEq, Repr

inductive CancelOperation where
  | restore | discard
  deriving DecidableEq, Repr

structure AttemptRecord where
  attemptId : String
  method : Method
  backupPath : Option String
  backupComplete : Bool
  stage : Stage
  status : Status
  cancelOperation : Option CancelOperation
  /-- The vector tables were discarded. -/
  discarded : Bool
  deriving DecidableEq, Repr

structure AttemptInfo where
  attempt : String
  stage : String
  backupMode : String
  deriving DecidableEq, Repr

def AttemptRecord.info (a : AttemptRecord) (stage : String) : AttemptInfo := ⟨a.attemptId, stage, a.method.asStr⟩

/-! ## The stage in effect -/

inductive EffectiveStage where
  | backup | replace | rebuildPending | commit | restoring | discarding
  deriving DecidableEq, Repr

def EffectiveStage.asStr : EffectiveStage → String
  | .backup => "backup"
  | .replace => "replace"
  | .rebuildPending => "rebuild_pending"
  | .commit => "commit"
  | .restoring => "restoring"
  | .discarding => "discarding"

/-- The states of the markers that are of this attempt, one entry per table. -/
def AttemptRecord.mine (record : AttemptRecord) (markers : List (Option MigrationMarker)) :
    List (Option MarkerState) :=
  markers.map fun m => (m.filter fun m => m.attemptId = record.attemptId).map MigrationMarker.state

/-- `effective_stage`: none for a finished attempt. -/
def effectiveStage (record : AttemptRecord) (markers : List (Option MigrationMarker)) : Option EffectiveStage :=
  let mine := record.mine markers
  let any := fun s : MarkerState => decide (some s ∈ mine)
  if record.status ≠ .running ∧ mine.any Option.isSome = false then none
  else if record.cancelOperation = some .restore ∨ any .restoring = true ∨ record.status = .restored then
    some .restoring
  else if record.cancelOperation = some .discard ∨ any .discarding = true ∨
      (record.status = .abandoned ∧ record.discarded = true) then some .discarding
  else if any .committing = true ∨ record.stage = .commit ∨ record.status = .completed then some .commit
  else if mine ≠ [] ∧ ∀ m ∈ mine, m = some .pending then some .rebuildPending
  else if any .pending = true ∨ record.stage = .replace then some .replace
  else some .backup

/-- An attempt is finished when its status says so and no marker of it is left. -/
theorem effectiveStage_eq_none_iff {record : AttemptRecord} {markers : List (Option MigrationMarker)} :
    effectiveStage record markers = none ↔ record.status ≠ .running ∧
      ∀ marker, some marker ∈ markers → marker.attemptId ≠ record.attemptId := by
  have hmine : (record.mine markers).any Option.isSome = false ↔
      ∀ marker, some marker ∈ markers → marker.attemptId ≠ record.attemptId := by
    unfold AttemptRecord.mine
    rw [List.any_map, List.any_eq_false]
    constructor
    · intro h marker hm he
      exact h _ hm (by simp [he])
    · intro h m hm
      cases m with
      | none => simp
      | some marker => simp [h marker hm]
  rw [← hmine]
  unfold effectiveStage
  dsimp only
  split
  · next h => exact iff_of_true rfl h
  · next h =>
    refine iff_of_false ?_ h
    repeat' split
    all_goals exact Option.some_ne_none _

/-! ## The responses of each stage -/

inductive Operation where
  | switchNew | switchResume | abandon | finalize | restore
  /-- Work of `local apply` and `release`, and restores of `local restore`. -/
  | applyOrRestore
  deriving DecidableEq, Repr

inductive AlreadyDone where
  | switched | completed | restored | abandoned
  deriving DecidableEq, Repr

/-- The error codes of the table. -/
inductive ErrorCode where
  | embeddingSwitchInProgress | finalizeInProgress | cancelInProgress | abandonNotAllowed | restoreNotAvailable
  | rebuildNotPending
  deriving DecidableEq, Repr

/-- The resolutions of the table. -/
inductive Resolution where
  | manualRecovery | resumeOrAbandon | abandonRequired | resumeOrRestore | continueOrRestore | continueOrAbandon
  | finalizeRequired | restoreRequired
  deriving DecidableEq, Repr

structure Refusal where
  errorCode : Option ErrorCode
  resolution : Resolution
  withAttempt : Bool
  withBackup : Bool
  cancelOperation : Option String
  deriving DecidableEq, Repr

inductive Response where
  | go
  | succeed (done : AlreadyDone)
  | refuse (refusal : Refusal)
  deriving DecidableEq, Repr

def refuse (errorCode : Option ErrorCode) (resolution : Resolution) (attempt backup : Bool) : Response :=
  .refuse ⟨errorCode, resolution, attempt, backup, none⟩

def cancel (resolution : Resolution) (backup : Bool) (operation : String) : Response :=
  .refuse ⟨some .cancelInProgress, resolution, true, backup, some operation⟩

/-- `stage_response`. -/
def stageResponse (method : Method) (stage : EffectiveStage) (op : Operation) : Response :=
  let b := method = .backup
  let inProgress := some ErrorCode.embeddingSwitchInProgress
  match stage, op with
  | .backup, .switchNew => refuse inProgress .resumeOrAbandon true false
  | .backup, .switchResume | .backup, .abandon => .go
  | .backup, .finalize => refuse (some .rebuildNotPending) .resumeOrAbandon true false
  | .backup, .restore => refuse (some .restoreNotAvailable) .abandonRequired true false
  | .backup, .applyOrRestore => refuse none .abandonRequired true false
  | .replace, .switchNew =>
    if b then refuse inProgress .resumeOrRestore true true else refuse inProgress .resumeOrAbandon true false
  | .replace, .switchResume => .go
  | .replace, .abandon => if b then refuse (some .abandonNotAllowed) .resumeOrRestore true true else .go
  | .replace, .finalize =>
    if b then refuse (some .rebuildNotPending) .resumeOrRestore true true
    else refuse (some .rebuildNotPending) .resumeOrAbandon true false
  | .replace, .restore => if b then .go else refuse (some .restoreNotAvailable) .resumeOrAbandon true false
  | .replace, .applyOrRestore =>
    if b then refuse none .restoreRequired true true else refuse none .abandonRequired true false
  | .rebuildPending, .switchNew =>
    if b then refuse inProgress .continueOrRestore true true else refuse inProgress .continueOrAbandon true false
  | .rebuildPending, .switchResume => .succeed .switched
  | .rebuildPending, .abandon => if b then refuse (some .abandonNotAllowed) .continueOrRestore true true else .go
  | .rebuildPending, .finalize => .go
  | .rebuildPending, .restore => if b then .go else refuse (some .restoreNotAvailable) .continueOrAbandon true false
  | .rebuildPending, .applyOrRestore =>
    if b then refuse none .continueOrRestore true true else refuse none .continueOrAbandon true false
  | .commit, .switchNew => refuse inProgress .finalizeRequired true false
  | .commit, .switchResume => refuse (some .finalizeInProgress) .finalizeRequired true false
  | .commit, .abandon => refuse (some .abandonNotAllowed) .finalizeRequired true false
  | .commit, .finalize => .go
  | .commit, .restore => if b then .go else refuse (some .restoreNotAvailable) .finalizeRequired true false
  | .commit, .applyOrRestore => refuse none .finalizeRequired true false
  | .restoring, .restore => .go
  | .restoring, .applyOrRestore =>
    if b then refuse none .restoreRequired true true else refuse none .manualRecovery true false
  | .restoring, _ => if b then cancel .restoreRequired true "restore" else cancel .manualRecovery false "restore"
  | .discarding, .abandon => .go
  | .discarding, .applyOrRestore => refuse none .abandonRequired true false
  | .discarding, _ => cancel .abandonRequired false "abandon"

/-- At every stage, work of the other commands is refused, with the attempt named
and no error code of its own. -/
theorem stageResponse_applyOrRestore (method : Method) (stage : EffectiveStage) :
    ∃ refusal, stageResponse method stage .applyOrRestore = .refuse refusal ∧ refusal.errorCode = none ∧
      refusal.withAttempt = true := by
  cases stage <;> cases method <;> exact ⟨_, rfl, rfl, rfl⟩

end MemoryStore.EmbeddingSwitch
