/-
`memory_kind` and the other checks on a request (`app/src/app/memory_kind.rs`,
`validate_metadata` and `validate_labels` of `app/src/app/thread.rs`).

What a deployment fixes once is a parameter: whether an unspecified kind is
still accepted, and the JSON parser behind the metadata check.
-/
import MemoryStore.Conversation.MediaObject
import MemoryStore.Conversation.Repository
import MemoryStore.Lib.Utf8

namespace MemoryStore.Conversation

/-- The settings and libraries of a deployment. -/
class Deployment where
  /-- `MEMORY_KIND_UNSPECIFIED_CREATE_COMPAT`. -/
  compatEnabled : Bool
  /-- Whether `serde_json` parses the text. -/
  isJson : String → Bool

/-- `MEMORY_KIND_RAW`. -/
def kindRaw : Int := 1

/-- `validate_explicit_kind`: `1..=8`. -/
def validateExplicitKind (kind : Int) : StoreTx Unit :=
  Tx.ensure (1 ≤ kind && kind ≤ 8) (.invalidArgument s!"memory_kind must be one of 1..=8, got {kind}")

/-- `resolve_created_kind`. -/
def resolveCreatedKind [Deployment] (kind : Int) (operation : String) : StoreTx Int :=
  if kind ≠ 0 then do
    validateExplicitKind kind
    pure kind
  else do
    Tx.ensure Deployment.compatEnabled (.invalidArgument s!"memory_kind is required for {operation}")
    pure kindRaw

/-- `normalize_memory_for_create`. -/
def normalizeMemoryForCreate [Deployment] (memory : MemoryData) (operation : String) : StoreTx MemoryData := do
  let memoryKind ← resolveCreatedKind memory.memoryKind operation
  pure { memory with memoryKind }

/-- `normalize_thread_for_create`. -/
def normalizeThreadForCreate [Deployment] (thread : ThreadData) (operation : String) : StoreTx ThreadData := do
  let memoryKind ← resolveCreatedKind thread.memoryKind operation
  pure { thread with memoryKind }

/-- `effective_kind`: an unspecified kind of an old row means raw. -/
def effectiveKind (kind : Int) : Int := if kind = 0 then kindRaw else kind

/-- `resolve_preserved_kind`: the kind is immutable once the row is there. -/
def resolvePreservedKind (requestedKind storedKind : Int) (operation : String) : StoreTx Int := do
  let stored := effectiveKind storedKind
  if requestedKind ≠ 0 then do
    validateExplicitKind requestedKind
    Tx.ensure (requestedKind = stored)
      (.invalidArgument s!"memory_kind is immutable for {operation}: stored={stored}, requested={requestedKind}")
    pure stored
  else pure stored

/-- `preserve_memory_kind_for_update`. -/
def preserveMemoryKindForUpdate (memory : MemoryData) (storedKind : Int) (operation : String) :
    StoreTx MemoryData := do
  let memoryKind ← resolvePreservedKind memory.memoryKind storedKind operation
  pure { memory with memoryKind }

/-- `preserve_thread_kind_for_update`. -/
def preserveThreadKindForUpdate (thread : ThreadData) (storedKind : Int) (operation : String) :
    StoreTx ThreadData := do
  let memoryKind ← resolvePreservedKind thread.memoryKind storedKind operation
  pure { thread with memoryKind }

/-- `validate_memory_kind_matches_thread`. -/
def validateMemoryKindMatchesThread (threadKind : Int) (memory : MemoryData) : StoreTx Unit :=
  let expected := effectiveKind threadKind
  let actual := effectiveKind memory.memoryKind
  Tx.ensure (actual = expected)
    (.invalidArgument s!"memory_kind {actual} does not match thread memory_kind {expected}")

/-- `validate_metadata`. -/
def validateMetadata [Deployment] : Option String → StoreTx Unit
  | none => pure ()
  | some raw => do
    Tx.ensure (!raw.isEmpty) (.invalidArgument "thread.metadata must be a JSON document, not an empty string")
    Tx.ensure (Deployment.isJson raw) (.invalidArgument "thread.metadata is not valid JSON")

/-- `validate_labels`: trimmed, each once. -/
def validateLabels (labels : List String) : StoreTx (List String) := do
  let trimmed ← Tx.collect labels fun label => do
    let label := Whitespace.trim label
    Tx.ensure (!label.isEmpty) (.bail "Label must not be empty")
    Tx.ensure (label.utf8ByteSize ≤ 512) (.bail "Label must not exceed 512 characters")
    pure label
  pure (trimmed.foldl (fun seen label => if label ∈ seen then seen else seen ++ [label]) [])

end MemoryStore.Conversation

/-!
The transactions of `MemoryApp` (`app/src/app/memory.rs`), with the media
subsystem wired.

A transaction answers what its caller needs after the commit: the media rows it
has claimed for deletion, and the rows whose cache entries it has to drop. The
embedding jobs it dispatches and the vector rows it clears are left out, and so
are ratings and the links of memories to thread groups. What the thread group
tables answer during a call is an input of the call.
-/

namespace MemoryStore.Conversation

/-- A media row a transaction has claimed for deletion, as it read it back. -/
abbrev DeleteJob := Nat × MediaObjectRow

/-- What the thread group tables answer while a call runs. -/
structure GroupAnswers where
  /-- The error of `validate_legacy_summary_target_tx`, if it refuses. -/
  legacySummaryTarget : Option String → Int → Option String
  /-- The errors of the checks around the insert of a memory with a group relation. -/
  beforeGroupRelation : Option String
  afterGroupRelation : Option String

/-- No memory is linked to a thread group. -/
def GroupAnswers.none : GroupAnswers := ⟨fun _ _ => Option.none, Option.none, Option.none⟩

/-- `bail!` with the error of a check, if it refuses. -/
def bailIf (refusal : Option String) : StoreTx Unit :=
  match refusal with
  | none => pure ()
  | some message => Tx.fail (.bail message)

/-- `validate_legacy_summary_target_tx`. -/
def validateLegacySummaryTarget (groups : GroupAnswers) (memory : MemoryData) : StoreTx Unit :=
  bailIf (groups.legacySummaryTarget memory.externalId memory.memoryKind)

/-- `create_memory`. -/
def createMemory [Deployment] (now : Int) (groups : GroupAnswers) (memory : MemoryData) : StoreTx Nat := do
  let memory ← normalizeMemoryForCreate memory "MemoryService.Create"
  validateLegacySummaryTarget groups memory
  linkMedia now memory.mediaObjectId
  insertMemory now memory

/-! ## Update -/

/-- `UpdateOutcome`, and the media to finish deleting after the commit. -/
structure UpdateOutcome where
  updated : Bool
  postDelete : List DeleteJob
  deriving DecidableEq, Repr

/-- `UpdateOutcome::default()`. -/
def UpdateOutcome.default : UpdateOutcome := ⟨false, []⟩

/-- The diff of the reference counts: none to some, some to none, swap, unchanged. -/
def updateMediaRefs (now : Int) : Option Nat → Option Nat → StoreTx (List DeleteJob)
  | none, none => pure []
  | none, some b => do
    let s ← Tx.get
    Tx.ensure (s.findMedia b).isSome (.invalidArgument s!"media_object not found: {b}")
    let hit ← incrRef now b
    Tx.ensure hit (.invalidArgument s!"media_object {b} not found or being deleted")
    pure []
  | some a, none => do
    let job ← decrAndMaybeClaim now a
    pure job.toList
  | some a, some b =>
    if a = b then pure []
    else do
      let job ← decrAndMaybeClaim now a
      let hit ← incrRef now b
      Tx.ensure hit (.invalidArgument s!"media_object {b} not found or being deleted")
      pure job.toList

/-- `update_memory`. -/
def updateMemory (now : Int) (groups : GroupAnswers) (id : Nat) : Option MemoryData → StoreTx UpdateOutcome
  | none => pure .default
  | some requested => do
    let s ← Tx.get
    match s.findMemory id with
    | none => pure .default
    | some ⟨_, stored⟩ => do
      let requestedUserId := requested.userId.getD 0
      let storedUserId := stored.userId.getD 0
      Tx.ensure (requestedUserId = storedUserId)
        (.invalidArgument (s!"cannot change memory user_id from {storedUserId} to {requestedUserId}: " ++
          "memory user_id is immutable once created"))
      let w ← preserveMemoryKindForUpdate requested stored.memoryKind "MemoryService.UpdateMemory"
      validateLegacySummaryTarget groups w
      let postDelete ← updateMediaRefs now stored.mediaObjectId w.mediaObjectId
      let updated ← updateMemoryRow now id w
      Tx.ensure updated .uncommitted
      pure ⟨true, postDelete⟩

/-- `update_content_no_dispatch`. -/
def updateContentNoDispatch (now : Int) (id : Nat) (content : String) : StoreTx Bool :=
  updateContentOnly now id content

/-- `CaptionWriteBack`. -/
inductive CaptionWriteBack where
  | applied | memoryNotFound | mediaChanged | bodyPresent | emptyCaption
  deriving DecidableEq, Repr

/-- `trim().is_empty()`. -/
def blank (text : String) : Bool := text.toList.all Whitespace.isWhiteSpace

/-- `write_back_caption`. -/
def writeBackCaption (now : Int) (id mediaObjectId : Nat) (caption : String) : StoreTx CaptionWriteBack := do
  if blank caption then pure .emptyCaption
  else do
    let s ← Tx.get
    match s.findMemory id with
    | none => pure .memoryNotFound
    | some row =>
      if row.data.mediaObjectId ≠ some mediaObjectId then pure .mediaChanged
      else if !blank row.data.content then pure .bodyPresent
      else do
        let _ ← updateContentOnly now id caption
        pure .applied

/-! ## Deletion -/

/-- `MemoryDeletion`. -/
structure MemoryDeletion where
  deleted : Bool
  affectedThreadIds : List Nat
  postDelete : Option DeleteJob
  deriving DecidableEq, Repr

/-- The threads a deletion of the memory touches: those it is attached to, and
those it is the default system memory of. -/
def Store.affectedThreadIds (s : Store) (memoryId : Nat) : List Nat :=
  ((s.threadIdsByDefaultSystemMemory memoryId ++ s.threadIdsByMemory memoryId).insertionSort (· ≤ ·)).dedup

/-- `delete_memory_rdb_tx`. -/
def deleteMemoryRdb (now : Int) (id : Nat) : StoreTx MemoryDeletion := do
  let s ← Tx.get
  match s.findMemory id with
  | none => pure ⟨false, [], none⟩
  | some memory => do
    let affected := s.affectedThreadIds id
    clearDefaultSystemMemory id
    deleteAttachmentsByMemory id
    refreshMessageBoundsForThreadIds now affected
    let postDelete ← unlinkMedia now memory.data.mediaObjectId
    let deleted ← deleteMemoryRow id
    pure ⟨deleted, affected, postDelete⟩

/-- The deletions of memories a group purge (`lifecycle.rs`, `delete`) and the
orphan cleanup (`orphan_cleanup.rs`, `execute`) run in one transaction: each of
the memories they have validated, and all or none. -/
def deleteLinkedMemories (now : Int) (memoryIds : List Nat) : StoreTx (List (Nat × MemoryDeletion)) :=
  Tx.collect memoryIds fun id => do
    let effects ← deleteMemoryRdb now id
    Tx.ensure effects.deleted (.bail s!"memory {id} disappeared")
    pure (id, effects)

end MemoryStore.Conversation
