/-
The transactions of `ThreadApp` (`app/src/app/thread.rs`), but for the batch.

Canonical keys, markers, collections and relations of the thread groups, which
the same transactions write, are another subsystem and are left out; vectors
and embedding jobs are left out as in `Memory`.
-/
import MemoryStore.Conversation.Memory

namespace MemoryStore.Conversation

/-- `validate_default_system_memory_id_tx`: `Some(0)` means none. -/
def validateDefaultSystemMemoryId (defaultId : Option Nat) (threadKind : Int) : StoreTx (Option Nat) :=
  match defaultId with
  | none | some 0 => pure none
  | some id => do
    let s ← Tx.get
    match s.findMemory id with
    | none =>
      Tx.fail (.notFound s!"default_system_memory_id refers to a memory that does not exist: id={id}")
    | some memory => do
      Tx.ensure (memory.data.role = roleSystem)
        (.invalidArgument (s!"default_system_memory_id={id}: target memory must be ROLE_SYSTEM (role=3), " ++
          s!"got role={memory.data.role}"))
      validateMemoryKindMatchesThread threadKind memory.data
      pure (some id)

/-- Anchor the default system memory in the junction; the answer is whether the bounds moved. -/
def anchorDefault (now : Int) (threadId : Nat) (defaultId : Option Nat) : StoreTx Bool :=
  match defaultId with
  | none => pure false
  | some defaultId => do
    insertOrIgnoreAutoPosition now threadId defaultId
    refreshMessageBounds now threadId

/-- `create_thread`. -/
def createThread [Deployment] (now : Int) (thread : ThreadData) : StoreTx Nat := do
  let thread ← normalizeThreadForCreate thread "ThreadService.Create"
  validateMetadata thread.metadata
  let defaultSystemMemoryId ← validateDefaultSystemMemoryId thread.defaultSystemMemoryId thread.memoryKind
  let id ← insertThread now { thread with defaultSystemMemoryId }
  let _ ← anchorDefault now id defaultSystemMemoryId
  let labels ← validateLabels thread.labels
  Tx.forEach labels fun label => addLabel now id label
  pure id

/-- `update_thread` found nothing to change, and so leaves the cache alone. -/
structure ThreadUpdate where
  updated : Bool
  changed : Bool
  deriving DecidableEq, Repr

/-- `thread_changed`. -/
def ThreadRow.differs (existing : ThreadRow) (w : ThreadData) : Bool :=
  existing.defaultSystemMemoryId ≠ w.defaultSystemMemoryId || existing.description ≠ w.description ||
    existing.channel ≠ w.channel || existing.embedding ≠ w.embedding || existing.embeddingDim ≠ w.embeddingDim ||
    existing.metadata ≠ w.metadata || existing.memoryKind ≠ w.memoryKind

/-- Replace the labels of a thread, keeping the rows that stay. -/
def replaceLabels (now : Int) (id : Nat) (desired : List String) : StoreTx Bool := do
  let s ← Tx.get
  let current := s.labelsByThread id
  let removed := current.filter (· ∉ desired)
  let added := desired.filter (· ∉ current)
  removeLabels id removed
  Tx.forEach added fun label => addLabel now id label
  pure (!removed.isEmpty || !added.isEmpty)

/-- The `UPDATE` of `update_thread`, run only if a column changes. -/
def updateThreadIf (threadChanged : Bool) (now : Int) (id : Nat) (w : ThreadData) : StoreTx Unit :=
  if threadChanged then do
    let updated ← updateThreadRow now id w
    Tx.ensure updated (.notFound s!"thread {id} was deleted by a concurrent transaction")
  else pure ()

/-- `update_thread`. -/
def updateThread [Deployment] (now : Int) (id : Nat) : Option ThreadData → StoreTx ThreadUpdate
  | none => pure ⟨false, false⟩
  | some w => do
    validateMetadata w.metadata
    let s ← Tx.get
    match s.findThread id with
    | none => Tx.fail (.notFound s!"thread not found: {id}")
    | some existing => do
      let toUpdate ← preserveThreadKindForUpdate w existing.memoryKind "ThreadService.UpdateThread"
      let newUserId := w.userId.getD 0
      Tx.ensure (newUserId = existing.userId)
        (.invalidArgument (s!"cannot change thread user_id from {existing.userId} to {newUserId}: " ++
          "thread user_id is immutable once created"))
      let defaultSystemMemoryId ← validateDefaultSystemMemoryId w.defaultSystemMemoryId toUpdate.memoryKind
      let toUpdate := { toUpdate with defaultSystemMemoryId }
      let threadChanged := existing.differs toUpdate
      updateThreadIf threadChanged now id toUpdate
      let labels ← validateLabels w.labels
      -- The old default stays attached: past messages may still refer to it.
      let boundsChanged ← anchorDefault now id defaultSystemMemoryId
      let labelsChanged ← replaceLabels now id labels
      pure ⟨true, threadChanged || labelsChanged || boundsChanged⟩

/-! ## Deletion -/

/-- `DeleteThreadTxOutcome`. -/
structure DeleteThreadTxOutcome where
  deleted : Bool
  exclusiveIds : List Nat
  allMemoryIds : List Nat
  postDelete : List DeleteJob
  deriving DecidableEq, Repr

/-- Give up the media of the memories that were deleted, one reference each. -/
def releaseMedia (now : Int) (candidates : List MemoryRow) : List Nat → StoreTx (List DeleteJob)
  | [] => pure []
  | mid :: rest => do
    let job ← unlinkMedia now ((candidates.find? (fun row => row.id = mid)).bind (·.data.mediaObjectId))
    let jobs ← releaseMedia now candidates rest
    pure (job.toList ++ jobs)

/-- `delete_thread_in_tx`. -/
def deleteThreadInTx (now : Int) (id : Nat) : StoreTx DeleteThreadTxOutcome := do
  let s ← Tx.get
  let allMemoryIds := s.memoryIdsByThread id
  let candidates := s.findByIds allMemoryIds
  deleteAttachmentsByThread id
  let exclusiveIds ← deleteOrphanedByIds allMemoryIds
  let postDelete ← releaseMedia now candidates exclusiveIds
  deleteLabelsByThread id
  let deleted ← deleteThreadRow id
  pure ⟨deleted, exclusiveIds, allMemoryIds, postDelete⟩

/-- `delete_thread`, and the content half of `delete_thread_with_policy`: the
thread and, if recursive, the live threads below it, in one transaction. -/
def deleteThreads (now : Int) (threadIds : List Nat) : StoreTx (List (Nat × DeleteThreadTxOutcome)) :=
  Tx.collect threadIds fun id => do
    let outcome ← deleteThreadInTx now id
    pure (id, outcome)

/-! ## Parent ids -/

/-- `UpdateMemoryParentsOutcome`. -/
inductive UpdateMemoryParentsOutcome where
  | rewired | sharedMemory | alreadyHasParents
  deriving DecidableEq, Repr

/-- `update_memory_parent_ids_with_guards`. -/
def updateMemoryParentIdsWithGuards (now : Int) (threadId memoryId : Nat) (newParentIds : List Nat)
    (forceOverwriteWhenShared forceOverwriteWhenNonEmpty : Bool) : StoreTx UpdateMemoryParentsOutcome := do
  let s ← Tx.get
  Tx.ensure (s.findThread threadId).isSome (.notFound s!"thread not found: {threadId}")
  Tx.ensure (s.findAttachment threadId memoryId).isSome
    (.notFound s!"memory {memoryId} is not attached to thread {threadId}")
  match s.findMemory memoryId with
  | none => Tx.fail (.notFound s!"memory not found: {memoryId}")
  | some existing =>
    if !forceOverwriteWhenShared && s.countRefs memoryId ≠ 1 then pure .sharedMemory
    else if !forceOverwriteWhenNonEmpty && !existing.data.parentIds.isEmpty then pure .alreadyHasParents
    else do
      let existingIds := (s.findByIds newParentIds).map MemoryRow.id
      let validated := newParentIds.filter (· ∈ existingIds)
      let _ ← updateParentIds memoryId validated
      Tx.forEach validated fun parent => insertOrIgnoreAutoPosition now threadId parent
      let _ ← refreshMessageBounds now threadId
      pure .rewired

/-! ## Adding a memory -/

/-- The ROLE_SYSTEM memories among the parents. -/
def systemParents (parents : List MemoryRow) : Nat := parents.countP fun parent => parent.data.role = roleSystem

/-- The default system memory `add_memory_core_tx` puts before the parents given. -/
def injectedDefault (thread : ThreadRow) (parents : List MemoryRow) (skipDefaultSystemInject : Bool) :
    StoreTx (Option Nat) :=
  if !skipDefaultSystemInject && systemParents parents = 0 then
    validateDefaultSystemMemoryId thread.defaultSystemMemoryId thread.memoryKind
  else pure none

/-- `add_memory_core_tx`. -/
def addMemoryCore [Deployment] (now : Int) (threadId : Nat) (memory : MemoryData) (skipDefaultSystemInject : Bool) :
    StoreTx (Nat × MemoryData) := do
  let s ← Tx.get
  match s.findThread threadId with
  | none => Tx.fail (.notFound s!"thread not found: {threadId}")
  | some thread => do
    let memory ← normalizeMemoryForCreate memory "ThreadService.AddMemory"
    validateMemoryKindMatchesThread thread.memoryKind memory
    let parents := s.findByIds memory.parentIds
    Tx.forEach parents fun parent => validateMemoryKindMatchesThread thread.memoryKind parent.data
    Tx.ensure (systemParents parents ≤ 1)
      (.runtimeError s!"parent_ids contains {systemParents parents} ROLE_SYSTEM memories; at most 1 is allowed")
    let defaultId ← injectedDefault thread parents skipDefaultSystemInject
    let memory := { memory with parentIds := defaultId.toList ++ memory.parentIds }
    let existing := defaultId.toList ++ parents.map MemoryRow.id
    Tx.forEach (memory.parentIds.filter (· ∈ existing)) fun parent =>
      insertOrIgnoreAutoPosition now threadId parent
    linkMedia now memory.mediaObjectId
    let id ← insertMemory now memory
    insertAutoPosition now threadId id
    pure (id, memory)

/-- `add_memory_with_membership_refresh`: `add_memory`, `add_memory_only` and
`add_memory_with_group_relation`. -/
def addMemory [Deployment] (now : Int) (groups : GroupAnswers) (threadId : Nat) (memory : MemoryData) :
    StoreTx Nat := do
  bailIf groups.beforeGroupRelation
  validateLegacySummaryTarget groups memory
  let (id, _) ← addMemoryCore now threadId memory false
  bailIf groups.afterGroupRelation
  let _ ← refreshMessageBounds now threadId
  pure id

end MemoryStore.Conversation
