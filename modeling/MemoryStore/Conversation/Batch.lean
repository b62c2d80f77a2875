/-
`add_memories_batch` (`app/src/app/thread.rs`): the import of a chunk of
messages into one thread, in one transaction. Entries with a known external id
overwrite the content of their memory, the others are added; a reference to a
later entry of the same batch is patched in after the last one has its id.

The suppression gate, the revival of a placeholder and the source identity are
the thread groups' business: what their tables answer is an input of the call.
-/
import MemoryStore.Conversation.Thread

namespace MemoryStore.Conversation

/-- `BatchMemoryInput`. -/
structure BatchMemoryInput where
  memory : MemoryData
  parentExternalIds : List String
  deriving DecidableEq, Repr

/-- `BatchThreadTarget`. -/
inductive BatchThreadTarget where
  | existingThreadId (threadId : Nat)
  | upsertByChannel (data : ThreadData)
  deriving DecidableEq, Repr

/-- What the thread group tables answer to an import. -/
structure ImportAnswers where
  groups : GroupAnswers
  /-- A deletion marker forbids the import. -/
  suppressed : Bool
  /-- The thread the source identity already resolves to. -/
  mappedThreadId : Option Nat
  /-- The owner of the source identity. -/
  identityUserId : Option Int
  /-- The error if the marker's canonical key is not the thread's. -/
  keyRefusal : Nat → Option String

/-- An import without a source identity. -/
def ImportAnswers.none : ImportAnswers := ⟨.none, false, Option.none, Option.none, fun _ => Option.none⟩

/-- `AddMemoriesBatchInput`. -/
structure AddMemoriesBatchInput where
  threadTarget : BatchThreadTarget
  memories : List BatchMemoryInput
  upsertByExternalId : Bool
  labels : List String

/-- `AddMemoryOutcome`. -/
structure AddMemoryOutcome where
  memoryId : Nat
  created : Bool
  position : Nat
  existingParentIdsEmpty : Bool
  resolvedParentIds : List Nat
  deriving DecidableEq, Repr

/-- `AddMemoriesBatchOutput`, with the ids whose content was overwritten. A
suppressed import has no outcomes, and thread 0. -/
structure AddMemoriesBatchOutput where
  threadId : Nat
  threadCreated : Bool
  outcomes : List AddMemoryOutcome
  overwrittenMemoryIds : List Nat
  suppressed : Bool
  deriving DecidableEq, Repr

/-- The external id of an entry, if it is not empty. -/
def BatchMemoryInput.externalId? (item : BatchMemoryInput) : Option String := item.memory.externalId.filter (!·.isEmpty)

/-! ## Phase 0: what the request itself must satisfy -/

/-- The first entry with parent ids, or with an external id seen before. -/
def prescan : Nat → List String → List BatchMemoryInput → StoreTx (List String)
  | _, seen, [] => pure seen
  | idx, seen, item :: rest => do
    Tx.ensure item.memory.parentIds.isEmpty
      (.invalidArgument (s!"memories[{idx}].memory.parent_ids must be empty; " ++
        "express parent references via parent_external_ids"))
    let eids := item.externalId?.toList
    Tx.ensure (eids.all (· ∉ seen)) (.invalidArgument ("duplicate external_id within batch: " ++ eids.headD ""))
    prescan (idx + 1) (seen ++ eids) rest

/-- Every entry names its author. -/
def requireUserIds : Nat → List BatchMemoryInput → StoreTx Unit
  | _, [] => pure ()
  | idx, item :: rest => do
    Tx.ensure (item.memory.userId.getD 0 ≠ 0)
      (.invalidArgument s!"memories[{idx}].memory.user_id is required (must be non-zero)")
    requireUserIds (idx + 1) rest

/-! ## Phase 1: the target thread -/

/-- The thread a batch is written to. -/
structure BatchThread where
  threadId : Nat
  created : Bool
  userId : Int
  memoryKind : Int
  deriving DecidableEq, Repr

/-- The source identity must not map to another thread. -/
def refuseMapped (answers : ImportAnswers) (threadId : Nat) : StoreTx Unit :=
  bailIf (match answers.mappedThreadId with
    | none => none
    | some mapped =>
      if mapped = threadId then none
      else some s!"source identity already maps to Thread {mapped}; refusing target Thread {threadId}")

/-- `UpsertByChannel`. -/
def upsertByChannel [Deployment] (now : Int) (answers : ImportAnswers) (data : ThreadData) : StoreTx BatchThread := do
  let data ← normalizeThreadForCreate data "ThreadService.AddMemoriesBatch"
  Tx.ensure data.userId.isSome (.invalidArgument "thread_data.user_id is required")
  let userId := data.userId.getD 0
  Tx.ensure (userId ≠ 0) (.invalidArgument "thread_data.user_id must be non-zero")
  let channel := data.channel.getD ""
  Tx.ensure (!channel.isEmpty) (.invalidArgument "thread_data.channel is required for upsert")
  validateMetadata data.metadata
  Tx.ensure (data.defaultSystemMemoryId.getD 0 = 0)
    (.invalidArgument ("thread_data.default_system_memory_id is not supported for AddMemoriesBatch; " ++
      "assign it via ThreadService.Update after import"))
  let s ← Tx.get
  match s.findByChannelAndUserId channel userId with
  | [] => do
    Tx.ensure answers.mappedThreadId.isNone
      (.bail "source identity already maps to a Thread; refusing to create a new channel target Thread")
    let id ← insertThread now { data with defaultSystemMemoryId := none }
    pure ⟨id, true, userId, data.memoryKind⟩
  | [thread] => do
    refuseMapped answers thread.id
    let memoryKind ← resolvePreservedKind data.memoryKind thread.memoryKind "ThreadService.AddMemoriesBatch"
    pure ⟨thread.id, false, thread.userId, memoryKind⟩
  | _ => Tx.fail (.failedPrecondition s!"multiple threads for channel ({channel}, user {userId})")

/-- The target of a batch: an existing thread, or the one thread of a channel. -/
def resolveThread [Deployment] (now : Int) (answers : ImportAnswers) : BatchThreadTarget → StoreTx BatchThread
  | .existingThreadId threadId => do
    let s ← Tx.get
    match s.findThread threadId with
    | none => Tx.fail (.notFound s!"thread not found: {threadId}")
    | some thread => do
      refuseMapped answers threadId
      pure ⟨threadId, false, thread.userId, thread.memoryKind⟩
  | .upsertByChannel data => upsertByChannel now answers data

/-- Normalize the entries, and check their kinds against the thread's. -/
def normalizeBatch [Deployment] (memoryKind : Int) (memories : List BatchMemoryInput) :
    StoreTx (List BatchMemoryInput) :=
  Tx.collect memories fun item => do
    let memory ← normalizeMemoryForCreate item.memory "ThreadService.AddMemoriesBatch"
    validateMemoryKindMatchesThread memoryKind memory
    pure { item with memory }

/-! ## Phase 2: the entries in order -/

/-- `ForwardRef`. -/
structure ForwardRef where
  outcomeIdx : Nat
  targetEids : List String
  deriving DecidableEq, Repr

/-- The accumulators of the loop; of two entries of `eidMap` the first counts. -/
structure BatchState where
  eidMap : List (String × Nat)
  outcomes : List AddMemoryOutcome
  overwritten : List Nat
  forwardRefs : List ForwardRef
  deriving DecidableEq, Repr

/-- `existing_by_eid`, read before the first entry is written: the memory with
the external id, and its position if it is attached to the thread. -/
def Store.existingByEid (s : Store) (threadId : Nat) (eid : String) : Option (MemoryRow × Option Nat) :=
  if eid.isEmpty then none
  else (s.findByExternalId eid).map fun row => (row, (s.findAttachment threadId row.id).map ThreadMemoryRow.position)

/-- `wanted_eids`. -/
def wantedEids (memories : List BatchMemoryInput) : List String :=
  memories.flatMap fun item => item.parentExternalIds ++ item.externalId?.toList

/-- `eid_map` at the start: only memories attached to this thread. -/
def Store.attachedEids (s : Store) (threadId : Nat) (memories : List BatchMemoryInput) : List (String × Nat) :=
  (wantedEids memories).filterMap fun eid =>
    match s.existingByEid threadId eid with
    | some (row, some _) => some (eid, row.id)
    | _ => none

/-- Keep the first of equal ids. -/
def distinct (ids : List Nat) : List Nat :=
  ids.foldl (fun seen id => if id ∈ seen then seen else seen ++ [id]) []

/-- The parents that have an id already. -/
def resolvedParents (eidMap : List (String × Nat)) (parentExternalIds : List String) : List Nat :=
  distinct (parentExternalIds.filterMap fun eid => eidMap.lookup eid)

/-- The references to later entries of the batch; any other is dropped. -/
def pendingParents (eidMap : List (String × Nat)) (batchEids parentExternalIds : List String) : List String :=
  parentExternalIds.filter fun eid => (eidMap.lookup eid).isNone && eid ∈ batchEids

/-- One entry of the batch. -/
def processEntry [Deployment] (now : Int) (threadId : Nat) (upsert : Bool)
    (existingByEid : String → Option (MemoryRow × Option Nat)) (batchEids : List String) (st : BatchState)
    (item : BatchMemoryInput) : StoreTx BatchState := do
  let resolved := resolvedParents st.eidMap item.parentExternalIds
  let pending := pendingParents st.eidMap batchEids item.parentExternalIds
  let forwardRefs :=
    if pending.isEmpty then st.forwardRefs else st.forwardRefs ++ [⟨st.outcomes.length, pending⟩]
  match item.externalId?.bind existingByEid with
  | some (row, attachedPosition) =>
    if !upsert then
      Tx.fail (.alreadyExists s!"memory.external_id collision (id={row.id}); set upsert_by_external_id to reuse")
    else do
      let authorUserId := row.data.userId.getD 0
      Tx.ensure (authorUserId = item.memory.userId.getD 0)
        (.failedPrecondition (s!"external_id memory id={row.id} has author user_id {authorUserId} " ++
          s!"but input has {item.memory.userId.getD 0}"))
      match attachedPosition with
      | none => Tx.fail (.failedPrecondition s!"external_id memory id={row.id} exists in a different thread")
      | some position => do
        let _ ← updateContentOnly now row.id item.memory.content
        pure {
          eidMap := item.externalId?.toList.map (·, row.id) ++ st.eidMap
          outcomes := st.outcomes ++ [⟨row.id, false, position, row.data.parentIds.isEmpty, resolved⟩]
          overwritten := st.overwritten ++ [row.id]
          forwardRefs }
  | none => do
    let (id, _) ← addMemoryCore now threadId { item.memory with parentIds := resolved } true
    let s ← Tx.get
    let position := ((s.findAttachment threadId id).map ThreadMemoryRow.position).getD 0
    pure {
      eidMap := item.externalId?.toList.map (·, id) ++ st.eidMap
      outcomes := st.outcomes ++ [⟨id, true, position, false, resolved⟩]
      overwritten := st.overwritten
      forwardRefs }

/-! ## Phase 2.5: forward references -/

/-- The parents a forward reference adds, now that every entry has its id. -/
def additions (eidMap : List (String × Nat)) (resolved : List Nat) (targetEids : List String) : List Nat :=
  distinct ((targetEids.filterMap fun eid => eidMap.lookup eid).filter (· ∉ resolved))

/-- Patch the parents of a created entry; an existing memory has its own call for that. -/
def resolveForwardRef (now : Int) (threadId : Nat) (eidMap : List (String × Nat)) (outcomes : List AddMemoryOutcome)
    (ref : ForwardRef) : StoreTx (List AddMemoryOutcome) :=
  match outcomes[ref.outcomeIdx]? with
  | none => pure outcomes
  | some outcome =>
    let added := additions eidMap outcome.resolvedParentIds ref.targetEids
    if !outcome.created || added.isEmpty then pure outcomes
    else do
      let resolvedParentIds := outcome.resolvedParentIds ++ added
      let _ ← updateParentIds outcome.memoryId resolvedParentIds
      Tx.forEach added fun parent => insertOrIgnoreAutoPosition now threadId parent
      pure (outcomes.set ref.outcomeIdx { outcome with resolvedParentIds })

/-! ## The batch -/

/-- Phases 2 to 3: the entries, their forward references, labels and bounds. -/
def writeBatch [Deployment] (now : Int) (thread : BatchThread) (upsert : Bool) (labels : List String)
    (memories : List BatchMemoryInput) (batchEids : List String) : StoreTx AddMemoriesBatchOutput := do
  let s ← Tx.get
  let st ← Tx.fold memories ⟨s.attachedEids thread.threadId memories, [], [], []⟩
    (processEntry now thread.threadId upsert (s.existingByEid thread.threadId) batchEids)
  let outcomes ← Tx.fold st.forwardRefs st.outcomes (resolveForwardRef now thread.threadId st.eidMap)
  let labels ← validateLabels labels
  Tx.forEach labels fun label => addLabel now thread.threadId label
  let _ ← refreshMessageBounds now thread.threadId
  pure ⟨thread.threadId, thread.created, outcomes, st.overwritten, false⟩

/-- `add_memories_batch`. -/
def addMemoriesBatch [Deployment] (now : Int) (answers : ImportAnswers) (input : AddMemoriesBatchInput) :
    StoreTx AddMemoriesBatchOutput := do
  Tx.ensure (!input.memories.isEmpty) (.invalidArgument "memories must not be empty")
  let batchEids ← prescan 0 [] input.memories
  requireUserIds 0 input.memories
  if answers.suppressed then pure ⟨0, false, [], [], true⟩
  else do
    Tx.forEach input.memories fun item => validateLegacySummaryTarget answers.groups item.memory
    let thread ← resolveThread now answers input.threadTarget
    Tx.ensure (answers.identityUserId.all (· = thread.userId))
      (.invalidArgument s!"source identity owner does not match target thread owner {thread.userId}")
    bailIf (answers.keyRefusal thread.threadId)
    let memories ← normalizeBatch thread.memoryKind input.memories
    writeBatch now thread input.upsertByExternalId input.labels memories batchEids

end MemoryStore.Conversation
