/-
The repositories of memories, threads and their junction
(`infra/src/infra/{memory,thread,thread_memory,thread_label}/rdb.rs`): one
definition per SQL statement. What a statement does to the database is a
function of the store; a statement that a unique index can reject, or that
reports whether it hit a row, is a transaction over it.

Row locks are left out, since transactions run one at a time here, and so is
the chunking of long `IN` lists.
-/
import MemoryStore.Lib.Table
import MemoryStore.Lib.Tx
import MemoryStore.Conversation.Rows

namespace MemoryStore.Conversation

open Table

/-- `LlmMemoryError`, and what `anyhow::bail!` raises. A call that answers but
drops its transaction is `uncommitted`: for the database that is a failure. -/
inductive AppError where
  | notFound (message : String)
  | invalidArgument (message : String)
  | failedPrecondition (message : String)
  | alreadyExists (message : String)
  | runtimeError (message : String)
  | aborted (message : String)
  | bail (message : String)
  | uncommitted
  /-- `RuntimeError`: ref_count underflow / double-decr (invariant violation). -/
  | refCountUnderflow (mediaId : Nat)
  /-- `RuntimeError`: vanished after claim_deleting (invariant violation). -/
  | vanishedAfterClaim (mediaId : Nat)
  deriving DecidableEq, Repr

/-- Not one of the errors the code calls an invariant violation. -/
def AppError.benign : AppError → Bool
  | .refCountUnderflow _ | .vanishedAfterClaim _ => false
  | _ => true

/-- A transaction on the database. -/
abbrev StoreTx := Tx AppError Store

/-- `generate_id`. -/
def generateId : StoreTx Nat := do
  let id ← Tx.reads Store.nextId
  Tx.writes fun s => { s with nextId := s.nextId + 1 }
  pure id

/-- `fill_timestamps` and `fill_updated_at`: 0 is filled with the server's time. -/
def fillTimestamp (now requested : Int) : Int := if requested = 0 then now else requested

/-! ## Memories -/

/-- The row `create` inserts. A `user_id` of 0 reads back as none. -/
def MemoryData.inserted (now : Int) (data : MemoryData) : MemoryData :=
  { data with
      userId := if data.userId.getD 0 = 0 then none else data.userId
      createdAt := fillTimestamp now data.createdAt
      updatedAt := fillTimestamp now data.updatedAt }

def Store.insertMemory (s : Store) (id : Nat) (data : MemoryData) : Store :=
  { s with memories := s.memories ++ [⟨id, data⟩] }

/-- `find_by_external_id`. -/
def Store.findByExternalId (s : Store) (externalId : String) : Option MemoryRow :=
  s.memories.find? (fun row => row.data.externalId = some externalId)

/-- `create` of a memory, under the unique index on `external_id`. -/
def insertMemory (now : Int) (data : MemoryData) : StoreTx Nat := do
  let id ← generateId
  let s ← Tx.get
  Tx.ensure (!(s.memories.any fun row => data.externalId.isSome && row.data.externalId = data.externalId))
    (.alreadyExists "memory.external_id already exists")
  Tx.writes (·.insertMemory id (data.inserted now))
  pure id

/-- `UPDATE memory SET … WHERE id = ?`. -/
def Store.modifyMemory (s : Store) (id : Nat) (f : MemoryData → MemoryData) : Store :=
  { s with
      memories := modifyWhere (fun row => row.id = id) (fun row => { row with data := f row.data }) s.memories }

/-- The columns of `UPDATE_SQL`: all but `created_at` and `external_id`. -/
def MemoryData.updated (now : Int) (stored w : MemoryData) : MemoryData :=
  { w with
      userId := if w.userId.getD 0 = 0 then none else w.userId
      createdAt := stored.createdAt
      updatedAt := fillTimestamp now w.updatedAt
      externalId := stored.externalId }

/-- An `UPDATE memory`; the answer is whether it hit a row. -/
def modifyMemory (id : Nat) (f : MemoryData → MemoryData) : StoreTx Bool := do
  let found ← Tx.reads fun s => (s.findMemory id).isSome
  Tx.writes (·.modifyMemory id f)
  pure found

/-- `update`. -/
def updateMemoryRow (now : Int) (id : Nat) (w : MemoryData) : StoreTx Bool :=
  modifyMemory id fun stored => stored.updated now w

/-- `update_parent_ids`. -/
def updateParentIds (id : Nat) (parentIds : List Nat) : StoreTx Bool :=
  modifyMemory id fun stored => { stored with parentIds }

/-- `update_content_only`. -/
def updateContentOnly (now : Int) (id : Nat) (content : String) : StoreTx Bool :=
  modifyMemory id fun stored => { stored with content, updatedAt := now }

def Store.deleteMemories (s : Store) (p : MemoryRow → Bool) : Store :=
  { s with memories := s.memories.filter fun row => !p row }

/-- `delete_tx` of a memory. -/
def deleteMemoryRow (id : Nat) : StoreTx Bool := do
  let found ← Tx.reads fun s => (s.findMemory id).isSome
  Tx.writes (·.deleteMemories fun row => row.id = id)
  pure found

/-- `find_by_ids_for_update_tx`. -/
def Store.findByIds (s : Store) (ids : List Nat) : List MemoryRow :=
  (s.memories.filter (·.id ∈ ids)).insertionSort fun a b => b.id ≤ a.id

/-- `NOT EXISTS (SELECT 1 FROM thread_memory …)`. -/
def Store.unattached (s : Store) (memoryId : Nat) : Bool := !s.threadMemories.any (·.memoryId = memoryId)

/-- The rows `delete_orphaned_by_ids_tx` deletes. -/
def Store.isOrphanOf (s : Store) (ids : List Nat) (row : MemoryRow) : Bool :=
  row.id ∈ ids && s.unattached row.id

/-- `delete_orphaned_by_ids_tx`: the ids it answers are those it deleted. -/
def deleteOrphanedByIds (ids : List Nat) : StoreTx (List Nat) := do
  let s ← Tx.get
  Tx.writes (·.deleteMemories (s.isOrphanOf ids))
  pure ((s.memories.filter (s.isOrphanOf ids)).map MemoryRow.id)

/-! ## The junction -/

/-- `COALESCE(MAX(position), -1) + 1` over the rows of a thread. -/
def Store.nextPosition (s : Store) (threadId : Nat) : Nat :=
  (((s.threadMemories.filter (fun row => row.threadId = threadId)).map fun row => row.position + 1).max?).getD 0

/-- The insert of both `insert_auto_position_tx`, which never meets a row, and
`insert_or_ignore_auto_position_tx`, which leaves the row it meets. -/
def Store.attach (s : Store) (now : Int) (threadId memoryId : Nat) : Store :=
  if (s.findAttachment threadId memoryId).isSome then s
  else
    { s with threadMemories := s.threadMemories ++ [⟨threadId, memoryId, s.nextPosition threadId, now⟩] }

/-- `insert_or_ignore_auto_position_tx`. -/
def insertOrIgnoreAutoPosition (now : Int) (threadId memoryId : Nat) : StoreTx Unit :=
  Tx.writes (·.attach now threadId memoryId)

/-- `insert_auto_position_tx`. -/
def insertAutoPosition (now : Int) (threadId memoryId : Nat) : StoreTx Unit := do
  let s ← Tx.get
  Tx.ensure (s.findAttachment threadId memoryId).isNone (.runtimeError "UNIQUE constraint failed: thread_memory")
  Tx.writes (·.attach now threadId memoryId)

/-- `DELETE FROM thread_memory WHERE …`. -/
def Store.detach (s : Store) (p : ThreadMemoryRow → Bool) : Store :=
  { s with threadMemories := s.threadMemories.filter fun row => !p row }

/-- `delete_by_thread_tx` of the junction. -/
def deleteAttachmentsByThread (threadId : Nat) : StoreTx Unit := Tx.writes (·.detach fun row => row.threadId = threadId)

/-- `delete_by_memory_tx` of the junction. -/
def deleteAttachmentsByMemory (memoryId : Nat) : StoreTx Unit := Tx.writes (·.detach fun row => row.memoryId = memoryId)

/-- `find_memory_ids_by_thread_tx`, by position. -/
def Store.memoryIdsByThread (s : Store) (threadId : Nat) : List Nat :=
  ((s.threadMemories.filter (fun row => row.threadId = threadId)).insertionSort fun a b => a.position ≤ b.position).map
    ThreadMemoryRow.memoryId

/-- `find_all_threads_by_memory_tx`. -/
def Store.threadIdsByMemory (s : Store) (memoryId : Nat) : List Nat :=
  ((s.threadMemories.filter (fun row => row.memoryId = memoryId)).map ThreadMemoryRow.threadId).insertionSort (· ≤ ·)

/-- `count_refs_tx`. -/
def Store.countRefs (s : Store) (memoryId : Nat) : Nat := s.threadMemories.countP fun row => row.memoryId = memoryId

/-! ## Threads -/

/-- The row `create` of a thread inserts: no messages yet. -/
def ThreadData.row (now : Int) (id : Nat) (data : ThreadData) : ThreadRow :=
  { id
    defaultSystemMemoryId := data.defaultSystemMemoryId
    userId := data.userId.getD 0
    description := data.description
    channel := data.channel
    embedding := data.embedding
    embeddingDim := data.embeddingDim
    createdAt := now
    updatedAt := now
    firstMessageAt := none
    lastMessageAt := none
    metadata := data.metadata
    memoryKind := data.memoryKind }

def Store.insertThread (s : Store) (row : ThreadRow) : Store := { s with threads := s.threads ++ [row] }

/-- `create` of a thread. -/
def insertThread (now : Int) (data : ThreadData) : StoreTx Nat := do
  let id ← generateId
  Tx.writes (·.insertThread (data.row now id))
  pure id

/-- `UPDATE thread SET … WHERE …`. -/
def Store.modifyThreads (s : Store) (p : ThreadRow → Bool) (f : ThreadRow → ThreadRow) : Store :=
  { s with threads := modifyWhere p f s.threads }

/-- The columns of `UPDATE_SQL` of a thread. -/
def ThreadRow.updated (now : Int) (w : ThreadData) (row : ThreadRow) : ThreadRow :=
  { row with
      defaultSystemMemoryId := w.defaultSystemMemoryId
      userId := w.userId.getD 0
      description := w.description
      channel := w.channel
      embedding := w.embedding
      embeddingDim := w.embeddingDim
      updatedAt := now
      metadata := w.metadata
      memoryKind := w.memoryKind }

/-- `update` of a thread. -/
def updateThreadRow (now : Int) (id : Nat) (w : ThreadData) : StoreTx Bool := do
  let found ← Tx.reads fun s => (s.findThread id).isSome
  Tx.writes (·.modifyThreads (fun row => row.id = id) (ThreadRow.updated now w))
  pure found

/-- `clear_default_system_memory_tx`. -/
def clearDefaultSystemMemory (memoryId : Nat) : StoreTx Unit :=
  Tx.writes (·.modifyThreads (fun row => row.defaultSystemMemoryId = some memoryId)
    fun row => { row with defaultSystemMemoryId := none })

/-- `find_thread_ids_by_default_system_memory_for_update_tx`. -/
def Store.threadIdsByDefaultSystemMemory (s : Store) (memoryId : Nat) : List Nat :=
  (s.threads.filter (fun row => row.defaultSystemMemoryId = some memoryId)).map ThreadRow.id

def Store.deleteThread (s : Store) (id : Nat) : Store :=
  { s with threads := s.threads.filter fun row => row.id ≠ id }

/-- `delete_tx` of a thread. -/
def deleteThreadRow (id : Nat) : StoreTx Bool := do
  let found ← Tx.reads fun s => (s.findThread id).isSome
  Tx.writes (·.deleteThread id)
  pure found

/-- `find_by_channel_and_user_id_tx`. -/
def Store.findByChannelAndUserId (s : Store) (channel : String) (userId : Int) : List ThreadRow :=
  s.threads.filter fun row => row.channel = some channel && row.userId = userId

/-- The bounds stored with a thread. -/
def ThreadRow.messageBounds (row : ThreadRow) : Option Int × Option Int := (row.firstMessageAt, row.lastMessageAt)

/-- `UPDATE_MESSAGE_BOUNDS_IF_CHANGED_SQL`. -/
def Store.setMessageBounds (s : Store) (now : Int) (id : Nat) (bounds : Option Int × Option Int) : Store :=
  s.modifyThreads (fun row => row.id = id && row.messageBounds ≠ bounds) fun row =>
    { row with firstMessageAt := bounds.1, lastMessageAt := bounds.2, updatedAt := now }

/-- `refresh_message_bounds_tx`: the answer is whether the extrema changed. -/
def refreshMessageBounds (now : Int) (id : Nat) : StoreTx Bool := do
  let s ← Tx.get
  let bounds := s.messageBounds id
  Tx.writes (·.setMessageBounds now id bounds)
  pure (s.threads.any fun row => row.id = id && row.messageBounds ≠ bounds)

/-- `refresh_message_bounds_for_thread_ids_tx`, each id once and in order. -/
def refreshMessageBoundsForThreadIds (now : Int) (threadIds : List Nat) : StoreTx Unit :=
  Tx.forEach ((threadIds.insertionSort (· ≤ ·)).dedup) fun id => do
    let _ ← refreshMessageBounds now id
    pure ()

/-! ## Labels -/

def Store.addLabel (s : Store) (now : Int) (threadId : Nat) (label : String) : Store :=
  if s.threadLabels.any (fun row => row.threadId = threadId && row.label = label) then s
  else { s with threadLabels := s.threadLabels ++ [⟨threadId, label, now⟩] }

/-- `add_labels_tx`, idempotent. -/
def addLabel (now : Int) (threadId : Nat) (label : String) : StoreTx Unit := Tx.writes (·.addLabel now threadId label)

def Store.removeLabels (s : Store) (p : ThreadLabelRow → Bool) : Store :=
  { s with threadLabels := s.threadLabels.filter fun row => !p row }

/-- `remove_labels_tx`. -/
def removeLabels (threadId : Nat) (labels : List String) : StoreTx Unit :=
  Tx.writes (·.removeLabels fun row => row.threadId = threadId && row.label ∈ labels)

/-- `delete_by_thread_tx` of the labels. -/
def deleteLabelsByThread (threadId : Nat) : StoreTx Unit := Tx.writes (·.removeLabels fun row => row.threadId = threadId)

/-- `find_labels_by_thread_tx`. -/
def Store.labelsByThread (s : Store) (threadId : Nat) : List String :=
  (s.threadLabels.filter (fun row => row.threadId = threadId)).map ThreadLabelRow.label

end MemoryStore.Conversation
