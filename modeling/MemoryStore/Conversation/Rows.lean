/-
The tables behind memories, threads and media (`infra/sql/sqlite/001_schema.sql`
and the row types of `infra/src/infra/{memory,thread,thread_memory,media_object}`).

Requests and rows share their types: a row of `memory` is its id and the data
the request came with, with the timestamps the server fills in. Ids are drawn
from one counter, as a Snowflake generator never repeats one.
-/
import Mathlib

namespace MemoryStore.Conversation

/-! ## Memories -/

/-- `MemoryData`, without the output-only `thread_ids`. -/
structure MemoryData where
  parentIds : List Nat
  userId : Option Int
  content : String
  contentType : Int
  params : Option String
  metadata : Option String
  createdAt : Int
  updatedAt : Int
  role : Int
  externalId : Option String
  mediaObjectId : Option Nat
  memoryKind : Int
  deriving DecidableEq, Repr

/-- `ROLE_SYSTEM`. -/
def roleSystem : Int := 3

structure MemoryRow where
  id : Nat
  data : MemoryData
  deriving DecidableEq, Repr

/-! ## Threads -/

/-- `ThreadData` of a request. -/
structure ThreadData where
  defaultSystemMemoryId : Option Nat
  userId : Option Int
  description : Option String
  channel : Option String
  embedding : Option (List UInt8)
  embeddingDim : Option Int
  labels : List String
  metadata : Option String
  memoryKind : Int
  deriving DecidableEq, Repr

structure ThreadRow where
  id : Nat
  defaultSystemMemoryId : Option Nat
  userId : Int
  description : Option String
  channel : Option String
  embedding : Option (List UInt8)
  embeddingDim : Option Int
  createdAt : Int
  updatedAt : Int
  firstMessageAt : Option Int
  lastMessageAt : Option Int
  metadata : Option String
  memoryKind : Int
  deriving DecidableEq, Repr

/-- A row of the junction table `thread_memory`. -/
structure ThreadMemoryRow where
  threadId : Nat
  memoryId : Nat
  position : Nat
  createdAt : Int
  deriving DecidableEq, Repr

structure ThreadLabelRow where
  threadId : Nat
  label : String
  createdAt : Int
  deriving DecidableEq, Repr

/-! ## Media objects -/

/-- `media_object.gc_state`, in the order of its discriminants. -/
inductive GcState where
  | active | orphan | deletedFailed | unresolvable | promoting | deleting
  deriving DecidableEq, Repr

/-- `media_object.storage_backend`. The test-only `inline` backend is left out. -/
inductive Backend where
  | s3 | file | url | pending | unresolvable
  deriving DecidableEq, Repr

/-- The backends whose bytes the server keeps itself: `backend == "s3" || backend == "file"`. -/
def Backend.managed : Backend → Bool
  | .s3 | .file => true
  | _ => false

structure MediaObjectRow where
  id : Nat
  kind : Int
  mediaType : String
  byteSize : Option Int
  sha256 : Option String
  width : Option Int
  height : Option Int
  durationMs : Option Int
  storageBackend : Backend
  storageUri : Option String
  alt : Option String
  refCount : Nat
  gcState : GcState
  createdAt : Int
  updatedAt : Int
  deriving DecidableEq, Repr

/-! ## The database -/

structure Store where
  nextId : Nat
  memories : List MemoryRow
  threads : List ThreadRow
  threadMemories : List ThreadMemoryRow
  threadLabels : List ThreadLabelRow
  mediaObjects : List MediaObjectRow
  deriving DecidableEq, Repr

/-- A fresh deployment. -/
def Store.empty : Store := ⟨1, [], [], [], [], []⟩

/-- `SELECT … FROM memory WHERE id = ?`. -/
def Store.findMemory (s : Store) (id : Nat) : Option MemoryRow := s.memories.find? (fun row => row.id = id)

/-- `SELECT … FROM thread WHERE id = ?`. -/
def Store.findThread (s : Store) (id : Nat) : Option ThreadRow := s.threads.find? (fun row => row.id = id)

/-- `SELECT … FROM media_object WHERE id = ?`. -/
def Store.findMedia (s : Store) (id : Nat) : Option MediaObjectRow := s.mediaObjects.find? (fun row => row.id = id)

/-- The junction row of a thread and a memory, if the memory is attached. -/
def Store.findAttachment (s : Store) (threadId memoryId : Nat) : Option ThreadMemoryRow :=
  s.threadMemories.find? (fun row => (row.threadId, row.memoryId) = (threadId, memoryId))

/-- `COUNT(*) FROM memory WHERE media_object_id = ?`: what `ref_count` is to be. -/
def Store.actualRefCount (s : Store) (mediaId : Nat) : Nat :=
  s.memories.countP fun row => row.data.mediaObjectId = some mediaId

/-- The creation times of the memories attached to a thread: the rows of
`thread_memory JOIN memory` that `find_message_bounds_tx` aggregates. -/
def Store.messageTimes (s : Store) (threadId : Nat) : List Int :=
  (s.threadMemories.filter (fun row => row.threadId = threadId)).filterMap fun row =>
    (s.findMemory row.memoryId).map fun memory => memory.data.createdAt

/-- `find_message_bounds_tx`: `MIN` and `MAX`, both NULL over no rows. -/
def Store.messageBounds (s : Store) (threadId : Nat) : Option Int × Option Int :=
  ((s.messageTimes threadId).min?, (s.messageTimes threadId).max?)

end MemoryStore.Conversation
