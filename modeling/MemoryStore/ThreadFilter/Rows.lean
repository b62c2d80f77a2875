/-
The rows a thread filter is read against, the filter, and the queries that select
thread ids by it (`infra/src/infra/{thread,thread_label,thread_memory}/rdb.rs`).

SQL comparisons with NULL select nothing. A `Vec` of ids larger than the address
space allows is a failure, as any other failing query would be; other failing
queries are left out.
-/
import MemoryStore.Lib.Chunks
import MemoryStore.Lib.SortedSet

namespace MemoryStore.ThreadFilter

/-! ## Tables -/

/-- What filters read of a row of `thread`. -/
structure ThreadRow where
  id : Int
  userId : Int
  channel : Option String
  createdAt : Int
  updatedAt : Int
  firstMessageAt : Option Int
  lastMessageAt : Option Int
  memoryKind : Option Int
  deriving DecidableEq, Repr

structure ThreadLabelRow where
  threadId : Int
  label : String
  deriving DecidableEq, Repr

structure ThreadMemoryRow where
  threadId : Int
  memoryId : Int
  deriving DecidableEq, Repr

inductive MemberState where
  | active | deleted | redirected
  deriving DecidableEq, Repr

structure ThreadGroupMemberRow where
  groupId : Int
  threadId : Option Int
  threadCanonicalKey : String
  state : MemberState
  deriving DecidableEq, Repr

/-- `state IN ('active','deleted')` -/
def ThreadGroupMemberRow.isCurrent (member : ThreadGroupMemberRow) : Bool := member.state ≠ .redirected

structure Database where
  threads : List ThreadRow
  labels : List ThreadLabelRow
  members : List ThreadGroupMemberRow
  threadMemories : List ThreadMemoryRow
  /-- The primary key of `thread`. -/
  threads_nodup : (threads.map ThreadRow.id).Nodup

/-! ## The filter -/

inductive LabelMatchMode where
  | labelAny | labelAll
  deriving DecidableEq, Repr

/-- `i64::MIN` -/
def i64Min : Int := -2 ^ 63

/-- `i64::MAX` -/
def i64Max : Int := 2 ^ 63 - 1

/-- `ThreadSearchFilter`; the bounds on message times are in the range of their type. -/
structure ThreadSearchFilter where
  userId : Option Int := none
  labels : List String := []
  labelMatchMode : LabelMatchMode := .labelAny
  channel : Option String := none
  memoryKinds : List Int := []
  threadCreatedAfter : Option Int := none
  threadCreatedBefore : Option Int := none
  threadUpdatedAfter : Option Int := none
  threadUpdatedBefore : Option Int := none
  firstMessageAfter : Option Int := none
  firstMessageBefore : Option Int := none
  lastMessageAfter : Option Int := none
  lastMessageBefore : Option Int := none
  threadGroupId : Option Int := none
  threadId : Option Int := none
  after_ge : ∀ v, firstMessageAfter = some v ∨ lastMessageAfter = some v → i64Min ≤ v := by simp
  before_le : ∀ v, firstMessageBefore = some v ∨ lastMessageBefore = some v → v ≤ i64Max := by simp
  deriving DecidableEq

/-- `MemoryKind::Raw` -/
def rawKind : Int := 1

/-! ## Queries -/

inductive Backend where
  | sqlite | postgres
  deriving DecidableEq, Repr

inductive FilterError where
  | labels (limit : Int)
  | nonLabel (limit : Int)
  | group (groupId limit : Int)
  | threads (count : Nat) (limit : Int)
  | memories (cap : Nat)
  | negativeLimit
  | capacityOverflow
  deriving DecidableEq, Repr

/-- The text of a `FailedPrecondition`, or of the failing query. -/
def FilterError.message : FilterError → String
  | .labels limit => s!"thread_filter.labels matched more than {limit} threads (intermediate hard limit). " ++
      "Tighten the label set or combine with channel / time filters."
  | .nonLabel limit => s!"thread_filter non-label conditions matched more than {limit} threads " ++
      "(intermediate hard limit). Add a labels filter or narrow the time range."
  | .group groupId limit => s!"thread_filter.thread_group_id {groupId} has more than {limit} current members " ++
      "(intermediate hard limit)."
  | .threads count limit => s!"thread_filter resolved to {count} threads (limit: {limit}). " ++
      "Add more selective conditions to the thread_filter."
  | .memories cap => s!"thread_filter resolved to more than {cap} memory_ids " ++
      "(MEMORY_THREAD_FILTER_FTS_MAX_TOTAL_IDS). The matching threads contain too many memories — " ++
      "narrow the thread_filter with additional labels, channel, or time-range conditions."
  | .negativeLimit => "LIMIT must not be negative"
  | .capacityOverflow => "capacity overflow"

/-- The most elements of a `Vec` of ids. -/
def maxVecLen : Nat := (2 ^ 63 - 1) / 8

/-- `fetch_all` of a query that ends in `LIMIT`; SQLite reads a negative limit as none. -/
def fetchLimit (backend : Backend) (limit : Int) (rows : List Int) : Except FilterError (List Int) :=
  if limit < 0 ∧ backend = .postgres then .error .negativeLimit
  else
    let rows := if limit < 0 then rows else rows.take limit.toNat
    if maxVecLen < rows.length then .error .capacityOverflow else .ok rows

/-- `i64::saturating_add(1)` -/
def saturatingSucc (n : Int) : Int := min (n + 1) (2 ^ 63 - 1)

/-- The SQL of `build_thread_memory_kind_filter`. -/
def kindSelected (memoryKinds : List Int) (kind : Option Int) : Bool :=
  memoryKinds.isEmpty || kind.any (fun k => memoryKinds.contains k) ||
    memoryKinds.contains rawKind && (kind = none || kind = some 0)

/-- The labels of `labels` that a thread has. -/
def labelsOf (db : Database) (labels : List String) (threadId : Int) : List String :=
  ((db.labels.filter fun l => l.threadId = threadId && labels.contains l.label).map ThreadLabelRow.label).dedup

/-- `MAX(t.last_message_at) DESC NULLS LAST, tl.thread_id DESC` -/
def recentFirst (a b : ThreadRow) : Bool :=
  match a.lastMessageAt, b.lastMessageAt with
  | some x, some y => y < x || x = y && b.id ≤ a.id
  | some _, none => true
  | none, some _ => false
  | none, none => b.id ≤ a.id

/-- The rows of `find_thread_ids_by_labels_and_memory_kinds`, before its `LIMIT`; each label is
asked for once. -/
def labelRows (db : Database) (labels : List String) (matchAll : Bool) (userId : Option Int) (memoryKinds : List Int) :
    List Int :=
  let labels := labels.dedup
  let selected := db.threads.filter fun t =>
    let found := labelsOf db labels t.id
    userId.all (fun v => t.userId = v) && kindSelected memoryKinds t.memoryKind &&
      (if matchAll then found.length = labels.length else !found.isEmpty)
  (selected.insertionSort fun a b => recentFirst a b).map ThreadRow.id

/-- `find_thread_ids_by_labels`; `limit` is bound as an `i64`. -/
def findThreadIdsByLabels (backend : Backend) (db : Database) (labels : List String) (matchAll : Bool)
    (userId : Option Int) (limit : Int) : Except FilterError (List Int) :=
  if labels.isEmpty then .ok [] else fetchLimit backend limit (labelRows db labels matchAll userId [])

/-- `column > bound` -/
def isAfter (bound column : Option Int) : Bool := bound.all fun v => column.any fun c => v < c

/-- `column < bound` -/
def isBefore (bound column : Option Int) : Bool := bound.all fun v => column.any fun c => c < v

/-- The `WHERE` of `find_thread_ids_by_filter`. -/
def filterSelects (f : ThreadSearchFilter) (t : ThreadRow) : Bool :=
  f.userId.all (fun v => t.userId = v) && f.channel.all (fun v => t.channel = some v) &&
    isAfter f.threadCreatedAfter (some t.createdAt) && isBefore f.threadCreatedBefore (some t.createdAt) &&
    isAfter f.threadUpdatedAfter (some t.updatedAt) && isBefore f.threadUpdatedBefore (some t.updatedAt) &&
    isAfter f.firstMessageAfter t.firstMessageAt && isBefore f.firstMessageBefore t.firstMessageAt &&
    isAfter f.lastMessageAfter t.lastMessageAt && isBefore f.lastMessageBefore t.lastMessageAt &&
    kindSelected f.memoryKinds t.memoryKind

/-- `find_thread_ids_by_filter` -/
def findThreadIdsByFilter (backend : Backend) (db : Database) (f : ThreadSearchFilter) (max : Int) :
    Except FilterError (List Int) :=
  fetchLimit backend (saturatingSucc max) ((db.threads.filter (filterSelects f)).map ThreadRow.id)

/-- `find_thread_ids_by_group_id` -/
def findThreadIdsByGroupId (backend : Backend) (db : Database) (groupId max : Int) : Except FilterError (List Int) :=
  fetchLimit backend max
    (((db.members.filter fun m => m.groupId = groupId && m.isCurrent).filterMap
      ThreadGroupMemberRow.threadId).insertionSort (· ≤ ·))

/-- `THREAD_ID_IN_CHUNK_SIZE` -/
def threadIdInChunkSize : Nat := 900

/-- `SELECT DISTINCT memory_id FROM thread_memory WHERE thread_id IN (…)` -/
def memoryIdRows (db : Database) (threadIds : List Int) : List Int :=
  ((db.threadMemories.filter fun r => threadIds.contains r.threadId).map ThreadMemoryRow.memoryId).dedup

/-- The loop of `find_memory_ids_by_thread_ids` over its chunks. -/
def collectMemoryIds (backend : Backend) (db : Database) (perChunkLimit : Int) (max : Nat) :
    List (List Int) → List Int → Except FilterError (List Int)
  | [], seen => .ok seen
  | chunk :: chunks, seen => do
    let rows ← fetchLimit backend perChunkLimit (memoryIdRows db chunk)
    let seen := SortedSet.ofList (seen ++ rows)
    if max < seen.length then pure seen else collectMemoryIds backend db perChunkLimit max chunks seen

/-- `as i64` of a `usize` -/
def asI64 (n : Nat) : Int := (n : Int).bmod (2 ^ 64)

/-- `find_memory_ids_by_thread_ids`; the set of what it has seen. -/
def findMemoryIdsByThreadIds (backend : Backend) (db : Database) (threadIds : List Int) (max : Nat) :
    Except FilterError (List Int) :=
  if threadIds.isEmpty then .ok []
  else collectMemoryIds backend db (saturatingSucc (asI64 max)) max (threadIds.toChunks threadIdInChunkSize) []

end MemoryStore.ThreadFilter
