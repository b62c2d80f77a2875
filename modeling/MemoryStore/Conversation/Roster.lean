/-
An import, on what it reads and writes of the database: the memories with their
parents, and the junction with its positions. There the entries of a batch are
a function of the roster and of the entries before them, and the forward
references a function of all of them.
-/
import MemoryStore.Conversation.Batch

namespace MemoryStore.Conversation

/-! ## Ids, each once -/

theorem distinct_concat (ids : List Nat) (id : Nat) :
    distinct (ids ++ [id]) = if id ∈ distinct ids then distinct ids else distinct ids ++ [id] := by
  unfold distinct
  rw [List.foldl_append]
  rfl

theorem mem_distinct_iff {id : Nat} (ids : List Nat) : id ∈ distinct ids ↔ id ∈ ids := by
  induction ids using List.reverseRecOn with
  | nil => exact Iff.rfl
  | append_singleton ids last ih =>
    rw [distinct_concat, List.mem_append, List.mem_singleton, ← ih]
    split
    · next hlast => exact ⟨.inl, fun h => h.elim (fun h => h) fun he => he ▸ hlast⟩
    · rw [List.mem_append, List.mem_singleton]

theorem distinct_nodup (ids : List Nat) : (distinct ids).Nodup := by
  induction ids using List.reverseRecOn with
  | nil => exact List.nodup_nil
  | append_singleton ids last ih =>
    rw [distinct_concat]
    split
    · exact ih
    · next hlast => exact List.nodup_append.2 ⟨ih, List.nodup_singleton _, fun a ha b hb he =>
        hlast (List.mem_singleton.1 hb ▸ he ▸ ha)⟩

/-! ## The roster -/

/-- What an import reads of a memory. -/
structure MemoryNode where
  id : Nat
  parentIds : List Nat
  externalId : Option String
  author : Int
  deriving DecidableEq, Repr

/-- A row of the junction, without its time. -/
structure Place where
  threadId : Nat
  memoryId : Nat
  position : Nat
  deriving DecidableEq, Repr

/-- What an import reads of the database. -/
structure Roster where
  nextId : Nat
  nodes : List MemoryNode
  places : List Place
  deriving DecidableEq, Repr

namespace Roster

def findNode (r : Roster) (eid : String) : Option MemoryNode := r.nodes.find? fun node => node.externalId = some eid

def findPlace (r : Roster) (threadId memoryId : Nat) : Option Place :=
  r.places.find? fun place => (place.threadId, place.memoryId) = (threadId, memoryId)

/-- The memory with the external id, and its position if it is attached to the thread. -/
def existing (r : Roster) (threadId : Nat) (eid : String) : Option (MemoryNode × Option Nat) :=
  if eid.isEmpty then none
  else (r.findNode eid).map fun node => (node, (r.findPlace threadId node.id).map Place.position)

/-- The memory with the external id, if it is attached to the thread. -/
def attachedId (r : Roster) (threadId : Nat) (eid : String) : Option Nat :=
  (r.existing threadId eid).bind fun found => found.2.map fun _ => found.1.id

/-- The position after the last. -/
def nextPosition (r : Roster) (threadId : Nat) : Nat :=
  (((r.places.filter (fun place => place.threadId = threadId)).map fun place => place.position + 1).max?).getD 0

end Roster

/-! ## Entries -/

/-- An entry of the batch, what it came to, and the parents that come later. -/
structure BatchEntry where
  item : BatchMemoryInput
  outcome : AddMemoryOutcome
  pending : List String
  deriving DecidableEq, Repr

namespace BatchEntry

/-- The memory the entry adds. -/
def node? (entry : BatchEntry) : Option MemoryNode :=
  if entry.outcome.created then
    some ⟨entry.outcome.memoryId, entry.outcome.resolvedParentIds, entry.item.memory.externalId,
      entry.item.memory.userId.getD 0⟩
  else none

/-- The attachment the entry adds. -/
def place? (threadId : Nat) (entry : BatchEntry) : Option Place :=
  if entry.outcome.created then some ⟨threadId, entry.outcome.memoryId, entry.outcome.position⟩ else none

/-- With the parents that had no id before, if the memory is new. -/
def completed (named : String → Option Nat) (entry : BatchEntry) : BatchEntry :=
  if entry.outcome.created then
    { entry with
        outcome := { entry.outcome with
          resolvedParentIds := entry.outcome.resolvedParentIds ++
            distinct ((entry.pending.filterMap named).filter (· ∉ entry.outcome.resolvedParentIds)) } }
  else entry

end BatchEntry

/-- The id of the entry with the external id; the last one counts. -/
def assigned : List BatchEntry → String → Option Nat
  | [], _ => none
  | entry :: rest, eid =>
    (assigned rest eid).or (if entry.item.externalId? = some eid then some entry.outcome.memoryId else none)

theorem assigned_append : ∀ (before after : List BatchEntry) (eid : String),
    assigned (before ++ after) eid = (assigned after eid).or (assigned before eid)
  | [], after, eid => by rw [List.nil_append, assigned, Option.or_none]
  | entry :: before, after, eid => by
    rw [List.cons_append, assigned, assigned, assigned_append before after eid, Option.or_assoc]

theorem assigned_concat (before : List BatchEntry) (entry : BatchEntry) (eid : String) :
    assigned (before ++ [entry]) eid =
      if entry.item.externalId? = some eid then some entry.outcome.memoryId else assigned before eid := by
  rw [assigned_append, assigned, assigned, Option.none_or]
  split
  · rw [Option.some_or]
  · rw [Option.none_or]

theorem exists_of_assigned {eid : String} {id : Nat} : ∀ {entries : List BatchEntry}, assigned entries eid = some id →
    ∃ entry ∈ entries, entry.item.externalId? = some eid ∧ entry.outcome.memoryId = id
  | [], h => by simp [assigned] at h
  | entry :: rest, h => by
    rw [assigned, Option.or_eq_some_iff] at h
    rcases h with h | ⟨-, h⟩
    · obtain ⟨e, he, hspec⟩ := exists_of_assigned h
      exact ⟨e, List.mem_cons_of_mem _ he, hspec⟩
    · split at h
      · next heid => exact ⟨entry, List.mem_cons_self, heid, Option.some.inj h⟩
      · simp at h

/-- Of entries with different external ids, each has the id it is looked up by. -/
theorem assigned_of_mem {eid : String} {entry : BatchEntry} : ∀ {entries : List BatchEntry},
    (entries.map fun e => e.item.externalId?).Nodup → entry ∈ entries → entry.item.externalId? = some eid →
      assigned entries eid = some entry.outcome.memoryId
  | [], _, h, _ => absurd h List.not_mem_nil
  | first :: rest, hnodup, h, heid => by
    rw [List.map_cons, List.nodup_cons] at hnodup
    rw [assigned]
    rcases List.mem_cons.1 h with rfl | h
    · have hnone : assigned rest eid = none := by
        rw [Option.eq_none_iff_forall_ne_some]
        intro id hid
        obtain ⟨e, he, hee, -⟩ := exists_of_assigned hid
        exact hnodup.1 (List.mem_map.2 ⟨e, he, hee.trans heid.symm⟩)
      rw [hnone, if_pos heid, Option.none_or]
    · rw [assigned_of_mem hnodup.2 h heid, Option.some_or]

namespace Roster

/-- The memory an external id names: an entry's, or one that was attached before. -/
def named (r : Roster) (threadId : Nat) (entries : List BatchEntry) (eid : String) : Option Nat :=
  (assigned entries eid).or (r.attachedId threadId eid)

/-- The roster with what the entries add. -/
def written (r : Roster) (threadId : Nat) (entries : List BatchEntry) : Roster where
  nextId := r.nextId + entries.countP fun entry => entry.outcome.created
  nodes := r.nodes ++ entries.filterMap BatchEntry.node?
  places := r.places ++ entries.filterMap (BatchEntry.place? threadId)

/-- An entry after those before it. -/
def entry (r : Roster) (threadId : Nat) (batchEids : List String) (before : List BatchEntry)
    (item : BatchMemoryInput) : BatchEntry where
  item := item
  pending := item.parentExternalIds.filter fun eid => (r.named threadId before eid).isNone && eid ∈ batchEids
  outcome :=
    let resolved := distinct (item.parentExternalIds.filterMap (r.named threadId before))
    match item.externalId?.bind (r.existing threadId) with
    | some (node, position) => ⟨node.id, false, position.getD 0, node.parentIds.isEmpty, resolved⟩
    | none =>
      ⟨(r.written threadId before).nextId, true, (r.written threadId before).nextPosition threadId, false, resolved⟩

/-- The entries of a batch, one after the other. -/
def entries (r : Roster) (threadId : Nat) (batchEids : List String) (items : List BatchMemoryInput) : List BatchEntry :=
  items.foldl (fun before item => before ++ [r.entry threadId batchEids before item]) []

/-- The entries when the forward references are resolved. -/
def imported (r : Roster) (threadId : Nat) (batchEids : List String) (items : List BatchMemoryInput) :
    List BatchEntry :=
  (r.entries threadId batchEids items).map
    (BatchEntry.completed (r.named threadId (r.entries threadId batchEids items)))

end Roster

end MemoryStore.Conversation
