/-
Looking rows up after each write of the database, and what a write leaves of
the messages of a thread.
-/
import MemoryStore.Conversation.Operation

namespace MemoryStore.Conversation

open Table

/-! ## Validity -/

/-- What every committed state keeps: ids are unique and drawn from the counter,
`sha256` is unique, and the junction dangles at neither end. -/
structure Store.Valid (s : Store) : Prop where
  memoryIds : (s.memories.map MemoryRow.id).Nodup
  memoryId_lt : ∀ row ∈ s.memories, row.id < s.nextId
  threadIds : (s.threads.map ThreadRow.id).Nodup
  threadId_lt : ∀ row ∈ s.threads, row.id < s.nextId
  mediaIds : (s.mediaObjects.map MediaObjectRow.id).Nodup
  mediaId_lt : ∀ row ∈ s.mediaObjects, row.id < s.nextId
  sha256 : UniqueWhere (·.sha256.isSome) MediaObjectRow.sha256 s.mediaObjects
  attachedMemory : ∀ a ∈ s.threadMemories, (s.findMemory a.memoryId).isSome
  attachedThread : ∀ a ∈ s.threadMemories, (s.findThread a.threadId).isSome

theorem Store.valid_empty : Store.empty.Valid := by
  constructor <;> simp [Store.empty, UniqueWhere]

variable {s : Store}

theorem Store.Valid.findMemory_iff (hs : s.Valid) {id : Nat} {row : MemoryRow} :
    s.findMemory id = some row ↔ row ∈ s.memories ∧ row.id = id :=
  find?_eq_some_of_nodup hs.memoryIds

theorem Store.Valid.findThread_iff (hs : s.Valid) {id : Nat} {row : ThreadRow} :
    s.findThread id = some row ↔ row ∈ s.threads ∧ row.id = id :=
  find?_eq_some_of_nodup hs.threadIds

theorem Store.Valid.findMedia_iff (hs : s.Valid) {id : Nat} {row : MediaObjectRow} :
    s.findMedia id = some row ↔ row ∈ s.mediaObjects ∧ row.id = id :=
  find?_eq_some_of_nodup hs.mediaIds

theorem Store.findMemory_mem {id : Nat} {row : MemoryRow} (h : s.findMemory id = some row) :
    row ∈ s.memories ∧ row.id = id :=
  ⟨List.mem_of_find?_eq_some h, by simpa using List.find?_some h⟩

theorem Store.findThread_mem {id : Nat} {row : ThreadRow} (h : s.findThread id = some row) :
    row ∈ s.threads ∧ row.id = id :=
  ⟨List.mem_of_find?_eq_some h, by simpa using List.find?_some h⟩

theorem Store.findMedia_mem {id : Nat} {row : MediaObjectRow} (h : s.findMedia id = some row) :
    row ∈ s.mediaObjects ∧ row.id = id :=
  ⟨List.mem_of_find?_eq_some h, by simpa using List.find?_some h⟩

theorem Store.findMemory_isSome {id : Nat} : (s.findMemory id).isSome ↔ ∃ row ∈ s.memories, row.id = id := by
  simp [Store.findMemory]

theorem Store.findThread_isSome {id : Nat} : (s.findThread id).isSome ↔ ∃ row ∈ s.threads, row.id = id := by
  simp [Store.findThread]

theorem Store.findMedia_isSome {id : Nat} : (s.findMedia id).isSome ↔ ∃ row ∈ s.mediaObjects, row.id = id := by
  simp [Store.findMedia]

/-! ## Memories after a write -/

theorem Store.findMemory_insertMemory {id : Nat} {data : MemoryData} (hid : ∀ row ∈ s.memories, row.id ≠ id)
    (k : Nat) : (s.insertMemory id data).findMemory k = if k = id then some ⟨id, data⟩ else s.findMemory k :=
  find?_append_of_new MemoryRow.id ⟨id, data⟩ hid k

theorem Store.findMemory_modifyMemory (id : Nat) (f : MemoryData → MemoryData) (k : Nat) :
    (s.modifyMemory id f).findMemory k =
      (s.findMemory k).map fun row => if row.id = id then { row with data := f row.data } else row := by
  have h := find?_modifyWhere_key MemoryRow.id (p := fun row => row.id = id)
    (f := fun row => { row with data := f row.data }) (fun _ _ => rfl) k s.memories
  simp only [decide_eq_true_eq] at h
  exact h

theorem Store.findMemory_modifyMemory_ne {id k : Nat} (f : MemoryData → MemoryData) (hk : k ≠ id) :
    (s.modifyMemory id f).findMemory k = s.findMemory k := by
  rw [findMemory_modifyMemory]
  cases hfind : s.findMemory k with
  | none => rfl
  | some row =>
    have hrow : row.id ≠ id := by rw [(findMemory_mem hfind).2]; exact hk
    simp [hrow]

theorem Store.findMemory_isSome_modifyMemory (id : Nat) (f : MemoryData → MemoryData) (k : Nat) :
    ((s.modifyMemory id f).findMemory k).isSome = (s.findMemory k).isSome := by
  rw [findMemory_modifyMemory]
  simp

theorem Store.memoryIds_modifyMemory (id : Nat) (f : MemoryData → MemoryData) :
    (s.modifyMemory id f).memories.map MemoryRow.id = s.memories.map MemoryRow.id := by
  unfold Store.modifyMemory
  refine map_modifyWhere (fun _ _ => ?_) _
  rfl

theorem Store.threadIds_modifyThreads {p : ThreadRow → Bool} {f : ThreadRow → ThreadRow}
    (hf : ∀ row, p row = true → (f row).id = row.id) :
    (s.modifyThreads p f).threads.map ThreadRow.id = s.threads.map ThreadRow.id :=
  map_modifyWhere hf _

theorem Store.Valid.findMemory_deleteMemories (hs : s.Valid) (p : MemoryRow → Bool) (k : Nat) :
    (s.deleteMemories p).findMemory k = (s.findMemory k).filter fun row => !p row :=
  find?_filter_of_nodup hs.memoryIds _ k

theorem Store.mem_findByIds {ids : List Nat} {row : MemoryRow} :
    row ∈ s.findByIds ids ↔ row ∈ s.memories ∧ row.id ∈ ids := by
  simp [Store.findByIds, List.mem_insertionSort]

theorem Store.mem_memoryIdsByThread {threadId memoryId : Nat} :
    memoryId ∈ s.memoryIdsByThread threadId ↔
      ∃ a ∈ s.threadMemories, a.threadId = threadId ∧ a.memoryId = memoryId := by
  simp [Store.memoryIdsByThread, List.mem_insertionSort, and_assoc]

theorem Store.mem_affectedThreadIds {memoryId threadId : Nat} :
    threadId ∈ s.affectedThreadIds memoryId ↔
      (∃ row ∈ s.threads, row.defaultSystemMemoryId = some memoryId ∧ row.id = threadId) ∨
        ∃ a ∈ s.threadMemories, a.memoryId = memoryId ∧ a.threadId = threadId := by
  simp [Store.affectedThreadIds, Store.threadIdsByDefaultSystemMemory, Store.threadIdsByMemory,
    List.mem_insertionSort, List.mem_dedup, and_assoc]

theorem Store.unattached_iff {memoryId : Nat} :
    s.unattached memoryId = true ↔ ∀ a ∈ s.threadMemories, a.memoryId ≠ memoryId := by
  simp [Store.unattached]

/-! ## Threads after a write -/

theorem Store.findThread_insertThread {row : ThreadRow} (hid : ∀ r ∈ s.threads, r.id ≠ row.id) (k : Nat) :
    (s.insertThread row).findThread k = if k = row.id then some row else s.findThread k :=
  find?_append_of_new ThreadRow.id row hid k

theorem Store.findThread_modifyThreads {p : ThreadRow → Bool} {f : ThreadRow → ThreadRow}
    (hf : ∀ row, p row = true → (f row).id = row.id) (k : Nat) :
    (s.modifyThreads p f).findThread k = (s.findThread k).map fun row => if p row then f row else row :=
  find?_modifyWhere_key ThreadRow.id hf k s.threads

theorem Store.findThread_isSome_modifyThreads {p : ThreadRow → Bool} {f : ThreadRow → ThreadRow}
    (hf : ∀ row, p row = true → (f row).id = row.id) (k : Nat) :
    ((s.modifyThreads p f).findThread k).isSome = (s.findThread k).isSome := by
  rw [findThread_modifyThreads hf]
  simp

/-- An update that skips a thread leaves it. -/
theorem Store.findThread_modifyThreads_of_not {p : ThreadRow → Bool} {f : ThreadRow → ThreadRow}
    (hf : ∀ row, p row = true → (f row).id = row.id) {k : Nat} (hk : ∀ row ∈ s.threads, row.id = k → p row = false) :
    (s.modifyThreads p f).findThread k = s.findThread k := by
  rw [findThread_modifyThreads hf]
  cases hfind : s.findThread k with
  | none => rfl
  | some row =>
    obtain ⟨hmem, hid⟩ := findThread_mem hfind
    simp [hk row hmem hid]

theorem Store.Valid.findThread_deleteThread (hs : s.Valid) (id k : Nat) :
    (s.deleteThread id).findThread k = (s.findThread k).filter fun row => row.id ≠ id :=
  find?_filter_of_nodup hs.threadIds _ k

theorem Store.Valid.findThread_deleteThread_ne (hs : s.Valid) {id k : Nat} (hk : k ≠ id) :
    (s.deleteThread id).findThread k = s.findThread k := by
  rw [hs.findThread_deleteThread]
  cases hfind : s.findThread k with
  | none => rfl
  | some row =>
    have hrow : row.id ≠ id := by rw [(findThread_mem hfind).2]; exact hk
    simp [hrow]

/-! ## The junction after a write -/

@[simp] theorem Store.attach_memories (now : Int) (threadId memoryId : Nat) :
    (s.attach now threadId memoryId).memories = s.memories := by
  unfold Store.attach; split <;> rfl

@[simp] theorem Store.attach_threads (now : Int) (threadId memoryId : Nat) :
    (s.attach now threadId memoryId).threads = s.threads := by
  unfold Store.attach; split <;> rfl

@[simp] theorem Store.attach_mediaObjects (now : Int) (threadId memoryId : Nat) :
    (s.attach now threadId memoryId).mediaObjects = s.mediaObjects := by
  unfold Store.attach; split <;> rfl

@[simp] theorem Store.attach_nextId (now : Int) (threadId memoryId : Nat) :
    (s.attach now threadId memoryId).nextId = s.nextId := by
  unfold Store.attach; split <;> rfl

@[simp] theorem Store.findMemory_attach (now : Int) (threadId memoryId k : Nat) :
    (s.attach now threadId memoryId).findMemory k = s.findMemory k := by
  simp [Store.findMemory]

@[simp] theorem Store.findThread_attach (now : Int) (threadId memoryId k : Nat) :
    (s.attach now threadId memoryId).findThread k = s.findThread k := by
  simp [Store.findThread]

@[simp] theorem Store.findMedia_attach (now : Int) (threadId memoryId k : Nat) :
    (s.attach now threadId memoryId).findMedia k = s.findMedia k := by
  simp [Store.findMedia]

theorem Store.mem_attach {now : Int} {threadId memoryId : Nat} {a : ThreadMemoryRow}
    (h : a ∈ (s.attach now threadId memoryId).threadMemories) :
    a ∈ s.threadMemories ∨ a.threadId = threadId ∧ a.memoryId = memoryId := by
  unfold Store.attach at h
  split at h
  · exact .inl h
  · rcases List.mem_append.1 h with h | h
    · exact .inl h
    · obtain rfl := List.mem_singleton.1 h
      exact .inr ⟨rfl, rfl⟩

/-- The rows of the other threads are those they were. -/
theorem Store.filter_attach {now : Int} {threadId memoryId k : Nat} (hk : k ≠ threadId) :
    (s.attach now threadId memoryId).threadMemories.filter (fun a => a.threadId = k) =
      s.threadMemories.filter (fun a => a.threadId = k) := by
  unfold Store.attach
  split
  · rfl
  · simp [List.filter_append, Ne.symm hk]

/-! ## The messages of a thread -/

/-- When a memory was sent. -/
def Store.sentAt (s : Store) (memoryId : Nat) : Option Int := (s.findMemory memoryId).map fun row => row.data.createdAt

theorem Store.messageTimes_eq (threadId : Nat) :
    s.messageTimes threadId = (s.threadMemories.filter (fun a => a.threadId = threadId)).filterMap
      fun a => s.sentAt a.memoryId := rfl

/-- A thread with the same junction rows, whose memories were sent when they were, has the same messages. -/
theorem Store.messageTimes_congr {s' : Store} {threadId : Nat}
    (hrows : s'.threadMemories.filter (fun a => a.threadId = threadId) =
      s.threadMemories.filter (fun a => a.threadId = threadId))
    (hsent : ∀ a ∈ s.threadMemories, a.threadId = threadId → s'.sentAt a.memoryId = s.sentAt a.memoryId) :
    s'.messageTimes threadId = s.messageTimes threadId := by
  rw [messageTimes_eq, messageTimes_eq, hrows]
  refine List.filterMap_congr fun a ha => ?_
  obtain ⟨hmem, hthread⟩ := List.mem_filter.1 ha
  exact hsent a hmem (by simpa using hthread)

theorem Store.messageBounds_congr {s' : Store} {threadId : Nat}
    (h : s'.messageTimes threadId = s.messageTimes threadId) : s'.messageBounds threadId = s.messageBounds threadId := by
  rw [Store.messageBounds, Store.messageBounds, h]

/-- The thread ids outside `dirty` have the bounds of their messages. -/
def Store.BoundsExcept (s : Store) (dirty : Set Nat) : Prop :=
  ∀ row ∈ s.threads, row.id ∉ dirty → row.messageBounds = s.messageBounds row.id

end MemoryStore.Conversation
