/-
Which memories a thread holds, and of what kind. The junction, the kinds of its
two ends and the default system memories form one invariant, which every write
of a transaction keeps but for the exceptions its account names; a call may
open an exception while it runs, and has closed it when it commits.
-/
import MemoryStore.Conversation.StepSpec

namespace MemoryStore.Conversation

open Table

/-! ## What is held -/

/-- The memory is attached to the thread. -/
def Store.Attached (s : Store) (threadId memoryId : Nat) : Prop :=
  ∃ a ∈ s.threadMemories, a.threadId = threadId ∧ a.memoryId = memoryId

theorem Store.attached_iff {s : Store} {threadId memoryId : Nat} :
    s.Attached threadId memoryId ↔ (s.findAttachment threadId memoryId).isSome := by
  simp [Store.Attached, Store.findAttachment]

def MemoryRow.kind (row : MemoryRow) : Int := effectiveKind row.data.memoryKind

def ThreadRow.kind (row : ThreadRow) : Int := effectiveKind row.memoryKind

theorem effectiveKind_effectiveKind (kind : Int) : effectiveKind (effectiveKind kind) = effectiveKind kind := by
  unfold effectiveKind
  split
  · simp [kindRaw]
  · simp

/-- What the invariant reads of a memory, and of a thread. -/
def MemoryRow.wiring (row : MemoryRow) : Nat × Int × Int := (row.id, row.data.role, row.kind)

def ThreadRow.wiring (row : ThreadRow) : Nat × Option Nat × Int := (row.id, row.defaultSystemMemoryId, row.kind)

/-- The exceptions open at a point of a transaction. -/
structure Loose where
  /-- The threads that may hold memories of another kind. -/
  mixed : Set Nat
  /-- The threads whose default system memory is not vouched for. -/
  unanchored : Set Nat
  /-- The attachments taken apart, though both ends are still there. -/
  parted : Set (Nat × Nat)

/-- **The wiring of a state.** `kept` are the attachments that are to last as
long as the thread and the memory do. -/
structure Store.Wired (kept : Set (Nat × Nat)) (x : Loose) (s : Store) : Prop where
  memoryIds : (s.memories.map MemoryRow.id).Nodup
  memoryId_lt : ∀ row ∈ s.memories, row.id < s.nextId
  threadIds : (s.threads.map ThreadRow.id).Nodup
  threadId_lt : ∀ row ∈ s.threads, row.id < s.nextId
  attached_lt : ∀ a ∈ s.threadMemories, a.threadId < s.nextId ∧ a.memoryId < s.nextId
  homogeneous : ∀ a ∈ s.threadMemories, ∀ thread ∈ s.threads, thread.id = a.threadId → thread.id ∉ x.mixed →
    ∀ memory ∈ s.memories, memory.id = a.memoryId → memory.kind = thread.kind
  defaults : ∀ thread ∈ s.threads, thread.id ∉ x.unanchored → ∀ id, thread.defaultSystemMemoryId = some id →
    s.Attached thread.id id ∧ ∃ memory ∈ s.memories, memory.id = id ∧ memory.data.role = roleSystem ∧
      memory.kind = thread.kind
  kept_lt : ∀ pair ∈ kept, pair.1 < s.nextId ∧ pair.2 < s.nextId
  kept : ∀ pair ∈ kept, pair ∉ x.parted → s.Attached pair.1 pair.2 ∨ (∀ row ∈ s.threads, row.id ≠ pair.1) ∨
    ∀ row ∈ s.memories, row.id ≠ pair.2

theorem Store.wired_empty : Store.empty.Wired ∅ ⟨∅, ∅, ∅⟩ := by
  constructor <;> simp [Store.empty]

variable {s s' : Store} {kept : Set (Nat × Nat)} {x : Loose}

/-- Of the memories with one id there is one. -/
theorem Store.Wired.memory_eq (h : s.Wired kept x) {a b : MemoryRow} (ha : a ∈ s.memories) (hb : b ∈ s.memories)
    (he : a.id = b.id) : a = b := List.inj_on_of_nodup_map h.memoryIds ha hb he

theorem Store.Wired.thread_eq (h : s.Wired kept x) {a b : ThreadRow} (ha : a ∈ s.threads) (hb : b ∈ s.threads)
    (he : a.id = b.id) : a = b := List.inj_on_of_nodup_map h.threadIds ha hb he

/-- More exceptions may be open than are. -/
theorem Store.Wired.mono (h : s.Wired kept x) {y : Loose} (hm : x.mixed ⊆ y.mixed)
    (hd : x.unanchored ⊆ y.unanchored) (hp : x.parted ⊆ y.parted) : s.Wired kept y :=
  { h with
      homogeneous := fun a ha thread ht he hn => h.homogeneous a ha thread ht he fun hx => hn (hm hx)
      defaults := fun thread ht hn => h.defaults thread ht fun hx => hn (hd hx)
      kept := fun pair hk hn => h.kept pair hk fun hx => hn (hp hx) }

/-! ## Writes that leave the wiring alone -/

/-- The same memories, threads and attachments, as far as the invariant reads them. -/
structure Store.SameWiring (s s' : Store) : Prop where
  nextId : s.nextId ≤ s'.nextId
  memories : s'.memories.map MemoryRow.wiring = s.memories.map MemoryRow.wiring
  threads : s'.threads.map ThreadRow.wiring = s.threads.map ThreadRow.wiring
  threadMemories : s'.threadMemories = s.threadMemories

instance : Std.Refl Store.SameWiring := ⟨fun _ => ⟨Nat.le_refl _, rfl, rfl, rfl⟩⟩

instance : IsTrans Store Store.SameWiring :=
  ⟨fun _ _ _ h h' => ⟨Nat.le_trans h.nextId h'.nextId, h'.memories.trans h.memories, h'.threads.trans h.threads,
    h'.threadMemories.trans h.threadMemories⟩⟩

theorem Store.SameWiring.memory (h : s.SameWiring s') {row' : MemoryRow} (hrow : row' ∈ s'.memories) :
    ∃ row ∈ s.memories, row.id = row'.id ∧ row.data.role = row'.data.role ∧ row.kind = row'.kind := by
  have hw : row'.wiring ∈ s.memories.map MemoryRow.wiring := h.memories ▸ List.mem_map_of_mem hrow
  obtain ⟨row, hmem, he⟩ := List.mem_map.1 hw
  simp only [MemoryRow.wiring, Prod.mk.injEq] at he
  exact ⟨row, hmem, he⟩

theorem Store.SameWiring.thread (h : s.SameWiring s') {row' : ThreadRow} (hrow : row' ∈ s'.threads) :
    ∃ row ∈ s.threads, row.id = row'.id ∧ row.defaultSystemMemoryId = row'.defaultSystemMemoryId ∧
      row.kind = row'.kind := by
  have hw : row'.wiring ∈ s.threads.map ThreadRow.wiring := h.threads ▸ List.mem_map_of_mem hrow
  obtain ⟨row, hmem, he⟩ := List.mem_map.1 hw
  simp only [ThreadRow.wiring, Prod.mk.injEq] at he
  exact ⟨row, hmem, he⟩

theorem Store.SameWiring.memoryBack (h : s.SameWiring s') {row : MemoryRow} (hrow : row ∈ s.memories) :
    ∃ row' ∈ s'.memories, row'.id = row.id ∧ row'.data.role = row.data.role ∧ row'.kind = row.kind := by
  have hw : row.wiring ∈ s'.memories.map MemoryRow.wiring := h.memories.symm ▸ List.mem_map_of_mem hrow
  obtain ⟨row', hmem, he⟩ := List.mem_map.1 hw
  simp only [MemoryRow.wiring, Prod.mk.injEq] at he
  exact ⟨row', hmem, he⟩

theorem Store.SameWiring.memoryIds (h : s.SameWiring s') : s'.memories.map MemoryRow.id = s.memories.map MemoryRow.id := by
  have := congrArg (List.map Prod.fst) h.memories
  rwa [List.map_map, List.map_map] at this

theorem Store.SameWiring.threadIds (h : s.SameWiring s') : s'.threads.map ThreadRow.id = s.threads.map ThreadRow.id := by
  have := congrArg (List.map Prod.fst) h.threads
  rwa [List.map_map, List.map_map] at this

theorem Store.SameWiring.attached (h : s.SameWiring s') {threadId memoryId : Nat} :
    s'.Attached threadId memoryId ↔ s.Attached threadId memoryId := by
  rw [Store.Attached, Store.Attached, h.threadMemories]

theorem Store.Wired.same (h : s.Wired kept x) (hs : s.SameWiring s') : s'.Wired kept x where
  memoryIds := hs.memoryIds ▸ h.memoryIds
  memoryId_lt row' hrow := by
    obtain ⟨row, hmem, he, -⟩ := hs.memory hrow
    exact he ▸ Nat.lt_of_lt_of_le (h.memoryId_lt row hmem) hs.nextId
  threadIds := hs.threadIds ▸ h.threadIds
  threadId_lt row' hrow := by
    obtain ⟨row, hmem, he, -⟩ := hs.thread hrow
    exact he ▸ Nat.lt_of_lt_of_le (h.threadId_lt row hmem) hs.nextId
  attached_lt a ha := by
    have := h.attached_lt a (hs.threadMemories ▸ ha)
    have := hs.nextId
    omega
  homogeneous a ha thread' ht he hn memory' hm hid := by
    obtain ⟨thread, htm, hte, -, htk⟩ := hs.thread ht
    obtain ⟨memory, hmm, hme, -, hmk⟩ := hs.memory hm
    rw [← htk, ← hmk]
    exact h.homogeneous a (hs.threadMemories ▸ ha) thread htm (hte.trans he) (hte ▸ hn) memory hmm (hme.trans hid)
  defaults thread' ht hn id hd := by
    obtain ⟨thread, htm, hte, htd, htk⟩ := hs.thread ht
    obtain ⟨hattached, memory, hmm, hid, hrole, hkind⟩ := h.defaults thread htm (hte ▸ hn) id (htd.trans hd)
    obtain ⟨memory', hmm', hid', hrole', hkind'⟩ := hs.memoryBack hmm
    rw [hs.attached, ← hte, ← htk]
    exact ⟨hattached, memory', hmm', hid'.trans hid, hrole'.trans hrole, hkind'.trans hkind⟩
  kept_lt pair hp := by
    have := h.kept_lt pair hp
    have := hs.nextId
    omega
  kept pair hp hn := by
    rw [hs.attached]
    rcases h.kept pair hp hn with ha | ht | hm
    · exact .inl ha
    · refine .inr (.inl fun row' hrow => ?_)
      obtain ⟨row, hmem, he, -⟩ := hs.thread hrow
      exact he ▸ ht row hmem
    · refine .inr (.inr fun row' hrow => ?_)
      obtain ⟨row, hmem, he, -⟩ := hs.memory hrow
      exact he ▸ hm row hmem

theorem Store.SameWiring.modifyMedia (s : Store) (id : Nat) (g : MediaObjectRow → Bool)
    (f : MediaObjectRow → MediaObjectRow) : s.SameWiring (s.modifyMedia id g f) := ⟨Nat.le_refl _, rfl, rfl, rfl⟩

/-- An update of memories that keeps their role and their kind. -/
theorem Store.SameWiring.modifyMemory (s : Store) (id : Nat) {f : MemoryData → MemoryData}
    (hrole : ∀ data, (f data).role = data.role) (hkind : ∀ data, (f data).memoryKind = data.memoryKind) :
    s.SameWiring (s.modifyMemory id f) := by
  refine ⟨Nat.le_refl _, map_modifyWhere (fun row _ => ?_) _, rfl, rfl⟩
  simp [MemoryRow.wiring, MemoryRow.kind, hrole, hkind]

/-- An update of threads that keeps their default system memory and their kind. -/
theorem Store.SameWiring.modifyThreads (s : Store) (q : ThreadRow → Bool) {f : ThreadRow → ThreadRow}
    (hf : ∀ row, (f row).wiring = row.wiring) : s.SameWiring (s.modifyThreads q f) :=
  ⟨Nat.le_refl _, rfl, map_modifyWhere (fun row _ => hf row) _, rfl⟩

theorem Store.SameWiring.setLabels (s : Store) (labels : List ThreadLabelRow) :
    s.SameWiring { s with threadLabels := labels } := ⟨Nat.le_refl _, rfl, rfl, rfl⟩

theorem Store.SameWiring.addLabel (s : Store) (now : Int) (threadId : Nat) (label : String) :
    s.SameWiring (s.addLabel now threadId label) := by
  obtain ⟨labels, he⟩ := Store.addLabel_eq (s := s) now threadId label
  rw [he]
  exact Store.SameWiring.setLabels s labels

/-! ## Writes to memories -/

/-- A new memory is attached to nothing. -/
theorem Store.Wired.insertMemory (h : s.Wired kept x) (data : MemoryData) :
    ({ s with nextId := s.nextId + 1 }.insertMemory s.nextId data).Wired kept x where
  memoryIds := by
    show ((s.memories ++ [(⟨s.nextId, data⟩ : MemoryRow)]).map MemoryRow.id).Nodup
    simp only [List.map_append, List.map_cons, List.map_nil, List.nodup_append]
    refine ⟨h.memoryIds, by simp, ?_⟩
    intro a ha b hb he
    obtain ⟨row, hrow, rfl⟩ := List.mem_map.1 ha
    have := h.memoryId_lt row hrow
    have := List.mem_singleton.1 hb
    omega
  memoryId_lt row hrow := by
    rcases List.mem_append.1 hrow with hrow | hrow
    · exact Nat.lt_succ_of_lt (h.memoryId_lt row hrow)
    · obtain rfl := List.mem_singleton.1 hrow
      exact Nat.lt_succ_self _
  threadIds := h.threadIds
  threadId_lt row hrow := Nat.lt_succ_of_lt (h.threadId_lt row hrow)
  attached_lt a ha := ⟨Nat.lt_succ_of_lt (h.attached_lt a ha).1, Nat.lt_succ_of_lt (h.attached_lt a ha).2⟩
  homogeneous a ha thread ht he hn memory hm hid := by
    rcases List.mem_append.1 hm with hm | hm
    · exact h.homogeneous a ha thread ht he hn memory hm hid
    · obtain rfl := List.mem_singleton.1 hm
      have hlt := (h.attached_lt a ha).2
      rw [← hid] at hlt
      exact absurd hlt (Nat.lt_irrefl _)
  defaults thread ht hn id hd := by
    obtain ⟨hattached, memory, hm, hmemory⟩ := h.defaults thread ht hn id hd
    exact ⟨hattached, memory, List.mem_append_left _ hm, hmemory⟩
  kept_lt pair hp := ⟨Nat.lt_succ_of_lt (h.kept_lt pair hp).1, Nat.lt_succ_of_lt (h.kept_lt pair hp).2⟩
  kept pair hp hn := by
    rcases h.kept pair hp hn with ha | ht | hm
    · exact .inl ha
    · exact .inr (.inl ht)
    · refine .inr (.inr fun row hrow => ?_)
      rcases List.mem_append.1 hrow with hrow | hrow
      · exact hm row hrow
      · obtain rfl := List.mem_singleton.1 hrow
        exact (h.kept_lt pair hp).2.ne'

/-- An update may change the role only of what is no thread's default system memory. -/
theorem Store.Wired.modifyMemory (h : s.Wired kept x) {id : Nat} {f : MemoryData → MemoryData}
    (hkind : ∀ row ∈ s.memories, row.id = id → effectiveKind (f row.data).memoryKind = row.kind)
    (hrole : ∀ thread ∈ s.threads, thread.id ∉ x.unanchored → thread.defaultSystemMemoryId = some id →
      ∀ row ∈ s.memories, row.id = id → (f row.data).role = roleSystem) :
    (s.modifyMemory id f).Wired kept x := by
  have hback : ∀ row' ∈ (s.modifyMemory id f).memories, ∃ row ∈ s.memories, row.id = row'.id ∧ row.kind = row'.kind := by
    intro row' hrow
    obtain ⟨row, hmem, rfl⟩ := mem_modifyWhere.1 hrow
    refine ⟨row, hmem, ?_⟩
    split
    · next hid => exact ⟨rfl, (hkind row hmem (by simpa using hid)).symm⟩
    · exact ⟨rfl, rfl⟩
  refine { h with memoryIds := ?_, memoryId_lt := ?_, homogeneous := ?_, defaults := ?_, kept := ?_ }
  · rw [Store.memoryIds_modifyMemory]
    exact h.memoryIds
  · intro row' hrow
    obtain ⟨row, hmem, he, -⟩ := hback row' hrow
    exact he ▸ h.memoryId_lt row hmem
  · intro a ha thread ht he hn memory' hm hid
    obtain ⟨memory, hmem, hme, hmk⟩ := hback memory' hm
    rw [← hmk]
    exact h.homogeneous a ha thread ht he hn memory hmem (hme.trans hid)
  · intro thread ht hn d hd
    obtain ⟨hattached, memory, hm, hid, hmrole, hmkind⟩ := h.defaults thread ht hn d hd
    refine ⟨hattached, if memory.id = id then { memory with data := f memory.data } else memory,
      mem_modifyWhere.2 ⟨memory, hm, by simp⟩, ?_⟩
    split
    · next he =>
      refine ⟨hid, hrole thread ht hn (by rw [hd, ← hid, he]) memory hm he, ?_⟩
      exact (hkind memory hm he).trans hmkind
    · exact ⟨hid, hmrole, hmkind⟩
  · intro pair hp hn
    rcases h.kept pair hp hn with ha | ht | hm
    · exact .inl ha
    · exact .inr (.inl ht)
    · refine .inr (.inr fun row' hrow => ?_)
      obtain ⟨row, hmem, he, -⟩ := hback row' hrow
      exact he ▸ hm row hmem

/-- What is attached to no thread may go. -/
theorem Store.Wired.deleteMemories (h : s.Wired kept x) {q : MemoryRow → Bool}
    (hq : ∀ row ∈ s.memories, q row = true → s.unattached row.id = true) : (s.deleteMemories q).Wired kept x where
  memoryIds := h.memoryIds.sublist (List.filter_sublist.map _)
  memoryId_lt row hrow := h.memoryId_lt row (List.mem_filter.1 hrow).1
  threadIds := h.threadIds
  threadId_lt := h.threadId_lt
  attached_lt := h.attached_lt
  homogeneous a ha thread ht he hn memory hm := h.homogeneous a ha thread ht he hn memory (List.mem_filter.1 hm).1
  defaults thread ht hn id hd := by
    obtain ⟨⟨a, ha, hat, ham⟩, memory, hm, hid, hmemory⟩ := h.defaults thread ht hn id hd
    refine ⟨⟨a, ha, hat, ham⟩, memory, List.mem_filter.2 ⟨hm, ?_⟩, hid, hmemory⟩
    by_contra hc
    exact Store.unattached_iff.1 (hq memory hm (by simpa using hc)) a ha (ham.trans hid.symm)
  kept_lt := h.kept_lt
  kept pair hp hn := by
    rcases h.kept pair hp hn with ha | ht | hm
    · exact .inl ha
    · exact .inr (.inl ht)
    · exact .inr (.inr fun row hrow => hm row (List.mem_filter.1 hrow).1)

/-! ## Writes to the junction -/

theorem Store.attached_attach (now : Int) (threadId memoryId : Nat) :
    (s.attach now threadId memoryId).Attached threadId memoryId := by
  unfold Store.attach
  split
  · next h => exact Store.attached_iff.2 h
  · exact ⟨_, List.mem_append_right _ (List.mem_singleton.2 rfl), rfl, rfl⟩

theorem Store.Attached.attach {t m : Nat} (h : s.Attached t m) (now : Int) (threadId memoryId : Nat) :
    (s.attach now threadId memoryId).Attached t m := by
  obtain ⟨a, ha, he⟩ := h
  unfold Store.attach
  split
  · exact ⟨a, ha, he⟩
  · exact ⟨a, List.mem_append_left _ ha, he⟩

/-- A memory of the thread's kind may be attached. -/
theorem Store.Wired.attach (h : s.Wired kept x) (now : Int) {threadId memoryId : Nat} (hthread : threadId < s.nextId)
    (hmemory : memoryId < s.nextId)
    (hkind : threadId ∉ x.mixed → ∀ thread ∈ s.threads, thread.id = threadId →
      ∀ memory ∈ s.memories, memory.id = memoryId → memory.kind = thread.kind) :
    (s.attach now threadId memoryId).Wired kept x where
  memoryIds := by rw [Store.attach_memories]; exact h.memoryIds
  memoryId_lt := by rw [Store.attach_memories, Store.attach_nextId]; exact h.memoryId_lt
  threadIds := by rw [Store.attach_threads]; exact h.threadIds
  threadId_lt := by rw [Store.attach_threads, Store.attach_nextId]; exact h.threadId_lt
  attached_lt a ha := by
    rw [Store.attach_nextId]
    rcases Store.mem_attach ha with ha | ⟨rfl, rfl⟩
    · exact h.attached_lt a ha
    · exact ⟨hthread, hmemory⟩
  homogeneous a ha thread ht he hn memory hm hid := by
    rw [Store.attach_threads] at ht
    rw [Store.attach_memories] at hm
    rcases Store.mem_attach ha with ha | ⟨rfl, rfl⟩
    · exact h.homogeneous a ha thread ht he hn memory hm hid
    · exact hkind (he ▸ hn) thread ht he memory hm hid
  defaults thread ht hn id hd := by
    rw [Store.attach_threads] at ht
    rw [Store.attach_memories]
    obtain ⟨hattached, hmemory⟩ := h.defaults thread ht hn id hd
    exact ⟨hattached.attach now threadId memoryId, hmemory⟩
  kept_lt := by rw [Store.attach_nextId]; exact h.kept_lt
  kept pair hp hn := by
    rw [Store.attach_threads, Store.attach_memories]
    exact (h.kept pair hp hn).imp_left fun ha => ha.attach now threadId memoryId

/-- What goes leaves the threads it was a default of unanchored, and is to be accounted for. -/
theorem Store.Wired.detach (h : s.Wired kept x) (q : ThreadMemoryRow → Bool)
    (hd : ∀ a ∈ s.threadMemories, q a = true → ∀ thread ∈ s.threads, thread.id = a.threadId →
      thread.id ∉ x.unanchored → thread.defaultSystemMemoryId ≠ some a.memoryId)
    (hk : ∀ a ∈ s.threadMemories, q a = true → (a.threadId, a.memoryId) ∈ x.parted) : (s.detach q).Wired kept x := by
  refine { h with attached_lt := ?_, homogeneous := ?_, defaults := ?_, kept := ?_ }
  · intro a ha
    exact h.attached_lt a (List.mem_filter.1 ha).1
  · intro a ha
    exact h.homogeneous a (List.mem_filter.1 ha).1
  · intro thread ht hn id hid
    obtain ⟨⟨a, ha, hat, ham⟩, hmemory⟩ := h.defaults thread ht hn id hid
    refine ⟨⟨a, List.mem_filter.2 ⟨ha, ?_⟩, hat, ham⟩, hmemory⟩
    by_contra hc
    exact hd a ha (by simpa using hc) thread ht hat.symm hn (ham ▸ hid)
  · intro pair hp hn
    refine (h.kept pair hp hn).imp_left fun ⟨a, ha, hat, ham⟩ => ⟨a, List.mem_filter.2 ⟨ha, ?_⟩, hat, ham⟩
    by_contra hc
    have := hk a ha (by simpa using hc)
    rw [hat, ham] at this
    exact hn this

/-! ## Writes to threads -/

/-- A new thread holds no memory yet. -/
theorem Store.Wired.insertThread (h : s.Wired kept x) {r : ThreadRow} (hid : r.id = s.nextId)
    (hd : r.defaultSystemMemoryId = none ∨ r.id ∈ x.unanchored) :
    ({ s with nextId := s.nextId + 1 }.insertThread r).Wired kept x where
  memoryIds := h.memoryIds
  memoryId_lt row hrow := Nat.lt_succ_of_lt (h.memoryId_lt row hrow)
  threadIds := by
    show ((s.threads ++ [r]).map ThreadRow.id).Nodup
    simp only [List.map_append, List.map_cons, List.map_nil, List.nodup_append]
    refine ⟨h.threadIds, by simp, ?_⟩
    intro a ha b hb he
    obtain ⟨row, hrow, rfl⟩ := List.mem_map.1 ha
    have := h.threadId_lt row hrow
    have := List.mem_singleton.1 hb
    omega
  threadId_lt row hrow := by
    rcases List.mem_append.1 hrow with hrow | hrow
    · exact Nat.lt_succ_of_lt (h.threadId_lt row hrow)
    · obtain rfl := List.mem_singleton.1 hrow
      exact hid ▸ Nat.lt_succ_self _
  attached_lt a ha := ⟨Nat.lt_succ_of_lt (h.attached_lt a ha).1, Nat.lt_succ_of_lt (h.attached_lt a ha).2⟩
  homogeneous a ha thread ht he hn memory hm hmid := by
    rcases List.mem_append.1 ht with ht | ht
    · exact h.homogeneous a ha thread ht he hn memory hm hmid
    · obtain rfl := List.mem_singleton.1 ht
      have := (h.attached_lt a ha).1
      omega
  defaults thread ht hn id hdef := by
    rcases List.mem_append.1 ht with ht | ht
    · exact h.defaults thread ht hn id hdef
    · obtain rfl := List.mem_singleton.1 ht
      rcases hd with hd | hd
      · rw [hd] at hdef
        simp at hdef
      · exact absurd hd hn
  kept_lt pair hp := ⟨Nat.lt_succ_of_lt (h.kept_lt pair hp).1, Nat.lt_succ_of_lt (h.kept_lt pair hp).2⟩
  kept pair hp hn := by
    rcases h.kept pair hp hn with ha | ht | hm
    · exact .inl ha
    · refine .inr (.inl fun row hrow => ?_)
      rcases List.mem_append.1 hrow with hrow | hrow
      · exact ht row hrow
      · obtain rfl := List.mem_singleton.1 hrow
        exact hid ▸ (h.kept_lt pair hp).1.ne'
    · exact .inr (.inr hm)

/-- An update may drop a default system memory, or set one in a thread that is to be anchored. -/
theorem Store.Wired.modifyThreads (h : s.Wired kept x) {q : ThreadRow → Bool} {f : ThreadRow → ThreadRow}
    (hf : ∀ row, (f row).id = row.id) (hkind : ∀ row ∈ s.threads, q row = true → (f row).kind = row.kind)
    (hd : ∀ row ∈ s.threads, q row = true → (f row).defaultSystemMemoryId = none ∨ row.id ∈ x.unanchored) :
    (s.modifyThreads q f).Wired kept x := by
  have hback : ∀ row' ∈ (s.modifyThreads q f).threads, ∃ row ∈ s.threads, row.id = row'.id ∧ row.kind = row'.kind ∧
      (row'.defaultSystemMemoryId = row.defaultSystemMemoryId ∨ row'.defaultSystemMemoryId = none ∨
        row.id ∈ x.unanchored) := by
    intro row' hrow
    obtain ⟨row, hmem, rfl⟩ := mem_modifyWhere.1 hrow
    refine ⟨row, hmem, ?_⟩
    split
    · next hq => exact ⟨(hf row).symm, (hkind row hmem hq).symm, .inr (hd row hmem hq)⟩
    · exact ⟨rfl, rfl, .inl rfl⟩
  refine { h with threadIds := ?_, threadId_lt := ?_, homogeneous := ?_, defaults := ?_, kept := ?_ }
  · rw [Store.threadIds_modifyThreads fun row _ => hf row]
    exact h.threadIds
  · intro row' hrow
    obtain ⟨row, hmem, he, -⟩ := hback row' hrow
    exact he ▸ h.threadId_lt row hmem
  · intro a ha thread' ht he hn memory hm hid
    obtain ⟨thread, htm, hte, htk, -⟩ := hback thread' ht
    rw [← htk]
    exact h.homogeneous a ha thread htm (hte.trans he) (hte ▸ hn) memory hm hid
  · intro thread' ht hn id hid
    obtain ⟨thread, htm, hte, htk, hdef⟩ := hback thread' ht
    rw [← hte, ← htk]
    rcases hdef with hdef | hdef | hdef
    · exact h.defaults thread htm (hte ▸ hn) id (hdef ▸ hid)
    · rw [hdef] at hid
      simp at hid
    · exact absurd (hte ▸ hdef) hn
  · intro pair hp hn
    rcases h.kept pair hp hn with ha | ht | hm
    · exact .inl ha
    · refine .inr (.inl fun row' hrow => ?_)
      obtain ⟨row, hmem, he, -⟩ := hback row' hrow
      exact he ▸ ht row hmem
    · exact .inr (.inr hm)

theorem Store.Wired.deleteThread (h : s.Wired kept x) (id : Nat) : (s.deleteThread id).Wired kept x := by
  have hback : ∀ row ∈ (s.deleteThread id).threads, row ∈ s.threads := fun row hrow => (List.mem_filter.1 hrow).1
  exact { h with
    threadIds := h.threadIds.sublist (List.filter_sublist.map _)
    threadId_lt := fun row hrow => h.threadId_lt row (hback row hrow)
    homogeneous := fun a ha thread ht => h.homogeneous a ha thread (hback thread ht)
    defaults := fun thread ht => h.defaults thread (hback thread ht)
    kept := fun pair hp hn => (h.kept pair hp hn).imp_right (Or.imp_left fun ht row hrow => ht row (hback row hrow)) }

/-! ## Closing an exception -/

/-- A thread whose default system memory is in order is an exception no longer. -/
theorem Store.Wired.anchor (h : s.Wired kept x) {y : Loose} {id : Nat} (hx : x = { y with unanchored := insert id y.unanchored })
    (hd : ∀ thread ∈ s.threads, thread.id = id → ∀ d, thread.defaultSystemMemoryId = some d →
      s.Attached id d ∧ ∃ memory ∈ s.memories, memory.id = d ∧ memory.data.role = roleSystem ∧
        memory.kind = thread.kind) : s.Wired kept y := by
  subst hx
  refine { h with defaults := fun thread ht hn d hid => ?_ }
  by_cases he : thread.id = id
  · rw [he]
    exact hd thread ht he d hid
  · exact h.defaults thread ht (fun hc => hc.elim he hn) d hid

/-- What is parted of a thread or memory that is gone is an exception no longer. -/
theorem Store.Wired.gone (h : s.Wired kept x) {y : Loose} {parted : Set (Nat × Nat)}
    (hx : x = { y with parted := y.parted ∪ parted })
    (hp : ∀ pair ∈ parted, (∀ row ∈ s.threads, row.id ≠ pair.1) ∨ ∀ row ∈ s.memories, row.id ≠ pair.2) :
    s.Wired kept y := by
  subst hx
  refine { h with kept := fun pair hk hn => ?_ }
  by_cases hc : pair ∈ parted
  · exact .inr (hp pair hc)
  · exact h.kept pair hk fun hu => hu.elim hn hc

/-- An attachment that is there may be one of those to last. -/
theorem Store.Wired.keep (h : s.Wired kept x) {k : Set (Nat × Nat)}
    (ha : ∀ pair ∈ k, s.Attached pair.1 pair.2) : s.Wired (kept ∪ k) x := by
  refine { h with kept_lt := ?_, kept := ?_ }
  · rintro pair (hp | hp)
    · exact h.kept_lt pair hp
    · obtain ⟨a, hmem, hat, ham⟩ := ha pair hp
      rw [← hat, ← ham]
      exact h.attached_lt a hmem
  · rintro pair (hp | hp) hn
    · exact h.kept pair hp hn
    · exact .inl (ha pair hp)

end MemoryStore.Conversation
