/-
Threads hold memories of their own kind. Wherever a memory is attached its kind
has been checked against the thread's, but where `update_memory_parent_ids_with_guards`
attaches the new parents. What is resolved through a thread is attached to it,
and stays so while both are there.
-/
import MemoryStore.Conversation.DefaultSystemMemory

namespace MemoryStore.Conversation

/-- Every attached memory has the effective kind of the thread it is attached to. -/
def Store.Homogeneous (s : Store) : Prop :=
  ∀ a ∈ s.threadMemories, ∀ thread, s.findThread a.threadId = some thread →
    ∀ memory, s.findMemory a.memoryId = some memory →
      effectiveKind memory.data.memoryKind = effectiveKind thread.memoryKind

/-- A parent is attached, unless it or the thread is no longer there. -/
def Store.HoldsParent (s : Store) (threadId parentId : Nat) : Prop :=
  (s.findThread threadId).isSome → (s.findMemory parentId).isSome → s.Attached threadId parentId

/-- The call, run from `s`, has resolved the parents of the memory through the
thread: it has added the memory to the thread, alone or in a batch, or has
rewired it. -/
def Operation.Resolves [Deployment] (call : Int × Operation) (s : Store) (threadId memoryId : Nat) : Prop :=
  match call.2 with
  | .addMemory groups thread memory =>
    thread = threadId ∧ ∃ s', Conversation.addMemory call.1 groups thread memory s = .ok (memoryId, s')
  | .addMemoriesBatch answers input =>
    ∃ output s', Conversation.addMemoriesBatch call.1 answers input s = .ok (output, s') ∧ output.threadId = threadId ∧
      ∃ outcome ∈ output.outcomes, outcome.created = true ∧ outcome.memoryId = memoryId
  | .updateMemoryParentIdsWithGuards thread memory newParentIds whenShared whenNonEmpty =>
    thread = threadId ∧ memory = memoryId ∧ ∃ s', Conversation.updateMemoryParentIdsWithGuards call.1 thread memory newParentIds
      whenShared whenNonEmpty s = .ok (.rewired, s')
  | _ => False

/-- What the call rewires, it gives parents of the thread's kind. -/
def Operation.KeepsKinds (s : Store) (call : Int × Operation) : Prop :=
  match call.2 with
  | .updateMemoryParentIdsWithGuards threadId memoryId newParentIds whenShared whenNonEmpty =>
    s.Rewires threadId memoryId whenShared whenNonEmpty →
      ∀ thread ∈ s.threads, thread.id = threadId → ∀ memory ∈ s.memories, memory.id ∈ newParentIds →
        memory.kind = thread.kind
  | _ => True

variable {s : Store}

theorem Operation.KeepsKinds.wires {call : Int × Operation} (h : Operation.KeepsKinds s call) :
    call.2.Wires ⟨∅, Set.univ, ∅⟩ s := by
  obtain ⟨now, op⟩ := call
  cases op with
  | updateMemory groups id memory => exact fun _ _ => .inr fun thread _ _ => Set.mem_univ thread.id
  | updateMemoryParentIdsWithGuards threadId memoryId newParentIds whenShared whenNonEmpty => exact fun hr _ => h hr
  | _ => trivial

/-- Any call may be made where neither kinds nor defaults are vouched for. -/
theorem Operation.wires_univ (call : Int × Operation) : call.2.Wires ⟨Set.univ, Set.univ, ∅⟩ s := by
  obtain ⟨now, op⟩ := call
  cases op with
  | updateMemory groups id memory => exact fun _ _ => .inr fun thread _ _ => Set.mem_univ thread.id
  | updateMemoryParentIdsWithGuards threadId memoryId newParentIds whenShared whenNonEmpty =>
    exact fun _ hn => absurd (Set.mem_univ threadId) hn
  | _ => trivial

variable {kept : Set (Nat × Nat)} {x : Loose}

theorem Store.Wired.homogeneous_all (h : s.Wired kept x) (hx : x.mixed = ∅) : s.Homogeneous := by
  intro a ha thread ht memory hm
  obtain ⟨htm, hte⟩ := Store.findThread_mem ht
  obtain ⟨hmm, hme⟩ := Store.findMemory_mem hm
  exact h.homogeneous a ha thread htm hte (by simp [hx]) memory hmm hme

theorem Store.Wired.holdsParent (h : s.Wired kept x) (hx : x.parted = ∅) {threadId parentId : Nat}
    (hk : (threadId, parentId) ∈ kept) : s.HoldsParent threadId parentId := by
  intro ht hm
  obtain ⟨thread, htm, hte⟩ := Store.findThread_isSome.1 ht
  obtain ⟨memory, hmm, hme⟩ := Store.findMemory_isSome.1 hm
  rcases h.kept _ hk (by simp [hx]) with ha | hgone | hgone
  · exact ha
  · exact absurd hte (hgone thread htm)
  · exact absurd hme (hgone memory hmm)

section

variable [Deployment]

/-- What a call resolves is attached where it commits. -/
theorem Operation.Resolves.resolved (h : s.Wired kept ⟨Set.univ, Set.univ, ∅⟩) {call : Int × Operation}
    {threadId memoryId : Nat} (hr : Operation.Resolves call s threadId memoryId) :
    (Operation.exec call s).Resolved threadId memoryId := by
  obtain ⟨now, op⟩ := call
  cases op with
  | addMemory groups thread memory =>
    obtain ⟨rfl, s', hs'⟩ := hr
    have hrun : Operation.exec (now, .addMemory groups thread memory) s = s' := Tx.commit_bind_pure hs' _
    rw [hrun]
    exact ((addMemory_wires h now groups thread memory).ok hs').2
  | addMemoriesBatch answers input =>
    obtain ⟨output, s', hs', rfl, outcome, ho, hc, rfl⟩ := hr
    have hrun : Operation.exec (now, .addMemoriesBatch answers input) s = s' := Tx.commit_bind_pure hs' _
    rw [hrun]
    exact ((addMemoriesBatch_wires h now answers input).ok hs').2 outcome ho hc
  | updateMemoryParentIdsWithGuards thread memory newParentIds whenShared whenNonEmpty =>
    obtain ⟨rfl, rfl, s', hs'⟩ := hr
    have hrun : Operation.exec (now, .updateMemoryParentIdsWithGuards thread memory newParentIds whenShared
        whenNonEmpty) s = s' := Tx.commit_bind_pure hs' _
    rw [hrun]
    exact ((updateMemoryParentIdsWithGuards_wires h now thread memory newParentIds whenShared whenNonEmpty
      fun _ hn => absurd (Set.mem_univ thread) hn).ok hs').2 rfl
  | _ => exact hr.elim

/-- What a call resolves through a thread is attached when it commits, and from
then on until the thread or the parent is gone. -/
def Store.ParentsHeld (s : Store) : Prop :=
  ∀ call threadId memoryId, Operation.Resolves call s threadId memoryId →
    (Operation.exec call s).Resolved threadId memoryId ∧
      ∀ s', Run.Reaches Operation.exec Run.anyAction (Operation.exec call s) s' →
        ∀ row ∈ (Operation.exec call s).memories, row.id = memoryId → ∀ parent ∈ row.data.parentIds,
          ((Operation.exec call s).findMemory parent).isSome → s'.HoldsParent threadId parent

theorem wired_of_reaches {s' : Store} (h : s.Wired kept ⟨Set.univ, Set.univ, ∅⟩)
    (hr : Run.Reaches Operation.exec Run.anyAction s s') : s'.Wired kept ⟨Set.univ, Set.univ, ∅⟩ :=
  Run.Reaches.invariant (I := Store.Wired kept ⟨Set.univ, Set.univ, ∅⟩)
    (fun _ call hw _ => Operation.exec_wires hw (Operation.wires_univ call)) hr h

/-- Parents are held in every run, whatever it rewires. -/
theorem parents_held (h : Run.Reaches Operation.exec Run.anyAction .empty s) : s.ParentsHeld := by
  intro call threadId memoryId hres
  have hs : s.Wired ∅ ⟨Set.univ, Set.univ, ∅⟩ :=
    wired_of_reaches (Store.wired_empty.mono (Set.empty_subset _) (Set.empty_subset _) fun _ hk => hk) h
  have hresolved := hres.resolved hs
  refine ⟨hresolved, fun s' hr row hrow hid parent hp hsome => ?_⟩
  -- From the commit on, the attachment is one of those to be kept.
  have hkeep := (Operation.exec_wires hs (Operation.wires_univ call)).keep (k := {(threadId, parent)})
    fun pair hpair => by
      obtain rfl : pair = (threadId, parent) := hpair
      exact hresolved row hrow hid parent hp hsome
  exact (wired_of_reaches hkeep hr).holdsParent rfl (.inr rfl)

/-- **Threads are homogeneous in memory kind**, in every state of a run that
rewires no memory to parents of another kind; and resolved parents are held. -/
theorem threads_homogeneous (h : Run.Reaches Operation.exec Operation.KeepsKinds .empty s) :
    s.Homogeneous ∧ s.ParentsHeld := by
  have hs : s.Wired ∅ ⟨∅, Set.univ, ∅⟩ :=
    Run.Reaches.invariant (I := Store.Wired ∅ ⟨∅, Set.univ, ∅⟩) (fun _ _ hw ha => Operation.exec_wires hw ha.wires) h
      (Store.wired_empty.mono (fun _ hk => hk) (Set.empty_subset _) fun _ hk => hk)
  exact ⟨hs.homogeneous_all rfl, parents_held h.any⟩

end

/-- An entry of a batch. -/
def entryOf (externalId : String) (parentExternalIds : List String) : BatchMemoryInput :=
  ⟨{ memoryOf 1 1 with externalId := some externalId }, parentExternalIds⟩

/-- A thread with a default system memory, two imported messages of which the
first names the second as its parent, and a message rewired to them. -/
def threadFilled : List (Int × Operation) :=
  [(5, .createMemory .none (memoryOf 3 1)), (6, .createThread (threadOf (some 1) 1)),
    (7, .addMemory .none 2 (memoryOf 1 1)),
    (8, .addMemoriesBatch .none ⟨.existingThreadId 2, [entryOf "a" ["b"], entryOf "b" []], true, []⟩),
    (9, .updateMemoryParentIdsWithGuards 2 3 [4, 5] false true)]

theorem threads_homogeneous_threadFilled :
    (Run.execAll (@Operation.exec permissive) threadFilled .empty).Homogeneous ∧
      @Store.ParentsHeld permissive (Run.execAll (@Operation.exec permissive) threadFilled .empty) := by
  have hrun : Run.Allowed (@Operation.exec permissive) Operation.KeepsKinds threadFilled .empty :=
    ⟨trivial, trivial, trivial, trivial, fun _ => by decide +kernel, trivial⟩
  exact @threads_homogeneous _ permissive (Run.reaches_of_allowed hrun)

/-- A raw thread with a message, and a summary that becomes the message's parent. -/
def summaryAdopted : List (Int × Operation) :=
  [(5, .createThread (threadOf none 1)), (6, .addMemory .none 1 (memoryOf 1 1)),
    (7, .createMemory .none (memoryOf 1 2)), (8, .updateMemoryParentIdsWithGuards 1 2 [3] false false)]

theorem thread_mixed_by_rewiring :
    ¬∀ s, Run.Reaches (@Operation.exec permissive) Run.anyAction .empty s →
      s.Homogeneous ∧ @Store.ParentsHeld permissive s := by
  intro h
  have hhom := (h (Run.execAll (@Operation.exec permissive) summaryAdopted .empty)
    (Run.reaches_execAll (fun _ _ _ => trivial) _)).1
  have hmixed : ∃ a ∈ (Run.execAll (@Operation.exec permissive) summaryAdopted .empty).threadMemories,
      ((Run.execAll (@Operation.exec permissive) summaryAdopted .empty).findThread a.threadId).map ThreadRow.kind = some 1 ∧
        ((Run.execAll (@Operation.exec permissive) summaryAdopted .empty).findMemory a.memoryId).map MemoryRow.kind =
          some 2 := by decide +kernel
  obtain ⟨a, ha, ht, hm⟩ := hmixed
  obtain ⟨thread, ht, hkt⟩ := Option.map_eq_some_iff.1 ht
  obtain ⟨memory, hm, hkm⟩ := Option.map_eq_some_iff.1 hm
  have hkind : memory.kind = thread.kind := hhom a ha thread ht memory hm
  omega

end MemoryStore.Conversation
