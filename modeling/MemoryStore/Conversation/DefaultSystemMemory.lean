/-
The default system memory of a thread: checked where it is set, and to be in
order for as long as it is set. `delete_memory` clears it from every thread;
`update_memory` does not look, and may take the role from it.
-/
import MemoryStore.Lib.Run
import MemoryStore.Conversation.ResolvedParents

namespace MemoryStore.Conversation

/-- Every default system memory is what `validate_default_system_memory_id_tx`
asked for, and is attached to its thread. -/
def Store.DefaultsValid (s : Store) : Prop :=
  ∀ thread ∈ s.threads, ∀ id, thread.defaultSystemMemoryId = some id →
    (∃ memory, s.findMemory id = some memory ∧ memory.data.role = roleSystem ∧
      effectiveKind memory.data.memoryKind = effectiveKind thread.memoryKind) ∧ s.Attached thread.id id

/-- The call gives the default system memory of no thread another role. -/
def Operation.KeepsDefaults (s : Store) (call : Int × Operation) : Prop :=
  match call.2 with
  | .updateMemory _ id (some w) => w.role = roleSystem ∨
      ∀ thread ∈ s.threads, thread.defaultSystemMemoryId ≠ some id
  | _ => True

variable {s : Store}

theorem Operation.KeepsDefaults.wires {call : Int × Operation} (h : Operation.KeepsDefaults s call) :
    call.2.Wires ⟨Set.univ, ∅, ∅⟩ s := by
  obtain ⟨now, op⟩ := call
  cases op with
  | updateMemory groups id memory =>
    rintro w rfl
    exact h.imp_right fun hn thread ht hd => absurd hd (hn thread ht)
  | updateMemoryParentIdsWithGuards threadId memoryId newParentIds whenShared whenNonEmpty =>
    exact fun _ hn => absurd (Set.mem_univ threadId) hn
  | _ => trivial

theorem Store.Wired.defaultsValid {kept : Set (Nat × Nat)} {x : Loose} (h : s.Wired kept x) (hx : x.unanchored = ∅) :
    s.DefaultsValid := by
  intro thread ht id hd
  obtain ⟨hattached, memory, hm, hid, hrole, hkind⟩ := h.defaults thread ht (by simp [hx]) id hd
  exact ⟨⟨memory, (Table.find?_eq_some_of_nodup h.memoryIds).2 ⟨hm, hid⟩, hrole, hkind⟩, hattached⟩

/-- **A default system memory is always a valid one**, in every state of a run
in which no update takes the role from one. -/
theorem default_system_memories_valid [Deployment]
    (h : Run.Reaches Operation.exec Operation.KeepsDefaults .empty s) : s.DefaultsValid := by
  have hs : s.Wired ∅ ⟨Set.univ, ∅, ∅⟩ :=
    Run.Reaches.invariant (I := Store.Wired ∅ ⟨Set.univ, ∅, ∅⟩) (fun _ _ hw ha => Operation.exec_wires hw ha.wires) h
      (Store.wired_empty.mono (Set.empty_subset _) (fun _ hk => hk) fun _ hk => hk)
  exact hs.defaultsValid rfl

/-- Any JSON document, and the compatibility flag on. -/
@[reducible] def permissive : Deployment := ⟨true, fun _ => true⟩

def memoryOf (role kind : Int) : MemoryData := ⟨[], some 1, "text", 1, none, none, 0, 0, role, none, none, kind⟩

def threadOf (defaultSystemMemoryId : Option Nat) (kind : Int) : ThreadData :=
  ⟨defaultSystemMemoryId, some 1, none, none, none, none, [], none, kind⟩

/-- A thread is given a default system memory, another, and loses it. -/
def defaultReplaced : List (Int × Operation) :=
  [(5, .createMemory .none (memoryOf 3 1)), (6, .createThread (threadOf (some 1) 1)),
    (7, .createMemory .none (memoryOf 3 1)), (8, .updateMemory .none 3 (some (memoryOf 3 1))),
    (9, .updateThread 2 (some (threadOf (some 3) 1))), (10, .updateMemory .none 1 (some (memoryOf 1 1))),
    (11, .deleteMemory 1)]

theorem default_system_memories_valid_defaultReplaced :
    (Run.execAll (@Operation.exec permissive) defaultReplaced .empty).DefaultsValid := by
  have hrun : Run.Allowed (@Operation.exec permissive) Operation.KeepsDefaults defaultReplaced .empty :=
    ⟨trivial, trivial, trivial, .inl rfl, trivial, .inr (by decide +kernel), trivial, trivial⟩
  exact @default_system_memories_valid _ permissive (Run.reaches_of_allowed hrun)

/-- The default system memory of a thread is made a user message. -/
def defaultDemoted : List (Int × Operation) :=
  [(5, .createMemory .none (memoryOf 3 1)), (6, .createThread (threadOf (some 1) 1)),
    (7, .updateMemory .none 1 (some (memoryOf 1 1)))]

theorem default_system_memory_demoted :
    ¬∀ s, Run.Reaches (@Operation.exec permissive) Run.anyAction .empty s → s.DefaultsValid := by
  intro h
  have hvalid := h (Run.execAll (@Operation.exec permissive) defaultDemoted .empty)
    (Run.reaches_execAll (fun _ _ _ => trivial) _)
  have hthread : ∃ thread ∈ (Run.execAll (@Operation.exec permissive) defaultDemoted .empty).threads,
      thread.defaultSystemMemoryId = some 1 := by decide +kernel
  obtain ⟨thread, ht, hd⟩ := hthread
  obtain ⟨⟨memory, hfind, hrole, -⟩, -⟩ := hvalid thread ht 1 hd
  have hdemoted : ((Run.execAll (@Operation.exec permissive) defaultDemoted .empty).findMemory 1).map
      (fun row => row.data.role) = some 1 := by decide +kernel
  rw [hfind] at hdemoted
  simp [hrole, roleSystem] at hdemoted

end MemoryStore.Conversation
