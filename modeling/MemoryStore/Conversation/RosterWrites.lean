/-
The writes of an import on the roster of the database: what it inserts and
attaches, and what it leaves alone.
-/
import MemoryStore.Conversation.Imported
import MemoryStore.Conversation.StepSpec
import MemoryStore.Conversation.WiringSpec

namespace MemoryStore.Conversation

open Table

/-! ## The roster of a database -/

def MemoryRow.node (row : MemoryRow) : MemoryNode :=
  ⟨row.id, row.data.parentIds, row.data.externalId, row.data.userId.getD 0⟩

def ThreadMemoryRow.place (row : ThreadMemoryRow) : Place := ⟨row.threadId, row.memoryId, row.position⟩

/-- What an import reads of the database. -/
def Store.roster (s : Store) : Roster := ⟨s.nextId, s.memories.map MemoryRow.node, s.threadMemories.map ThreadMemoryRow.place⟩

/-- What the resolution of a thread reads of one. -/
def ThreadRow.key (row : ThreadRow) : Nat × Option String × Int × Int := (row.id, row.channel, row.userId, row.memoryKind)

variable {s s' : Store} {threadId : Nat}

theorem Store.roster_findNode (s : Store) (eid : String) :
    s.roster.findNode eid = (s.findByExternalId eid).map MemoryRow.node := by
  unfold Roster.findNode Store.roster Store.findByExternalId
  rw [List.find?_map]
  rfl

theorem Store.roster_findPlace (s : Store) (threadId memoryId : Nat) :
    s.roster.findPlace threadId memoryId = (s.findAttachment threadId memoryId).map ThreadMemoryRow.place := by
  unfold Roster.findPlace Store.roster Store.findAttachment
  rw [List.find?_map]
  rfl

theorem Store.roster_nextPosition (s : Store) (threadId : Nat) :
    s.roster.nextPosition threadId = s.nextPosition threadId := by
  unfold Roster.nextPosition Store.roster Store.nextPosition
  rw [List.filter_map, List.map_map]
  rfl

theorem Store.position_eq (s : Store) (threadId memoryId : Nat) :
    (s.findAttachment threadId memoryId).map ThreadMemoryRow.position =
      (s.roster.findPlace threadId memoryId).map Place.position := by
  rw [roster_findPlace, Option.map_map]
  rfl

theorem Store.roster_existing (s : Store) (threadId : Nat) (eid : String) :
    s.roster.existing threadId eid =
      (s.existingByEid threadId eid).map fun found => (found.1.node, found.2) := by
  unfold Roster.existing Store.existingByEid
  split
  · rfl
  · rw [roster_findNode, Option.map_map, Option.map_map]
    refine congrFun (congrArg _ (funext fun row => ?_)) _
    exact Prod.ext rfl (s.position_eq threadId row.id).symm

/-- Looking a key up among the pairs made of the keys of a list. -/
theorem lookup_filterMap_self {f : String → Option Nat} {eid : String} : ∀ {eids : List String}, eid ∈ eids →
    (eids.filterMap fun eid => (f eid).map fun id => (eid, id)).lookup eid = f eid
  | first :: rest, h => by
    by_cases hfirst : first = eid
    · subst hfirst
      cases hf : f first with
      | some id => rw [List.filterMap_cons_some (by rw [hf]; rfl)]; simp
      | none =>
        rw [List.filterMap_cons_none (by rw [hf]; rfl)]
        by_cases hrest : first ∈ rest
        · rw [lookup_filterMap_self hrest, hf]
        · rw [List.lookup_eq_none_iff]
          intro p hp
          obtain ⟨other, hother, hpair⟩ := List.mem_filterMap.1 hp
          obtain ⟨id, -, rfl⟩ := Option.map_eq_some_iff.1 hpair
          exact bne_iff_ne.2 fun heq : first = other => hrest (heq.symm ▸ hother)
    · have hrest : eid ∈ rest := (List.mem_cons.1 h).resolve_left (Ne.symm hfirst)
      cases hf : f first with
      | some id =>
        rw [List.filterMap_cons_some (by rw [hf]; rfl), List.lookup_cons, beq_false_of_ne (Ne.symm hfirst),
          lookup_filterMap_self hrest]
      | none => rw [List.filterMap_cons_none (by rw [hf]; rfl), lookup_filterMap_self hrest]

/-- The ids an import starts from are those of the attached memories it asks for. -/
theorem Store.lookup_attachedEids (s : Store) (threadId : Nat) {memories : List BatchMemoryInput} {eid : String}
    (h : eid ∈ wantedEids memories) :
    (s.attachedEids threadId memories).lookup eid = s.roster.attachedId threadId eid := by
  rw [← lookup_filterMap_self (f := s.roster.attachedId threadId) h]
  refine congrArg _ (List.filterMap_congr fun eid _ => ?_)
  rw [Roster.attachedId, roster_existing]
  cases s.existingByEid threadId eid with
  | none => rfl
  | some found => obtain ⟨row, position⟩ := found; cases position <;> rfl

/-! ## Writes that leave the roster alone -/

/-- The roster is the same, and so are the keys of the threads. -/
def Store.SameRoster (s s' : Store) : Prop :=
  s'.roster = s.roster ∧ s'.threads.map ThreadRow.key = s.threads.map ThreadRow.key

instance : Std.Refl Store.SameRoster := ⟨fun _ => ⟨rfl, rfl⟩⟩

instance : IsTrans Store Store.SameRoster := ⟨fun _ _ _ h h' => ⟨h'.1.trans h.1, h'.2.trans h.2⟩⟩

theorem Store.SameRoster.modifyMedia (s : Store) (id : Nat) (g : MediaObjectRow → Bool)
    (f : MediaObjectRow → MediaObjectRow) : s.SameRoster (s.modifyMedia id g f) := ⟨rfl, rfl⟩

theorem Store.SameRoster.addLabel (s : Store) (now : Int) (threadId : Nat) (label : String) :
    s.SameRoster (s.addLabel now threadId label) := by
  unfold Store.addLabel
  split
  · exact refl_of _ _
  · exact ⟨rfl, rfl⟩

theorem Store.SameRoster.setMessageBounds (s : Store) (now : Int) (id : Nat) (bounds : Option Int × Option Int) :
    s.SameRoster (s.setMessageBounds now id bounds) := by
  refine ⟨rfl, ?_⟩
  unfold Store.setMessageBounds Store.modifyThreads
  refine map_modifyWhere (fun _ _ => ?_) _
  rfl

/-- An update of a memory that keeps its parents, its author and its name. -/
theorem Store.SameRoster.modifyMemory (s : Store) (id : Nat) {f : MemoryData → MemoryData}
    (hf : ∀ data, (f data).parentIds = data.parentIds ∧ (f data).externalId = data.externalId ∧
      (f data).userId = data.userId) : s.SameRoster (s.modifyMemory id f) := by
  refine ⟨?_, rfl⟩
  have hnodes : (s.modifyMemory id f).memories.map MemoryRow.node = s.memories.map MemoryRow.node := by
    unfold Store.modifyMemory
    refine map_modifyWhere (fun row _ => ?_) _
    obtain ⟨hparents, hname, hauthor⟩ := hf row.data
    simp only [MemoryRow.node, hparents, hname, hauthor]
  unfold Store.roster
  rw [hnodes]
  rfl

/-- Attaching what is attached. -/
theorem Store.attach_of_placed {now : Int} {memoryId : Nat} (h : (s.roster.findPlace threadId memoryId).isSome) :
    s.attach now threadId memoryId = s := by
  rw [roster_findPlace, Option.isSome_map] at h
  rw [Store.attach, if_pos h]

/-- Attaching what is not puts it after the last position. -/
theorem Store.roster_attach {now : Int} {memoryId : Nat} (h : (s.findAttachment threadId memoryId).isNone) :
    (s.attach now threadId memoryId).roster =
      { s.roster with places := s.roster.places ++ [⟨threadId, memoryId, s.roster.nextPosition threadId⟩] } := by
  rw [Store.attach, if_neg (by simpa using h), roster_nextPosition]
  simp [Store.roster, ThreadMemoryRow.place]

/-! ## A new memory -/

/-- With an attached memory for every parent, attaching them changes nothing. -/
theorem attachAll_placed (now : Int) : ∀ {parents : List Nat},
    (∀ parent ∈ parents, (s.roster.findPlace threadId parent).isSome) →
      (Tx.forEach parents fun parent => insertOrIgnoreAutoPosition now threadId parent) s = .ok ((), s)
  | [], _ => rfl
  | parent :: parents, h => by
    have hattach : s.attach now threadId parent = s := Store.attach_of_placed (h parent List.mem_cons_self)
    show (Tx.forEach parents fun parent => insertOrIgnoreAutoPosition now threadId parent)
      (s.attach now threadId parent) = _
    rw [hattach]
    exact attachAll_placed now fun parent hp => h parent (List.mem_cons_of_mem _ hp)

theorem Store.roster_insertMemory (s : Store) (now : Int) (data : MemoryData) :
    (({ s with nextId := s.nextId + 1 } : Store).insertMemory s.nextId (data.inserted now)).roster =
      ⟨s.nextId + 1, s.roster.nodes ++ [⟨s.nextId, data.parentIds, data.externalId, data.userId.getD 0⟩],
        s.roster.places⟩ := by
  have hauthor : (data.inserted now).userId.getD 0 = data.userId.getD 0 := by
    unfold MemoryData.inserted
    dsimp only
    split
    · next hzero => exact hzero.symm
    · rfl
  simp only [Store.roster, Store.insertMemory, List.map_append, List.map_cons, List.map_nil, MemoryRow.node, hauthor]
  rfl

theorem normalizeMemoryForCreate_wp [Deployment] (memory : MemoryData) (operation : String) :
    Tx.wp (normalizeMemoryForCreate memory operation)
      (fun memory' s' => s' = s ∧ ∃ memoryKind, memory' = { memory with memoryKind }) Fails s := by
  unfold normalizeMemoryForCreate
  rw [Tx.wp_bind]
  exact (resolveCreatedKind_checks _ _).then fun kind => ⟨rfl, kind, rfl⟩

/-- **A new memory** is numbered on, has the parents it was given and comes last in its thread. -/
theorem addMemoryCore_roster [Deployment] (now : Int) (threadId : Nat) (memory : MemoryData)
    (hparents : ∀ parent ∈ memory.parentIds, (s.roster.findPlace threadId parent).isSome) :
    Tx.wp (addMemoryCore now threadId memory true)
      (fun answer s' => answer.1 = s.nextId ∧
        s'.threads.map ThreadRow.key = s.threads.map ThreadRow.key ∧
        s'.roster = ⟨s.nextId + 1,
          s.roster.nodes ++ [⟨s.nextId, memory.parentIds, memory.externalId, memory.userId.getD 0⟩],
          s.roster.places ++ [⟨threadId, s.nextId, s.roster.nextPosition threadId⟩]⟩ ∧
        (s'.findAttachment threadId s.nextId).map ThreadMemoryRow.position = some (s.roster.nextPosition threadId))
      Fails s := by
  unfold addMemoryCore
  rw [Tx.wp_bind, Tx.wp_get]
  split
  · exact trivial
  · next thread hfind =>
    rw [Tx.wp_bind]
    refine (normalizeMemoryForCreate_wp memory _).imp fun _ s₁ hout => ?_
    obtain ⟨he, memoryKind, hmemory⟩ := hout
    subst he hmemory
    rw [Tx.wp_bind]
    refine (validateMemoryKindMatchesThread_checks _ _).then fun _ => ?_
    rw [Tx.wp_bind]
    refine (validateParents_eq thread.memoryKind (s₁.findByIds memory.parentIds) s₁).imp fun _ s₂ hout => ?_
    obtain ⟨he, _⟩ := hout
    subst he
    rw [Tx.wp_bind, Tx.wp_ensure]
    refine ⟨fun _ => ?_, fun _ => trivial⟩
    rw [Tx.wp_bind]
    unfold injectedDefault
    simp only [Bool.not_true, Bool.false_and, Bool.false_eq_true, if_false, Tx.wp_pure, Option.toList_none,
      List.nil_append]
    rw [Tx.wp_bind]
    refine Tx.wp_of_ok (attachAll_placed now fun parent hp => hparents parent (List.mem_filter.1 hp).1) ?_
    rw [Tx.wp_bind]
    refine (linkMedia_does Store.SameRoster.modifyMedia now memory.mediaObjectId s₂).imp fun _ s₃ hout => ?_
    obtain ⟨hroster, hkeys⟩ := hout
    unfold insertMemory generateId insertAutoPosition
    simp only [Tx.wp_bind, Tx.wp_reads, Tx.wp_writes, Tx.wp_pure, Tx.wp_get, Tx.wp_ensure]
    refine ⟨fun _ => ⟨fun hnone => ?_, fun _ => trivial⟩, fun _ => trivial⟩
    have hinserted := s₃.roster_insertMemory now { memory with memoryKind }
    rw [hroster] at hinserted
    have hnext : s₃.nextId = s₂.nextId := congrArg Roster.nextId hroster
    rw [hnext] at hnone hinserted ⊢
    refine ⟨rfl, ?_, ?_, ?_⟩
    · rw [Store.attach_threads]
      exact hkeys
    · rw [Store.roster_attach hnone, hinserted]
      rfl
    · have hfree : s₂.roster.places.find? (fun place => (place.threadId, place.memoryId) = (threadId, s₂.nextId)) = none := by
        have hfind := Store.roster_findPlace _ threadId s₂.nextId ▸ congrArg (Option.map ThreadMemoryRow.place)
          (Option.isNone_iff_eq_none.1 hnone)
        rw [hinserted] at hfind
        exact hfind
      rw [Store.position_eq, Store.roster_attach hnone, hinserted, Roster.findPlace]
      dsimp only
      rw [List.find?_append, hfree]
      simp only [List.find?_cons, decide_true, Option.none_or, Option.map_some]
      rfl

end MemoryStore.Conversation
