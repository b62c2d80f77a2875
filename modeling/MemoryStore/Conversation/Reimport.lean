/-
An import, and the same import again. The second finds what the first has
written and writes nothing, and it answers the same parents, but for entries
that were there before: these the first call answers without the parents that
come later in the batch and are new, and the second with them.
-/
import MemoryStore.Conversation.Ancestors
import MemoryStore.Conversation.DefaultSystemMemory
import MemoryStore.Conversation.ImportCall

namespace MemoryStore.Conversation

/-! ## What an import promises -/

/-- The external id of a memory, if it is not empty. -/
def MemoryRow.externalId? (row : MemoryRow) : Option String := row.data.externalId.filter (!·.isEmpty)

/-- An external id names a memory of the batch, or one that was attached to the thread. -/
def Names (input : AddMemoriesBatchInput) (output : AddMemoriesBatchOutput) (s : Store) (eid : String) (id : Nat) :
    Prop :=
  (∃ item outcome, (item, outcome) ∈ input.memories.zip output.outcomes ∧ item.externalId? = some eid ∧
      outcome.memoryId = id) ∨
    ∃ row ∈ s.memories, row.externalId? = some eid ∧ row.id = id ∧ s.Attached output.threadId row.id

/-- The memories that were created. -/
def AddMemoriesBatchOutput.created (output : AddMemoriesBatchOutput) : List AddMemoryOutcome :=
  output.outcomes.filter fun outcome => outcome.created

/-- **What an import leaves**: the parents of the memories it created, and the places of its entries. -/
structure Settles (input : AddMemoriesBatchInput) (s : Store) (output : AddMemoriesBatchOutput) (s' : Store) :
    Prop where
  complete : output.suppressed = false → output.outcomes.length = input.memories.length
  parents : ∀ item outcome, (item, outcome) ∈ input.memories.zip output.outcomes → outcome.created = true →
    ∃ row ∈ s'.memories, row.id = outcome.memoryId ∧ row.data.parentIds.Nodup ∧
      ∀ id, id ∈ row.data.parentIds ↔ ∃ eid ∈ item.parentExternalIds, Names input output s eid id
  entries : ∀ outcome ∈ output.outcomes, ∃ a ∈ s'.threadMemories,
    a.threadId = output.threadId ∧ a.memoryId = outcome.memoryId ∧ a.position = outcome.position
  named : ∀ item ∈ input.memories, ∀ eid ∈ item.parentExternalIds, ∀ id, Names input output s eid id →
    s'.Attached output.threadId id
  once : (s'.threadMemories.map fun a => (a.threadId, a.memoryId)).Nodup
  distinct : (s'.threadMemories.map fun a => (a.threadId, a.position)).Nodup
  attached : s'.threadMemories.map ThreadMemoryRow.place = s.threadMemories.map ThreadMemoryRow.place ++
    output.created.map fun outcome => ⟨output.threadId, outcome.memoryId, outcome.position⟩
  ordered : output.created.map AddMemoryOutcome.position =
    (List.range output.created.length).map fun k => s.nextPosition output.threadId + k

/-- The same outcome, but that the memory is there now. -/
structure AddMemoryOutcome.Again (outcome outcome' : AddMemoryOutcome) : Prop where
  memoryId : outcome'.memoryId = outcome.memoryId
  position : outcome'.position = outcome.position
  created : outcome'.created = false
  parents : ∀ id, id ∈ outcome'.resolvedParentIds ↔ id ∈ outcome.resolvedParentIds

/-- **What the same import does again**, with upsert: it succeeds, writes no memory, parent or place, and
answers the same memories with the same parents. -/
def Repeats [Deployment] (answers : ImportAnswers) (input : AddMemoriesBatchInput) (output : AddMemoriesBatchOutput)
    (s' : Store) : Prop :=
  ∀ (now : Int) (mapped : Option Nat), MappedTo answers output.threadId mapped →
    ∃ output' s'', addMemoriesBatch now { answers with mappedThreadId := mapped }
        { input with upsertByExternalId := true } s' = .ok (output', s'') ∧
      s''.roster = s'.roster ∧ List.Forall₂ AddMemoryOutcome.Again output.outcomes output'.outcomes

/-- The entry's memory is there already. -/
def Store.Has (s : Store) (item : BatchMemoryInput) : Prop :=
  ∃ eid, item.externalId? = some eid ∧ ∃ row ∈ s.memories, row.data.externalId = some eid

/-- No entry of a memory that is there refers to a later entry of a memory that is not. -/
def Store.NoForward (s : Store) (memories : List BatchMemoryInput) : Prop :=
  memories.Pairwise fun item later => s.Has item → ¬s.Has later →
    ∀ eid, later.externalId? = some eid → eid ∉ item.parentExternalIds

/-- The unique index on external ids, besides the keys. -/
structure Store.Indexed (s : Store) : Prop extends s.Keyed where
  externalIds : Table.UniqueWhere (fun row => row.data.externalId.isSome) (fun row => row.data.externalId) s.memories

/-! ## The roster of a call -/

variable {s s' : Store} {input : AddMemoriesBatchInput} {output : AddMemoriesBatchOutput}

theorem Store.mem_roster_nodes {node : MemoryNode} : node ∈ s.roster.nodes ↔ ∃ row ∈ s.memories, row.node = node := by
  simp [Store.roster]

theorem Store.mem_roster_places {place : Place} :
    place ∈ s.roster.places ↔ ∃ a ∈ s.threadMemories, a.place = place := by
  simp [Store.roster]

theorem Store.attached_iff_place {threadId memoryId : Nat} : s.Attached threadId memoryId ↔
    ∃ place ∈ s.roster.places, place.threadId = threadId ∧ place.memoryId = memoryId := by
  constructor
  · intro ⟨a, ha, hspec⟩
    exact ⟨a.place, Store.mem_roster_places.2 ⟨a, ha, rfl⟩, hspec⟩
  · intro ⟨place, hplace, hspec⟩
    obtain ⟨a, ha, rfl⟩ := Store.mem_roster_places.1 hplace
    exact ⟨a, ha, hspec⟩

/-- A database with its keys has a roster with its keys. -/
theorem Store.Indexed.roster (hs : s.Indexed) (hv : s.Valid) : s.roster.Keyed where
  nodeIds := by
    simpa [Store.roster, List.map_map, Function.comp_def, MemoryRow.node] using hs.memoryIds
  nodeId_lt node hnode := by
    obtain ⟨row, hrow, rfl⟩ := Store.mem_roster_nodes.1 hnode
    exact hv.memoryId_lt row hrow
  externalIds node hnode node' hnode' eid heid heid' := by
    obtain ⟨row, hrow, rfl⟩ := Store.mem_roster_nodes.1 hnode
    obtain ⟨row', hrow', rfl⟩ := Store.mem_roster_nodes.1 hnode'
    have heid : row.data.externalId = some eid := heid
    have heid' : row'.data.externalId = some eid := heid'
    have hsame := List.inj_on_of_nodup_map hs.externalIds (List.mem_filter.2 ⟨hrow, by rw [heid]; rfl⟩)
      (List.mem_filter.2 ⟨hrow', by rw [heid']; rfl⟩) (heid.trans heid'.symm)
    rw [hsame]
  placed_lt place hplace := by
    obtain ⟨a, ha, rfl⟩ := Store.mem_roster_places.1 hplace
    obtain ⟨row, hrow, hid⟩ := Store.findMemory_isSome.1 (hv.attachedMemory a ha)
    show a.memoryId < s.nextId
    rw [← hid]
    exact hv.memoryId_lt row hrow
  memories := by
    simpa [Store.roster, List.map_map, Function.comp_def, ThreadMemoryRow.place] using hs.attachments
  positions := by
    simpa [Store.roster, List.map_map, Function.comp_def, ThreadMemoryRow.place] using hs.positions

/-- **A call on the roster**: where it starts, and what it leaves and answers. -/
structure Run (r : Roster) (threadId : Nat) (batchEids : List String) (items : List BatchMemoryInput)
    (input : AddMemoriesBatchInput) (s : Store) (output : AddMemoriesBatchOutput) (s' : Store) : Prop where
  keyed : r.Keyed
  takes : r.Takes threadId items
  batch : ∀ item ∈ items, ∀ eid, item.externalId? = some eid → eid ∈ batchEids
  same : List.Forall₂ BatchMemoryInput.SameEntry input.memories items
  nodes : r.nodes = s.roster.nodes
  places : r.places = s.roster.places
  after : s'.roster = r.after threadId batchEids items
  thread : output.threadId = threadId
  outcomes : output.outcomes = (r.imported threadId batchEids items).map BatchEntry.outcome

namespace Run

variable {r : Roster} {threadId : Nat} {batchEids : List String} {items : List BatchMemoryInput}

/-- The parents that an entry comes to have. -/
def completed (r : Roster) (threadId : Nat) (batchEids : List String) (items : List BatchMemoryInput)
    (entry : BatchEntry) : AddMemoryOutcome :=
  (entry.completed (r.named threadId (r.entries threadId batchEids items))).outcome

theorem outcomes_eq (h : Run r threadId batchEids items input s output s') :
    output.outcomes = (r.entries threadId batchEids items).map (completed r threadId batchEids items) := by
  rw [h.outcomes, Roster.imported, List.map_map]
  rfl

theorem entries_same (h : Run r threadId batchEids items input s output s') :
    List.Forall₂ (fun item entry => item.SameEntry entry.item) input.memories (r.entries threadId batchEids items) := by
  rw [← List.forall₂_map_right_iff (f := BatchEntry.item), Roster.entries_items]
  exact h.same

/-- An entry of the request and its outcome come from an entry of the roster. -/
theorem mem_zip (h : Run r threadId batchEids items input s output s') {item : BatchMemoryInput}
    {outcome : AddMemoryOutcome} : (item, outcome) ∈ input.memories.zip output.outcomes ↔
      ∃ entry, (item, entry) ∈ input.memories.zip (r.entries threadId batchEids items) ∧
        completed r threadId batchEids items entry = outcome := by
  rw [h.outcomes_eq, List.zip_map_right, List.mem_map]
  constructor
  · rintro ⟨⟨item', entry⟩, hmem, heq⟩
    obtain ⟨rfl, rfl⟩ := Prod.mk.inj heq
    exact ⟨entry, hmem, rfl⟩
  · rintro ⟨entry, hmem, rfl⟩
    exact ⟨(item, entry), hmem, rfl⟩

theorem zip_spec (h : Run r threadId batchEids items input s output s') {item : BatchMemoryInput} {entry : BatchEntry}
    (hmem : (item, entry) ∈ input.memories.zip (r.entries threadId batchEids items)) :
    entry ∈ r.entries threadId batchEids items ∧ entry.item.externalId? = item.externalId? ∧
      entry.item.parentExternalIds = item.parentExternalIds :=
  ⟨(List.of_mem_zip hmem).2, (List.forall₂_iff_zip.1 h.entries_same).2 hmem⟩

theorem exists_zip {α β : Type} {R : α → β → Prop} : ∀ {l : List α} {l' : List β}, List.Forall₂ R l l' → ∀ {b}, b ∈ l' →
    ∃ a, (a, b) ∈ l.zip l'
  | _, _, .nil, _, hb => absurd hb List.not_mem_nil
  | _, _, .cons _ hrest, _, hb => by
    rcases List.mem_cons.1 hb with rfl | hb
    · exact ⟨_, List.mem_cons_self⟩
    · obtain ⟨a, ha⟩ := exists_zip hrest hb
      exact ⟨a, List.mem_cons_of_mem _ ha⟩

theorem exists_zip_left {α β : Type} {R : α → β → Prop} : ∀ {l : List α} {l' : List β}, List.Forall₂ R l l' → ∀ {a},
    a ∈ l → ∃ b, (a, b) ∈ l.zip l'
  | _, _, .nil, _, ha => absurd ha List.not_mem_nil
  | _, _, .cons _ hrest, _, ha => by
    rcases List.mem_cons.1 ha with rfl | ha
    · exact ⟨_, List.mem_cons_self⟩
    · obtain ⟨b, hb⟩ := exists_zip_left hrest ha
      exact ⟨b, List.mem_cons_of_mem _ hb⟩

/-- **What an external id names** is what the roster says. -/
theorem names_iff (h : Run r threadId batchEids items input s output s') {eid : String} {id : Nat} :
    Names input output s eid id ↔ r.named threadId (r.entries threadId batchEids items) eid = some id := by
  constructor
  · rintro (⟨item, outcome, hmem, heid, rfl⟩ | ⟨row, hrow, heid, rfl, hattached⟩)
    · obtain ⟨entry, hzip, rfl⟩ := h.mem_zip.1 hmem
      obtain ⟨hentry, hname, -⟩ := h.zip_spec hzip
      rw [Roster.named_of_mem h.takes hentry (hname.trans heid)]
      simp [completed]
    · rw [← Roster.after_attachedId h.keyed h.takes, (h.keyed.after batchEids h.takes).attachedId_iff]
      obtain ⟨hname, hne⟩ := Option.filter_eq_some_iff.1 heid
      obtain ⟨place, hplace, hspec⟩ := Store.attached_iff_place.1 hattached
      rw [h.thread] at hspec
      refine ⟨by simpa using hne, row.node, Roster.mem_after_nodes.2 (.inl ?_), hname, rfl, place,
        (Roster.mem_after_places h.takes.named).2 (.inl ?_), hspec⟩
      · rw [h.nodes]
        exact Store.mem_roster_nodes.2 ⟨row, hrow, rfl⟩
      · rw [h.places]
        exact hplace
  · intro hnamed
    rcases Option.or_eq_some_iff.1 hnamed with hassigned | ⟨-, hattached⟩
    · obtain ⟨entry, hentry, heid, rfl⟩ := exists_of_assigned hassigned
      obtain ⟨item, hzip⟩ := exists_zip h.entries_same hentry
      obtain ⟨-, hname, -⟩ := h.zip_spec hzip
      exact .inl ⟨item, _, h.mem_zip.2 ⟨entry, hzip, rfl⟩, hname.symm.trans heid, by simp [completed]⟩
    · obtain ⟨hne, node, hnode, hname, rfl, place, hplace, hspec⟩ := h.keyed.attachedId_iff.1 hattached
      rw [h.nodes] at hnode
      rw [h.places] at hplace
      obtain ⟨row, hrow, rfl⟩ := Store.mem_roster_nodes.1 hnode
      rw [← h.thread] at hspec
      exact .inr ⟨row, hrow, Option.filter_eq_some_iff.2 ⟨hname, by simpa using hne⟩, rfl,
        Store.attached_iff_place.2 ⟨place, hplace, hspec⟩⟩

theorem attached_iff (h : Run r threadId batchEids items input s output s') {memoryId : Nat} :
    s'.Attached output.threadId memoryId ↔ ∃ place ∈ (r.after threadId batchEids items).places,
      place.threadId = threadId ∧ place.memoryId = memoryId := by
  rw [Store.attached_iff_place, h.after, h.thread]

theorem created_eq (h : Run r threadId batchEids items input s output s') :
    output.created = ((r.entries threadId batchEids items).filter fun entry => entry.outcome.created).map
      (completed r threadId batchEids items) := by
  unfold AddMemoriesBatchOutput.created
  rw [h.outcomes_eq, List.filter_map]
  refine congrArg _ (List.filter_congr fun entry _ => ?_)
  simp [completed]

theorem created_length (h : Run r threadId batchEids items input s output s') :
    output.created.length = Roster.createdCount (r.entries threadId batchEids items) := by
  rw [h.created_eq, List.length_map, Roster.createdCount, List.countP_eq_length_filter]

/-- The outcomes of the new memories, as the roster numbers them. -/
theorem created_numbers (h : Run r threadId batchEids items input s output s') :
    output.created.map (fun outcome => (outcome.memoryId, outcome.position)) =
      (List.range output.created.length).map fun k => (r.nextId + k, r.nextPosition threadId + k) := by
  rw [h.created_length, ← (@Roster.entries_numbered r threadId batchEids items h.takes.named).created, h.created_eq,
    List.map_map]
  refine List.map_congr_left fun entry _ => ?_
  simp [completed]

/-- **What the call leaves.** -/
theorem settles (h : Run r threadId batchEids items input s output s') : Settles input s output s' where
  complete _ := by rw [h.outcomes_eq, List.length_map, h.entries_same.length_eq]
  parents item outcome hmem hcreated := by
    obtain ⟨entry, hzip, rfl⟩ := h.mem_zip.1 hmem
    obtain ⟨hentry, -, hsame⟩ := h.zip_spec hzip
    have hnew : entry.outcome.created = true := by simpa [completed] using hcreated
    have hnode := Roster.mem_after_nodes.2 (.inr ⟨entry, hentry, hnew, rfl⟩)
    rw [← h.after] at hnode
    obtain ⟨row, hrow, hspec⟩ := Store.mem_roster_nodes.1 hnode
    obtain ⟨hnodup, hparents⟩ := Roster.completed_parents h.takes h.batch hentry hnew
    have hids : row.data.parentIds = (completed r threadId batchEids items entry).resolvedParentIds :=
      congrArg MemoryNode.parentIds hspec
    refine ⟨row, hrow, ?_, hids ▸ hnodup, fun id => ?_⟩
    · exact (congrArg MemoryNode.id hspec).trans (BatchEntry.completed_memoryId _ entry).symm
    · rw [hids]
      refine (hparents id).trans ?_
      simp only [hsame, h.names_iff]
  entries outcome houtcome := by
    rw [h.outcomes_eq] at houtcome
    obtain ⟨entry, hentry, rfl⟩ := List.mem_map.1 houtcome
    have hplace := Roster.place_after h.keyed h.takes hentry
    rw [← h.after] at hplace
    obtain ⟨a, ha, hspec⟩ := Store.mem_roster_places.1 hplace
    refine ⟨a, ha, ?_, ?_, ?_⟩
    · exact (congrArg Place.threadId hspec).trans h.thread.symm
    · exact (congrArg Place.memoryId hspec).trans (BatchEntry.completed_memoryId _ entry).symm
    · exact (congrArg Place.position hspec).trans (BatchEntry.completed_position _ entry).symm
  named item _ eid _ id hname := by
    rw [h.names_iff, ← Roster.after_attachedId h.keyed h.takes, (h.keyed.after batchEids h.takes).attachedId_iff] at hname
    obtain ⟨-, _, -, -, -, hplace⟩ := hname
    exact h.attached_iff.2 hplace
  once := by
    have hkeys := (h.keyed.after batchEids h.takes).memories
    rw [← h.after] at hkeys
    simpa [Store.roster, List.map_map, Function.comp_def, ThreadMemoryRow.place] using hkeys
  distinct := by
    have hkeys := (h.keyed.after batchEids h.takes).positions
    rw [← h.after] at hkeys
    simpa [Store.roster, List.map_map, Function.comp_def, ThreadMemoryRow.place] using hkeys
  attached := by
    have hplaces := @Roster.after_places r threadId batchEids items h.takes.named
    rw [← h.after, h.places] at hplaces
    have hnumbers := congrArg (List.map fun numbers : Nat × Nat => Place.mk threadId numbers.1 numbers.2) h.created_numbers
    rw [List.map_map, List.map_map] at hnumbers
    refine hplaces.trans (congrArg _ ?_)
    rw [← h.created_length, h.thread]
    exact hnumbers.symm
  ordered := by
    have hnumbers := congrArg (List.map Prod.snd) h.created_numbers
    rw [List.map_map, List.map_map] at hnumbers
    have hnext : s.nextPosition output.threadId = r.nextPosition threadId := by
      rw [← Store.roster_nextPosition, h.thread, Roster.nextPosition, Roster.nextPosition, h.places]
    rw [hnext]
    exact hnumbers

/-! ## The entries again -/

/-- An entry made on the roster after the import: its memory is there, and its parents are what their names mean. -/
theorem again_entry (h : Run r threadId batchEids items input s output s') {entry entry' : BatchEntry}
    (hentry : entry ∈ r.entries threadId batchEids items)
    (hentry' : entry' ∈ (r.after threadId batchEids items).entries threadId batchEids items)
    (hitem : entry.item = entry'.item) :
    entry'.outcome.memoryId = entry.outcome.memoryId ∧ entry'.outcome.position = entry.outcome.position ∧
      entry'.outcome.created = false ∧
      ∀ id, id ∈ entry'.outcome.resolvedParentIds ↔ ∃ eid ∈ entry.item.parentExternalIds,
        r.named threadId (r.entries threadId batchEids items) eid = some id := by
  obtain ⟨htakes, hknows⟩ := @Roster.after_takes r threadId batchEids items h.keyed h.takes
  have hcreated := Roster.not_created htakes hknows hentry'
  obtain ⟨eid, node, position, heid, hexisting, hid, hposition⟩ := Roster.existing_of_mem htakes hentry' hcreated
  obtain ⟨node', hexisting', hid'⟩ := Roster.after_existing h.keyed h.takes hentry (hitem ▸ heid)
  obtain ⟨rfl, hsame⟩ := Prod.mk.inj (Option.some.inj (hexisting.symm.trans hexisting'))
  refine ⟨hid.trans hid', hposition.trans (Option.some.inj hsame), hcreated, fun id => ?_⟩
  rw [Roster.resolved_of_known htakes hknows hentry', Roster.mem_distinct_filterMap, ← hitem]
  simp only [Roster.after_attachedId h.keyed h.takes]

theorem again_of_created (h : Run r threadId batchEids items input s output s') {entry entry' : BatchEntry}
    (hentry : entry ∈ r.entries threadId batchEids items)
    (hentry' : entry' ∈ (r.after threadId batchEids items).entries threadId batchEids items)
    (hitem : entry.item = entry'.item) :
    (completed r threadId batchEids items entry).Again entry'.outcome ↔
      (entry.outcome.created = false → ∀ id, id ∈ entry.outcome.resolvedParentIds ↔
        ∃ eid ∈ entry.item.parentExternalIds, r.named threadId (r.entries threadId batchEids items) eid = some id) := by
  obtain ⟨hid, hposition, hcreated', hparents⟩ := h.again_entry hentry hentry' hitem
  constructor
  · intro hagain hcreated id
    have hsame := hagain.parents id
    rw [hparents] at hsame
    rw [completed, BatchEntry.completed, if_neg (by rw [hcreated]; decide)] at hsame
    exact hsame.symm
  · intro hall
    refine ⟨hid.trans (BatchEntry.completed_memoryId _ entry).symm,
      hposition.trans (BatchEntry.completed_position _ entry).symm, hcreated', fun id => ?_⟩
    rw [hparents]
    cases hcreated : entry.outcome.created with
    | true => exact ((Roster.completed_parents h.takes h.batch hentry hcreated).2 id).symm
    | false =>
      rw [completed, BatchEntry.completed, if_neg (by rw [hcreated]; decide)]
      exact (hall hcreated id).symm

theorem forall₂_of_map_eq {α β : Type} {f : α → β} : ∀ {l l' : List α}, l.map f = l'.map f →
    List.Forall₂ (fun a a' => f a = f a') l l'
  | [], [], _ => .nil
  | _ :: _, _ :: _, h => by
    obtain ⟨hhead, htail⟩ := List.cons.inj h
    exact .cons hhead (forall₂_of_map_eq htail)

/-- **The same outcomes** are answered again exactly if no stored entry refers forward to a new one. -/
theorem again_iff (h : Run r threadId batchEids items input s output s') :
    List.Forall₂ AddMemoryOutcome.Again output.outcomes
        (((r.after threadId batchEids items).imported threadId batchEids items).map BatchEntry.outcome) ↔
      r.NoForward threadId items := by
  obtain ⟨htakes, hknows⟩ := @Roster.after_takes r threadId batchEids items h.keyed h.takes
  have hpairs : List.Forall₂ (fun entry entry' : BatchEntry => entry.item = entry'.item)
      (r.entries threadId batchEids items) ((r.after threadId batchEids items).entries threadId batchEids items) :=
    forall₂_of_map_eq (by rw [Roster.entries_items, Roster.entries_items])
  rw [← Roster.existing_parents_iff h.keyed h.takes, Roster.imported_of_known htakes hknows, h.outcomes_eq,
    List.forall₂_map_left_iff, List.forall₂_map_right_iff]
  constructor
  · intro hagain entry hentry
    obtain ⟨entry', hzip⟩ := exists_zip_left hpairs hentry
    exact (h.again_of_created hentry (List.of_mem_zip hzip).2 ((List.forall₂_iff_zip.1 hpairs).2 hzip)).1
      ((List.forall₂_iff_zip.1 hagain).2 hzip)
  · intro hall
    refine List.forall₂_iff_zip.2 ⟨hpairs.length_eq, fun {entry entry'} hzip => ?_⟩
    obtain ⟨hentry, hentry'⟩ := List.of_mem_zip hzip
    exact (h.again_of_created hentry hentry' ((List.forall₂_iff_zip.1 hpairs).2 hzip)).2 (hall entry hentry)

/-- **The same entries are acceptable again**, with upsert. -/
theorem again_accepts {upsert : Bool} (h : Run r threadId batchEids items input s output s')
    (haccepts : ∀ item ∈ items, r.Accepts threadId upsert item) :
    ∀ item ∈ items, (r.after threadId batchEids items).Accepts threadId true item ∧
      (r.after threadId batchEids items).Stored threadId item := by
  obtain ⟨htakes, hknows⟩ := @Roster.after_takes r threadId batchEids items h.keyed h.takes
  intro item hitem
  obtain ⟨eid, heid⟩ := Option.isSome_iff_exists.1 (h.takes.named item hitem)
  refine ⟨fun eid' heid' node position hexisting => ⟨rfl, ?_, htakes.attached item hitem eid' heid' node position hexisting⟩,
    eid, heid, hknows item hitem eid heid⟩
  obtain ⟨hne, hnode, hname, -⟩ := (h.keyed.after batchEids h.takes).existing_iff.1 hexisting
  rcases Roster.mem_after_nodes.1 hnode with hnode | ⟨entry, hentry, -, rfl⟩
  · exact (haccepts item hitem eid' heid' node _ (h.keyed.existing_iff.2 ⟨hne, hnode, hname, rfl⟩)).2.1
  · have hsame := List.inj_on_of_nodup_map h.takes.nodup (Roster.mem_items hentry) hitem
      ((BatchMemoryInput.externalId?_iff.2 ⟨hname, hne⟩).trans heid'.symm)
    rw [← hsame]
    rfl

end Run

/-! ## The call, and the call again -/

theorem Roster.Keyed.later {r r' : Roster} (hr : r.Keyed) (hnext : r.nextId ≤ r'.nextId) (hnodes : r'.nodes = r.nodes)
    (hplaces : r'.places = r.places) : r'.Keyed where
  nodeIds := hnodes ▸ hr.nodeIds
  nodeId_lt node hnode := Nat.lt_of_lt_of_le (hr.nodeId_lt node (hnodes ▸ hnode)) hnext
  externalIds node hnode node' hnode' := hr.externalIds node (hnodes ▸ hnode) node' (hnodes ▸ hnode')
  placed_lt place hplace := Nat.lt_of_lt_of_le (hr.placed_lt place (hplaces ▸ hplace)) hnext
  memories := hplaces ▸ hr.memories
  positions := hplaces ▸ hr.positions

theorem distinctNames_of_nodup : ∀ {memories : List BatchMemoryInput}, (∀ item ∈ memories, item.externalId?.isSome) →
    (memories.flatMap fun item => item.externalId?.toList).Nodup → DistinctNames memories
  | [], _, _ => ⟨by simp, List.nodup_nil⟩
  | item :: rest, hnamed, hnodup => by
    rw [List.flatMap_cons, List.nodup_append] at hnodup
    obtain ⟨hrest, hnames⟩ := distinctNames_of_nodup (fun i hi => hnamed i (List.mem_cons_of_mem _ hi)) hnodup.2.1
    obtain ⟨eid, heid⟩ := Option.isSome_iff_exists.1 (hnamed item List.mem_cons_self)
    refine ⟨hnamed, List.nodup_cons.2 ⟨fun hmem => ?_, hnames⟩⟩
    obtain ⟨other, hother, hsame⟩ := List.mem_map.1 hmem
    exact hnodup.2.2 eid (by simp [heid]) eid (List.mem_flatMap.2 ⟨other, hother, by simp [hsame, heid]⟩) rfl

theorem map_eq_of_forall₂ {α β : Type} {R : α → α → Prop} {f : α → β} (hf : ∀ a a', R a a' → f a' = f a) :
    ∀ {l l' : List α}, List.Forall₂ R l l' → l'.map f = l.map f
  | _, _, .nil => rfl
  | _, _, .cons h hrest => by rw [List.map_cons, List.map_cons, hf _ _ h, map_eq_of_forall₂ hf hrest]

theorem pairwise_congr_of_forall₂ {α : Type} {S R R' : α → α → Prop}
    (hR : ∀ a a' b b', S a a' → S b b' → (R a b ↔ R' a' b')) :
    ∀ {l l' : List α}, List.Forall₂ S l l' → (l.Pairwise R ↔ l'.Pairwise R')
  | _, _, .nil => by simp
  | _, _, .cons h hrest => by
    rw [List.pairwise_cons, List.pairwise_cons, pairwise_congr_of_forall₂ hR hrest]
    refine and_congr_left' ⟨fun hall b' hb' => ?_, fun hall b hb => ?_⟩
    · obtain ⟨b, hzip⟩ := Run.exists_zip hrest hb'
      exact (hR _ _ _ _ h ((List.forall₂_iff_zip.1 hrest).2 hzip)).1 (hall b (List.of_mem_zip hzip).1)
    · obtain ⟨b', hzip⟩ := Run.exists_zip_left hrest hb
      exact (hR _ _ _ _ h ((List.forall₂_iff_zip.1 hrest).2 hzip)).2 (hall b' (List.of_mem_zip hzip).2)

variable {r : Roster} {threadId : Nat} {batchEids : List String} {items : List BatchMemoryInput}

/-- Whether an entry is stored is what the roster says. -/
theorem Run.stored_iff (h : Run r threadId batchEids items input s output s') {item item' : BatchMemoryInput}
    (hsame : item.SameEntry item') : s.Has item ↔ r.Stored threadId item' := by
  unfold Store.Has Roster.Stored
  rw [hsame.1]
  refine exists_congr fun eid => and_congr_right fun heid => ?_
  have hne := (BatchMemoryInput.externalId?_iff.1 heid).2
  rw [Option.isSome_iff_exists]
  constructor
  · intro ⟨row, hrow, hname⟩
    refine ⟨(row.node, _), h.keyed.existing_iff.2 ⟨hne, ?_, hname, rfl⟩⟩
    rw [h.nodes]
    exact Store.mem_roster_nodes.2 ⟨row, hrow, rfl⟩
  · intro ⟨(node, position), hexisting⟩
    obtain ⟨-, hnode, hname, -⟩ := h.keyed.existing_iff.1 hexisting
    rw [h.nodes] at hnode
    obtain ⟨row, hrow, rfl⟩ := Store.mem_roster_nodes.1 hnode
    exact ⟨row, hrow, hname⟩

theorem Run.noForward_iff (h : Run r threadId batchEids items input s output s') : s.NoForward input.memories ↔ r.NoForward threadId items := by
  refine pairwise_congr_of_forall₂ (S := BatchMemoryInput.SameEntry) (fun item item' later later' hitem hlater => ?_)
    h.same
  rw [h.stored_iff hitem, h.stored_iff hlater, hitem.2, hlater.1]

section Deployment

variable [Deployment] {now : Int} {answers : ImportAnswers}

/-- **A call runs on the roster, and again on the roster it left.** -/
theorem addMemoriesBatch_again (hs : s.Valid) (hi : s.Indexed) (hnamed : ∀ item ∈ input.memories, item.externalId?.isSome)
    (hsuppressed : answers.suppressed = false) (h : addMemoriesBatch now answers input s = .ok (output, s')) :
    ∃ r threadId batchEids items, Run r threadId batchEids items input s output s' ∧
      ∀ (now' : Int) (mapped : Option Nat), MappedTo answers output.threadId mapped →
        ∃ output' s'', addMemoriesBatch now' { answers with mappedThreadId := mapped }
            { input with upsertByExternalId := true } s' = .ok (output', s'') ∧ s''.roster = s'.roster ∧
          output'.outcomes =
            ((r.after threadId batchEids items).imported threadId batchEids items).map BatchEntry.outcome := by
  obtain ⟨batchEids, thread, s₁, items, hchecks, hthread, howner, hkey, hitems, hwrite⟩ :=
    addMemoriesBatch_imports hsuppressed h
  obtain ⟨heids, hnodup⟩ := prescan_eids input.memories 0 (hchecks.prescan s) List.nodup_nil
  have hsame := normalizeBatch_same (hitems s)
  have hnames : DistinctNames items := by
    have hinput := distinctNames_of_nodup hnamed (by rw [heids] at hnodup; exact hnodup)
    refine ⟨fun item hitem => ?_, ?_⟩
    · obtain ⟨item₀, hzip⟩ := Run.exists_zip hsame hitem
      rw [((List.forall₂_iff_zip.1 hsame).2 hzip).1]
      exact hinput.1 _ (List.of_mem_zip hzip).1
    · rw [map_eq_of_forall₂ (fun _ _ hentry => hentry.1) hsame]
      exact hinput.2
  have hkeys : s₁.threads.map ThreadRow.key = s₁.threads.map ThreadRow.key := rfl
  have hopened := (resolveThread_again hthread hkeys).1
  have hkeyed : s₁.roster.Keyed := (hi.roster hs).later hopened.nextId
    (congrArg (List.map MemoryRow.node) hopened.memories)
    (congrArg (List.map ThreadMemoryRow.place) hopened.threadMemories)
  obtain ⟨haccepts, hlabels, hroster, hthreads, hthreadId, houtcomes⟩ :=
    (writeBatch_refines hkeyed now thread input.upsertByExternalId input.labels hnames batchEids).ok hwrite
  have hrun : Run s₁.roster thread.threadId batchEids items input s output s' := {
    keyed := hkeyed
    takes := hnames.takes haccepts
    batch := fun item hitem eid heid => by
      obtain ⟨item₀, hzip⟩ := Run.exists_zip hsame hitem
      rw [heids, List.nil_append, List.mem_flatMap]
      exact ⟨item₀, (List.of_mem_zip hzip).1, by rw [← ((List.forall₂_iff_zip.1 hsame).2 hzip).1, heid]; simp⟩
    same := hsame
    nodes := congrArg (List.map MemoryRow.node) hopened.memories
    places := congrArg (List.map ThreadMemoryRow.place) hopened.threadMemories
    after := hroster
    thread := hthreadId
    outcomes := houtcomes }
  refine ⟨_, _, _, _, hrun, fun now' mapped hmapped => ?_⟩
  rw [hthreadId] at hmapped
  obtain ⟨thread', hthread', hagain⟩ := (resolveThread_again hthread hthreads).2 now' mapped hmapped
  -- The writes on the roster that the call left do not fail.
  have hall := hrun.again_accepts haccepts
  have hwp := writeBatch_refines (hroster ▸ hkeyed.after batchEids hrun.takes) now' thread' true input.labels hnames batchEids
  rw [hroster, hagain.threadId] at hwp
  obtain ⟨output', s'', hwrite', -, -, hroster'', -, -, houtcomes'⟩ :=
    (hwp.mono (fun _ _ hok => hok) fun _ hfail => hfail ⟨hall, hlabels⟩).total
  obtain ⟨htakes, hknows⟩ := @Roster.after_takes s₁.roster thread.threadId batchEids items hkeyed hrun.takes
  refine ⟨output', s'', Imports.run ⟨batchEids, thread', s', items, ?_, hthread', ?_, ?_, ?_, hwrite'⟩ hsuppressed, ?_,
    houtcomes'⟩
  · exact hchecks
  · rw [hagain.userId]
    exact howner
  · rw [hagain.threadId]
    exact hkey
  · rw [normalizeBatch_congr hagain.memoryKind]
    exact hitems
  · rw [hroster'', Roster.after_of_known htakes hknows, hroster]

/-- An import that is suppressed answers nothing and leaves everything. -/
theorem addMemoriesBatch_suppressed (hsuppressed : answers.suppressed = true)
    (h : addMemoriesBatch now answers input s = .ok (output, s')) :
    s' = s ∧ output = ⟨0, false, [], [], true⟩ ∧ ∀ (now' : Int) (mapped : Option Nat) (upsert : Bool) (s₂ : Store),
      addMemoriesBatch now' { answers with mappedThreadId := mapped } { input with upsertByExternalId := upsert } s₂ =
        .ok (output, s₂) := by
  unfold addMemoriesBatch at h
  rw [Tx.bind_ok_iff] at h
  obtain ⟨_, s₁, hrun₁, h⟩ := h
  obtain ⟨hnonempty, rfl⟩ := Tx.ensure_ok_iff.1 hrun₁
  rw [Tx.bind_ok_iff] at h
  obtain ⟨batchEids, s₂, hrun₂, h⟩ := h
  obtain ⟨rfl, hprescan⟩ := (prescan_blind 0 [] input.memories).ok hrun₂
  rw [Tx.bind_ok_iff] at h
  obtain ⟨_, s₃, hrun₃, h⟩ := h
  obtain ⟨rfl, hauthors⟩ := (requireUserIds_blind 0 input.memories).ok hrun₃
  rw [hsuppressed, if_pos rfl] at h
  obtain ⟨rfl, rfl⟩ := Prod.mk.inj (Except.ok.inj h)
  refine ⟨rfl, rfl, fun now' mapped upsert s₂ => ?_⟩
  unfold addMemoriesBatch
  rw [Tx.bind_ok_iff]
  refine ⟨(), s₂, Tx.ensure_ok_iff.2 ⟨hnonempty, rfl⟩, ?_⟩
  rw [Tx.bind_ok_iff]
  refine ⟨batchEids, s₂, hprescan s₂, ?_⟩
  rw [Tx.bind_ok_iff]
  refine ⟨(), s₂, hauthors s₂, ?_⟩
  rw [if_pos hsuppressed]
  rfl

/-- **An import settles what it writes, and repeats itself** exactly if it is suppressed or no entry of a stored
memory refers to a later entry of a new one. If it fails, the database is as it was. -/
theorem reimport_iff (hs : s.Valid) (hi : s.Indexed) (hnamed : ∀ item ∈ input.memories, item.externalId?.isSome) :
    (∀ e, addMemoriesBatch now answers input s = .error e → (addMemoriesBatch now answers input).commit s = s) ∧
      ∀ output s', addMemoriesBatch now answers input s = .ok (output, s') →
        (Settles input s output s' ∧ Repeats answers input output s' ↔
          answers.suppressed = true ∨ s.NoForward input.memories) := by
  refine ⟨fun e h => by simp [Tx.commit, h], fun output s' h => ?_⟩
  cases hsuppressed : answers.suppressed with
  | true =>
    obtain ⟨rfl, rfl, hagain⟩ := addMemoriesBatch_suppressed hsuppressed h
    refine ⟨fun _ => .inl rfl, fun _ => ⟨?_, fun now' mapped _ => ⟨_, _, hagain now' mapped true s', rfl, .nil⟩⟩⟩
    constructor
    · simp
    · simp
    · simp
    · rintro item - eid - id (⟨_, _, hmem, -⟩ | ⟨row, -, -, rfl, hattached⟩)
      · simp at hmem
      · exact hattached
    · exact hi.attachments
    · exact hi.positions
    · simp [AddMemoriesBatchOutput.created]
    · simp [AddMemoriesBatchOutput.created]
  | false =>
    obtain ⟨r, threadId, batchEids, items, hrun, hagain⟩ := addMemoriesBatch_again hs hi hnamed hsuppressed h
    rw [hrun.noForward_iff, ← hrun.again_iff]
    constructor
    · intro hboth
      obtain ⟨_, hrepeats⟩ := hboth
      obtain ⟨output', s'', hok, -, hsame⟩ := hrepeats now answers.mappedThreadId (.inl rfl)
      obtain ⟨output₂, s₂, hok₂, -, houtcomes⟩ := hagain now answers.mappedThreadId (.inl rfl)
      obtain ⟨rfl, -⟩ := Prod.mk.inj (Except.ok.inj (hok.symm.trans hok₂))
      exact .inr (houtcomes ▸ hsame)
    · intro hcase
      have hforall := hcase.resolve_left (by simp)
      refine ⟨hrun.settles, fun now' mapped hmapped => ?_⟩
      obtain ⟨output', s'', hok, hroster, houtcomes⟩ := hagain now' mapped hmapped
      exact ⟨output', s'', hok, hroster, houtcomes ▸ hforall⟩

end Deployment

/-! ## A stored memory whose parent comes later -/

/-- An entry with a name, and the names of its parents. -/
def batchEntry (eid : String) (parents : List String) : BatchMemoryInput :=
  ⟨⟨[], some 7, eid, 1, none, none, 5, 5, 1, some eid, none, 1⟩, parents⟩

def batchOf (memories : List BatchMemoryInput) : AddMemoriesBatchInput :=
  ⟨.upsertByChannel ⟨none, some 7, none, some "session", none, none, [], none, 1⟩, memories, true, []⟩

/-- A session whose first memory is imported. -/
def firstImported : Store := (@addMemoriesBatch permissive 5 .none (batchOf [batchEntry "a" []])).commit .empty

/-- The first memory again, now with a parent, which comes after it. -/
def parentLater : AddMemoriesBatchInput := batchOf [batchEntry "a" ["b"], batchEntry "b" []]

/-- The memory and its parent, one after the other. -/
def parentEarlier : AddMemoriesBatchInput := batchOf [batchEntry "b" [], batchEntry "a" ["b"]]

theorem firstImported_valid : firstImported.Valid ∧ firstImported.Indexed := by
  refine ⟨?_, ⟨?_, ?_⟩⟩
  · constructor <;> try unfold Table.UniqueWhere
    all_goals decide +kernel
  · constructor <;> decide +kernel
  · unfold Table.UniqueWhere
    decide +kernel

/-- The parents answered by a call and by the same call again. -/
def parentsTwice (input : AddMemoriesBatchInput) (s : Store) : Option (List (List Nat) × List (List Nat)) :=
  match @addMemoriesBatch permissive 6 .none input s with
  | .error _ => none
  | .ok (output, s') =>
    match @addMemoriesBatch permissive 7 { ImportAnswers.none with mappedThreadId := none }
        { input with upsertByExternalId := true } s' with
    | .error _ => none
    | .ok (output', _) => some (output.outcomes.map AddMemoryOutcome.resolvedParentIds,
        output'.outcomes.map AddMemoryOutcome.resolvedParentIds)

theorem of_parentsTwice {s : Store} {input : AddMemoriesBatchInput} {parents parents' : List (List Nat)}
    (h : parentsTwice input s = some (parents, parents')) :
    ∃ output s' output' s'', @addMemoriesBatch permissive 6 .none input s = .ok (output, s') ∧
      @addMemoriesBatch permissive 7 { ImportAnswers.none with mappedThreadId := none }
        { input with upsertByExternalId := true } s' = .ok (output', s'') ∧
      output.outcomes.map AddMemoryOutcome.resolvedParentIds = parents ∧
      output'.outcomes.map AddMemoryOutcome.resolvedParentIds = parents' := by
  unfold parentsTwice at h
  split at h
  · simp at h
  · next output s' hfirst =>
    split at h
    · simp at h
    · next output' s'' hsecond =>
      obtain ⟨rfl, rfl⟩ := Prod.mk.inj (Option.some.inj h)
      exact ⟨output, s', output', s'', hfirst, hsecond, rfl, rfl⟩

theorem reimport_parentEarlier :
    (∃ output s', @addMemoriesBatch permissive 6 .none parentEarlier firstImported = .ok (output, s')) ∧
      ∀ output s', @addMemoriesBatch permissive 6 .none parentEarlier firstImported = .ok (output, s') →
        (Settles parentEarlier firstImported output s' ∧ @Repeats permissive .none parentEarlier output s' ↔
          ImportAnswers.none.suppressed = true ∨ firstImported.NoForward parentEarlier.memories) := by
  refine ⟨?_, (@reimport_iff firstImported parentEarlier permissive 6 .none firstImported_valid.1 firstImported_valid.2
    (by decide)).2⟩
  have htwice : parentsTwice parentEarlier firstImported = some ([[], [3]], [[], [3]]) := by decide +kernel
  obtain ⟨output, s', _, _, hok, -⟩ := of_parentsTwice htwice
  exact ⟨output, s', hok⟩

/-- The first call answers no parents for the memory that was there, the second the one that has come. -/
theorem parents_found_later : firstImported.Valid ∧ firstImported.Indexed ∧
    (∀ item ∈ parentLater.memories, item.externalId?.isSome) ∧
    ∃ output s', @addMemoriesBatch permissive 6 .none parentLater firstImported = .ok (output, s') ∧
      ¬@Repeats permissive .none parentLater output s' := by
  refine ⟨firstImported_valid.1, firstImported_valid.2, by decide, ?_⟩
  have htwice : parentsTwice parentLater firstImported = some ([[], []], [[3], []]) := by decide +kernel
  obtain ⟨output, s', output', s'', hfirst, hsecond, hparents, hparents'⟩ := of_parentsTwice htwice
  refine ⟨output, s', hfirst, fun hrepeats => ?_⟩
  obtain ⟨output₂, s₂, hok, -, hagain⟩ := hrepeats 7 none (.inl rfl)
  obtain ⟨rfl, -⟩ := Prod.mk.inj (Except.ok.inj (hok.symm.trans hsecond))
  -- The first outcomes have the parents `[]` and `[3]`.
  generalize output.outcomes = outcomes, output₂.outcomes = outcomes' at hparents hparents' hagain
  cases hagain with
  | nil => simp at hparents
  | cons hhead _ =>
    have hfirst' := (List.cons.inj hparents).1
    have hsecond' := (List.cons.inj hparents').1
    have := (hhead.parents 3).1 (by rw [hsecond']; simp)
    rw [hfirst'] at this
    simp at this

end MemoryStore.Conversation
