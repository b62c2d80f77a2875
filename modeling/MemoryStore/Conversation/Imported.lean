/-
The entries of an import, on the roster: which memory each stands for, where the
new ones are placed, and what the external ids name before and after. Importing
the same entries again finds all of them, and finds the same names.
-/
import MemoryStore.Conversation.Roster

namespace MemoryStore.Conversation

/-! ## Keys of the roster -/

/-- The keys and unique indexes of memories and the junction, as the roster has them. -/
structure Roster.Keyed (r : Roster) : Prop where
  nodeIds : (r.nodes.map MemoryNode.id).Nodup
  nodeId_lt : ∀ node ∈ r.nodes, node.id < r.nextId
  externalIds : ∀ node ∈ r.nodes, ∀ node' ∈ r.nodes, ∀ eid,
    node.externalId = some eid → node'.externalId = some eid → node = node'
  placed_lt : ∀ place ∈ r.places, place.memoryId < r.nextId
  memories : (r.places.map fun place => (place.threadId, place.memoryId)).Nodup
  positions : (r.places.map fun place => (place.threadId, place.position)).Nodup

namespace Roster

variable {r : Roster} {threadId : Nat} {eid : String}

theorem Keyed.findNode_iff (hr : r.Keyed) {node : MemoryNode} :
    r.findNode eid = some node ↔ node ∈ r.nodes ∧ node.externalId = some eid := by
  constructor
  · intro h
    exact ⟨List.mem_of_find?_eq_some h, by simpa using List.find?_some h⟩
  · intro ⟨hmem, heid⟩
    cases hfind : r.findNode eid with
    | none =>
      have := List.find?_eq_none.1 hfind node hmem
      simp [heid] at this
    | some node' =>
      have heid' : node'.externalId = some eid := by simpa using List.find?_some hfind
      rw [hr.externalIds node' (List.mem_of_find?_eq_some hfind) node hmem eid heid' heid]

theorem Keyed.findPlace_iff (hr : r.Keyed) {memoryId : Nat} {place : Place} :
    r.findPlace threadId memoryId = some place ↔
      place ∈ r.places ∧ place.threadId = threadId ∧ place.memoryId = memoryId := by
  unfold findPlace
  rw [Table.find?_eq_some_of_nodup hr.memories,
    Prod.mk.injEq]

/-- An external id that no memory has, or the empty one, finds nothing. -/
theorem Keyed.existing_iff (hr : r.Keyed) {node : MemoryNode} {position : Option Nat} :
    r.existing threadId eid = some (node, position) ↔
      eid ≠ "" ∧ node ∈ r.nodes ∧ node.externalId = some eid ∧
        (r.findPlace threadId node.id).map Place.position = position := by
  unfold existing
  by_cases hempty : eid = ""
  · simp [hempty]
  · have hfalse : eid.isEmpty = false := by simpa using hempty
    simp only [hfalse, Bool.false_eq_true, if_false, Option.map_eq_some_iff, Prod.mk.injEq, hr.findNode_iff]
    constructor
    · rintro ⟨node', ⟨hmem, heid⟩, rfl, hposition⟩
      exact ⟨hempty, hmem, heid, hposition⟩
    · rintro ⟨_, hmem, heid, hposition⟩
      exact ⟨node, ⟨hmem, heid⟩, rfl, hposition⟩

/-- The name of a memory that is attached. -/
theorem Keyed.attachedId_iff (hr : r.Keyed) {id : Nat} :
    r.attachedId threadId eid = some id ↔
      eid ≠ "" ∧ ∃ node ∈ r.nodes, node.externalId = some eid ∧ node.id = id ∧
        ∃ place ∈ r.places, place.threadId = threadId ∧ place.memoryId = id := by
  unfold attachedId
  rw [Option.bind_eq_some_iff]
  constructor
  · rintro ⟨⟨node, position⟩, hexisting, hid⟩
    obtain ⟨position, rfl, rfl⟩ := Option.map_eq_some_iff.1 hid
    obtain ⟨hempty, hmem, heid, hplace⟩ := hr.existing_iff.1 hexisting
    obtain ⟨place, hfind, -⟩ := Option.map_eq_some_iff.1 hplace
    exact ⟨hempty, node, hmem, heid, rfl, place, hr.findPlace_iff.1 hfind⟩
  · rintro ⟨hempty, node, hmem, heid, rfl, place, hplace⟩
    have hfind := hr.findPlace_iff.2 hplace
    exact ⟨(node, some place.position), hr.existing_iff.2 ⟨hempty, hmem, heid, by rw [hfind]; rfl⟩, rfl⟩

/-- The positions of a thread come before the next. -/
theorem position_lt_nextPosition {place : Place} (hmem : place ∈ r.places) (hthread : place.threadId = threadId) :
    place.position < r.nextPosition threadId := by
  have hmem' : place.position + 1 ∈
      (r.places.filter (fun place => place.threadId = threadId)).map fun place => place.position + 1 :=
    List.mem_map_of_mem (f := fun place : Place => place.position + 1) (List.mem_filter.2 ⟨hmem, by simpa using hthread⟩)
  unfold nextPosition
  cases hmax : ((r.places.filter (fun place => place.threadId = threadId)).map fun place => place.position + 1).max? with
  | none =>
    rw [List.max?_eq_none_iff.1 hmax] at hmem'
    exact absurd hmem' List.not_mem_nil
  | some m => exact (List.max?_eq_some_iff.1 hmax).2 _ hmem'

theorem nextPosition_concat {r' : Roster} {memoryId : Nat}
    (h : r'.places = r.places ++ [⟨threadId, memoryId, r.nextPosition threadId⟩]) :
    r'.nextPosition threadId = r.nextPosition threadId + 1 := by
  have hmax : ((r'.places.filter (fun place => place.threadId = threadId)).map fun place => place.position + 1).max? =
      some (r.nextPosition threadId + 1) := by
    rw [List.max?_eq_some_iff, h]
    refine ⟨by simp, fun b hb => ?_⟩
    obtain ⟨place, hplace, rfl⟩ := List.mem_map.1 hb
    obtain ⟨hmem, hthread⟩ := List.mem_filter.1 hplace
    rcases List.mem_append.1 hmem with hmem | hmem
    · exact Nat.succ_le_succ (Nat.le_of_lt (position_lt_nextPosition hmem (by simpa using hthread)))
    · obtain rfl := List.mem_singleton.1 hmem
      exact Nat.le_refl _
  rw [nextPosition, hmax]
  rfl

end Roster

/-! ## The entries, one after the other -/

/-- Every entry has its own external id, and what has one already is attached to the thread. -/
structure Roster.Takes (r : Roster) (threadId : Nat) (items : List BatchMemoryInput) : Prop where
  named : ∀ item ∈ items, item.externalId?.isSome
  nodup : (items.map BatchMemoryInput.externalId?).Nodup
  attached : ∀ item ∈ items, ∀ eid, item.externalId? = some eid → ∀ node position,
    r.existing threadId eid = some (node, position) → position.isSome

namespace Roster

variable {r : Roster} {threadId : Nat} {batchEids : List String} {items : List BatchMemoryInput}

theorem entries_concat (items : List BatchMemoryInput) (item : BatchMemoryInput) :
    r.entries threadId batchEids (items ++ [item]) =
      r.entries threadId batchEids items ++ [r.entry threadId batchEids (r.entries threadId batchEids items) item] := by
  unfold entries
  rw [List.foldl_append]
  rfl

theorem entries_items (items : List BatchMemoryInput) :
    (r.entries threadId batchEids items).map BatchEntry.item = items := by
  induction items using List.reverseRecOn with
  | nil => rfl
  | append_singleton items item ih => rw [entries_concat, List.map_append, ih]; rfl

/-- An entry was made after those before it. -/
theorem entry_of_split {entry : BatchEntry} : ∀ (items : List BatchMemoryInput) {before after : List BatchEntry},
    r.entries threadId batchEids items = before ++ entry :: after →
      entry = r.entry threadId batchEids before entry.item := by
  intro items
  induction items using List.reverseRecOn with
  | nil =>
    intro before after h
    exact absurd (congrArg List.length h) (by simp [entries])
  | append_singleton items item ih =>
    intro before after h
    rw [entries_concat] at h
    rcases List.eq_nil_or_concat after with rfl | ⟨after, last, rfl⟩
    · obtain ⟨hbefore, hentry⟩ := List.append_inj' h rfl
      rw [← hbefore, ← List.singleton_inj.1 hentry]
      rfl
    · rw [List.concat_eq_append, ← List.cons_append, ← List.append_assoc] at h
      exact ih (List.append_inj' h rfl).1

theorem entries_split {entry : BatchEntry} (items : List BatchMemoryInput)
    (h : entry ∈ r.entries threadId batchEids items) :
    ∃ before after, r.entries threadId batchEids items = before ++ entry :: after ∧
      entry = r.entry threadId batchEids before entry.item := by
  obtain ⟨before, after, heq⟩ := List.append_of_mem h
  exact ⟨before, after, heq, entry_of_split items heq⟩

/-- The entry's memory was there, at its position. -/
theorem entry_of_existing (batchEids : List String) (before : List BatchEntry) {item : BatchMemoryInput} {eid : String} {node : MemoryNode}
    {position : Option Nat} (heid : item.externalId? = some eid) (h : r.existing threadId eid = some (node, position)) :
    (r.entry threadId batchEids before item).outcome =
      ⟨node.id, false, position.getD 0, node.parentIds.isEmpty,
        distinct (item.parentExternalIds.filterMap (r.named threadId before))⟩ := by
  simp only [entry, heid, Option.bind_some, h]

/-- The entry's memory is new. -/
theorem entry_of_new (batchEids : List String) (before : List BatchEntry) {item : BatchMemoryInput} {eid : String}
    (heid : item.externalId? = some eid) (h : r.existing threadId eid = none) :
    (r.entry threadId batchEids before item).outcome =
      ⟨(r.written threadId before).nextId, true, (r.written threadId before).nextPosition threadId, false,
        distinct (item.parentExternalIds.filterMap (r.named threadId before))⟩ := by
  simp only [entry, heid, Option.bind_some, h]

/-- The number of entries with a new memory. -/
abbrev createdCount (entries : List BatchEntry) : Nat := entries.countP fun entry => entry.outcome.created

/-- New memories and their positions are numbered on, in the order of the entries. -/
structure Numbered (r : Roster) (threadId : Nat) (entries : List BatchEntry) : Prop where
  next : (r.written threadId entries).nextPosition threadId = r.nextPosition threadId + createdCount entries
  created : (entries.filter fun entry => entry.outcome.created).map
      (fun entry => (entry.outcome.memoryId, entry.outcome.position)) =
    (List.range (createdCount entries)).map fun k => (r.nextId + k, r.nextPosition threadId + k)

/-- What an entry is, by whether its memory was there. -/
theorem entry_cases (r : Roster) (threadId : Nat) {item : BatchMemoryInput} (h : item.externalId?.isSome) :
    (∃ eid node position, item.externalId? = some eid ∧ r.existing threadId eid = some (node, position)) ∨
      ∃ eid, item.externalId? = some eid ∧ r.existing threadId eid = none := by
  obtain ⟨eid, heid⟩ := Option.isSome_iff_exists.1 h
  cases hexisting : r.existing threadId eid with
  | none => exact .inr ⟨eid, heid, hexisting⟩
  | some found => exact .inl ⟨eid, found.1, found.2, heid, hexisting⟩

theorem entries_numbered (h : ∀ item ∈ items, item.externalId?.isSome) :
    r.Numbered threadId (r.entries threadId batchEids items) := by
  induction items using List.reverseRecOn with
  | nil => exact ⟨by simp [entries, written, createdCount], rfl⟩
  | append_singleton items item ih =>
    obtain ⟨hnext, hcreated⟩ := ih fun i hi => h i (List.mem_append_left _ hi)
    rw [entries_concat]
    generalize hbefore : r.entries threadId batchEids items = before at hnext hcreated
    rcases entry_cases r threadId (h item (by simp)) with
      ⟨eid, node, position, heid, hexisting⟩ | ⟨eid, heid, hexisting⟩
    · have houtcome := entry_of_existing batchEids before heid hexisting
      have hplace : BatchEntry.place? threadId (r.entry threadId batchEids before item) = none := by
        simp [BatchEntry.place?, houtcome]
      have hcount : createdCount (before ++ [r.entry threadId batchEids before item]) = createdCount before := by
        simp [createdCount, List.countP_append, houtcome]
      constructor
      · rw [hcount, ← hnext]
        simp [written, nextPosition, List.filterMap_append, hplace]
      · rw [hcount, ← hcreated, List.filter_append]
        simp [houtcome]
    · have houtcome := entry_of_new batchEids before heid hexisting
      have hplace : BatchEntry.place? threadId (r.entry threadId batchEids before item) =
          some ⟨threadId, (r.written threadId before).nextId, (r.written threadId before).nextPosition threadId⟩ := by
        simp [BatchEntry.place?, houtcome]
      have hcount : createdCount (before ++ [r.entry threadId batchEids before item]) = createdCount before + 1 := by
        simp [createdCount, List.countP_append, houtcome]
      constructor
      · have hplaces : (r.written threadId (before ++ [r.entry threadId batchEids before item])).places =
            (r.written threadId before).places ++
              [⟨threadId, (r.written threadId before).nextId, (r.written threadId before).nextPosition threadId⟩] := by
          simp [written, List.filterMap_append, hplace]
        rw [hcount, nextPosition_concat hplaces, hnext, Nat.add_assoc]
      · have hlast : (r.written threadId before).nextId = r.nextId + createdCount before := rfl
        rw [hcount, List.filter_append, List.map_append, hcreated, List.range_succ, List.map_append]
        simp [houtcome, hnext, hlast]

/-! ## Which memory an entry stands for -/

variable {entry entry' : BatchEntry}

theorem mem_items (h : entry ∈ r.entries threadId batchEids items) : entry.item ∈ items := by
  have := List.mem_map_of_mem (f := BatchEntry.item) h
  rwa [entries_items] at this

/-- An entry without a new memory stands for the attached memory of its name. -/
theorem existing_of_mem (ht : r.Takes threadId items) (h : entry ∈ r.entries threadId batchEids items)
    (hcreated : entry.outcome.created = false) :
    ∃ eid node position, entry.item.externalId? = some eid ∧ r.existing threadId eid = some (node, some position) ∧
      entry.outcome.memoryId = node.id ∧ entry.outcome.position = position := by
  obtain ⟨before, -, -, hentry⟩ := entries_split items h
  have hitem := mem_items h
  rcases entry_cases r threadId (ht.named _ hitem) with ⟨eid, node, position, heid, hexisting⟩ | ⟨eid, heid, hexisting⟩
  · have houtcome := entry_of_existing batchEids before heid hexisting
    rw [← hentry] at houtcome
    obtain ⟨position, rfl⟩ := Option.isSome_iff_exists.1 (ht.attached _ hitem eid heid node position hexisting)
    exact ⟨eid, node, position, heid, hexisting, by rw [houtcome], by rw [houtcome]; rfl⟩
  · have houtcome := entry_of_new batchEids before heid hexisting
    rw [← hentry] at houtcome
    rw [houtcome] at hcreated
    exact absurd hcreated (by simp)

/-- An entry with a new memory has a name that no memory had. -/
theorem new_of_mem (ht : r.Takes threadId items) (h : entry ∈ r.entries threadId batchEids items)
    (hcreated : entry.outcome.created = true) :
    ∃ eid k, entry.item.externalId? = some eid ∧ r.existing threadId eid = none ∧
      k < createdCount (r.entries threadId batchEids items) ∧ entry.outcome.memoryId = r.nextId + k ∧
      entry.outcome.position = r.nextPosition threadId + k := by
  obtain ⟨before, -, -, hentry⟩ := entries_split items h
  have hfiltered : entry ∈ (r.entries threadId batchEids items).filter fun entry => entry.outcome.created :=
    List.mem_filter.2 ⟨h, hcreated⟩
  have hnumbers := List.mem_map_of_mem (f := fun entry : BatchEntry => (entry.outcome.memoryId, entry.outcome.position))
    hfiltered
  rw [(entries_numbered ht.named).created] at hnumbers
  obtain ⟨k, hk, hnumber⟩ := List.mem_map.1 hnumbers
  obtain ⟨hid, hposition⟩ := Prod.mk.inj hnumber
  rcases entry_cases r threadId (ht.named _ (mem_items h)) with
    ⟨eid, node, position, heid, hexisting⟩ | ⟨eid, heid, hexisting⟩
  · have houtcome := entry_of_existing batchEids before heid hexisting
    rw [← hentry] at houtcome
    rw [houtcome] at hcreated
    exact absurd hcreated (by simp)
  · exact ⟨eid, k, heid, hexisting, List.mem_range.1 hk, hid.symm, hposition.symm⟩

theorem entries_names_nodup (batchEids : List String) (ht : r.Takes threadId items) :
    ((r.entries threadId batchEids items).map fun entry => entry.item.externalId?).Nodup := by
  have hnodup := ht.nodup
  rw [← @entries_items r threadId batchEids items, List.map_map] at hnodup
  exact hnodup

/-- Different entries stand for different memories. -/
theorem eq_of_memoryId (hr : r.Keyed) (ht : r.Takes threadId items) (h : entry ∈ r.entries threadId batchEids items)
    (h' : entry' ∈ r.entries threadId batchEids items) (heq : entry.outcome.memoryId = entry'.outcome.memoryId) :
    entry = entry' := by
  have hnames := entries_names_nodup batchEids ht
  cases hcreated : entry.outcome.created <;> cases hcreated' : entry'.outcome.created
  · obtain ⟨eid, node, position, heid, hexisting, hid, -⟩ := existing_of_mem ht h hcreated
    obtain ⟨eid', node', position', heid', hexisting', hid', -⟩ := existing_of_mem ht h' hcreated'
    obtain ⟨-, hnode, hname, -⟩ := hr.existing_iff.1 hexisting
    obtain ⟨-, hnode', hname', -⟩ := hr.existing_iff.1 hexisting'
    have hsame : node = node' := List.inj_on_of_nodup_map hr.nodeIds hnode hnode' (by rw [← hid, heq, hid'])
    rw [hsame, hname'] at hname
    exact List.inj_on_of_nodup_map hnames h h' (by rw [heid, heid', Option.some.inj hname])
  · obtain ⟨eid, node, position, heid, hexisting, hid, -⟩ := existing_of_mem ht h hcreated
    obtain ⟨eid', k, heid', hexisting', -, hid', -⟩ := new_of_mem ht h' hcreated'
    have := hr.nodeId_lt node (hr.existing_iff.1 hexisting).2.1
    omega
  · obtain ⟨eid', node, position, heid', hexisting, hid, -⟩ := existing_of_mem ht h' hcreated'
    obtain ⟨eid, k, heid, hexisting', -, hid', -⟩ := new_of_mem ht h hcreated
    have := hr.nodeId_lt node (hr.existing_iff.1 hexisting).2.1
    omega
  · have hnodup : (((r.entries threadId batchEids items).filter fun entry => entry.outcome.created).map
        fun entry => (entry.outcome.memoryId, entry.outcome.position)).Nodup := by
      rw [(entries_numbered ht.named).created]
      refine List.Nodup.map (fun a b hab => ?_) List.nodup_range
      have := (Prod.mk.inj hab).1
      omega
    obtain ⟨_, k, -, -, -, hid, hposition⟩ := new_of_mem ht h hcreated
    obtain ⟨_, k', -, -, -, hid', hposition'⟩ := new_of_mem ht h' hcreated'
    refine List.inj_on_of_nodup_map hnodup (List.mem_filter.2 ⟨h, hcreated⟩) (List.mem_filter.2 ⟨h', hcreated'⟩) ?_
    rw [Prod.mk.injEq]
    exact ⟨heq, by omega⟩

/-! ## Names -/

/-- An entry is found by its name, whether its memory is new or was there. -/
theorem named_of_mem (ht : r.Takes threadId items) (h : entry ∈ r.entries threadId batchEids items) {eid : String}
    (heid : entry.item.externalId? = some eid) :
    r.named threadId (r.entries threadId batchEids items) eid = some entry.outcome.memoryId := by
  rw [named, assigned_of_mem (entries_names_nodup batchEids ht) h heid, Option.some_or]

theorem attachedId_of_existing {eid : String} {node : MemoryNode} {position : Nat}
    (h : r.existing threadId eid = some (node, some position)) : r.attachedId threadId eid = some node.id := by
  rw [attachedId, h]
  rfl

/-- What an external id names, it names after the further entries. -/
theorem named_mono (ht : r.Takes threadId items) {before after : List BatchEntry}
    (heq : r.entries threadId batchEids items = before ++ after) {eid : String} {id : Nat}
    (h : r.named threadId before eid = some id) :
    r.named threadId (r.entries threadId batchEids items) eid = some id := by
  rw [named, heq, assigned_append, Option.or_assoc]
  cases hafter : assigned after eid with
  | none => exact h
  | some id' =>
    obtain ⟨entry, hentry, heid, rfl⟩ := exists_of_assigned hafter
    have hmem : entry ∈ r.entries threadId batchEids items := heq ▸ List.mem_append_right _ hentry
    have hbefore : assigned before eid = none := by
      rw [Option.eq_none_iff_forall_ne_some]
      intro id' hid'
      obtain ⟨entry', hentry', heid', -⟩ := exists_of_assigned hid'
      have hnodup := entries_names_nodup batchEids ht
      rw [heq, List.map_append, List.nodup_append] at hnodup
      exact hnodup.2.2 _ (List.mem_map_of_mem hentry') _ (List.mem_map_of_mem hentry) (heid'.trans heid.symm)
    rw [named, hbefore, Option.none_or] at h
    cases hcreated : entry.outcome.created with
    | false =>
      obtain ⟨eid', node, position, heid', hexisting, hid, -⟩ := existing_of_mem ht hmem hcreated
      rw [heid] at heid'
      obtain rfl := Option.some.inj heid'
      rw [attachedId_of_existing hexisting] at h
      rw [Option.some_or, hid, h]
    | true =>
      obtain ⟨eid', k, heid', hexisting, -⟩ := new_of_mem ht hmem hcreated
      rw [heid] at heid'
      obtain rfl := Option.some.inj heid'
      rw [attachedId, hexisting] at h
      exact absurd h (by simp)

/-- A name that is not known yet and becomes known is that of a new memory of a later entry, or of the entry itself. -/
theorem exists_later (ht : r.Takes threadId items) {before after : List BatchEntry}
    (heq : r.entries threadId batchEids items = before ++ after) {eid : String} {id : Nat}
    (hbefore : r.named threadId before eid = none)
    (h : r.named threadId (r.entries threadId batchEids items) eid = some id) :
    ∃ entry ∈ after, entry.item.externalId? = some eid ∧ entry.outcome.memoryId = id ∧
      entry.outcome.created = true := by
  rw [named, Option.or_eq_none_iff] at hbefore
  rw [named, heq, assigned_append, hbefore.1, hbefore.2, Option.or_none, Option.or_none] at h
  obtain ⟨entry, hentry, heid, hid⟩ := exists_of_assigned h
  refine ⟨entry, hentry, heid, hid, ?_⟩
  cases hcreated : entry.outcome.created with
  | true => rfl
  | false =>
    obtain ⟨eid', node, position, heid', hexisting, -⟩ :=
      existing_of_mem ht (heq ▸ List.mem_append_right _ hentry) hcreated
    rw [heid] at heid'
    obtain rfl := Option.some.inj heid'
    rw [attachedId_of_existing hexisting] at hbefore
    exact absurd hbefore.2 (by simp)

/-! ## Parents -/

theorem mem_distinct_filterMap {eids : List String} {f : String → Option Nat} {id : Nat} :
    id ∈ distinct (eids.filterMap f) ↔ ∃ eid ∈ eids, f eid = some id := by
  rw [mem_distinct_iff, List.mem_filterMap]

theorem resolved_eq {before : List BatchEntry} (hentry : entry = r.entry threadId batchEids before entry.item) :
    entry.outcome.resolvedParentIds = distinct (entry.item.parentExternalIds.filterMap (r.named threadId before)) := by
  rw [hentry]
  unfold Roster.entry
  dsimp only
  split <;> rfl

/-- **The parents of a new memory** are those its external ids name, each once. -/
theorem completed_parents (ht : r.Takes threadId items) (hbatch : ∀ item ∈ items, ∀ eid, item.externalId? = some eid →
      eid ∈ batchEids) (h : entry ∈ r.entries threadId batchEids items) (hcreated : entry.outcome.created = true) :
    (entry.completed (r.named threadId (r.entries threadId batchEids items))).outcome.resolvedParentIds.Nodup ∧
      ∀ id, id ∈ (entry.completed (r.named threadId (r.entries threadId batchEids items))).outcome.resolvedParentIds ↔
        ∃ eid ∈ entry.item.parentExternalIds, r.named threadId (r.entries threadId batchEids items) eid = some id := by
  obtain ⟨before, after, heq, hentry⟩ := entries_split items h
  have hresolved := resolved_eq hentry
  have hpending : entry.pending = entry.item.parentExternalIds.filter
      fun eid => (r.named threadId before eid).isNone && eid ∈ batchEids := by
    rw [hentry]
    rfl
  rw [BatchEntry.completed, if_pos hcreated]
  dsimp only
  constructor
  · refine List.nodup_append.2 ⟨hresolved ▸ distinct_nodup _, distinct_nodup _, fun id hid id' hid' he => ?_⟩
    rw [mem_distinct_iff] at hid'
    exact absurd (he ▸ hid) (by simpa using (List.mem_filter.1 hid').2)
  · intro id
    rw [List.mem_append, mem_distinct_iff, List.mem_filter, decide_eq_true_eq, hresolved, mem_distinct_filterMap,
      List.mem_filterMap, hpending]
    constructor
    · rintro (⟨eid, heid, hid⟩ | ⟨⟨eid, heid, hid⟩, -⟩)
      · exact ⟨eid, heid, named_mono ht heq hid⟩
      · exact ⟨eid, (List.mem_filter.1 heid).1, hid⟩
    · rintro ⟨eid, heid, hid⟩
      cases hbefore : r.named threadId before eid with
      | some id' =>
        have hsame := (named_mono ht heq hbefore).symm.trans hid
        exact .inl ⟨eid, heid, hbefore.trans hsame⟩
      | none =>
        by_cases hmem : ∃ eid ∈ entry.item.parentExternalIds, r.named threadId before eid = some id
        · exact .inl hmem
        · obtain ⟨later, hlater, hname, -⟩ := exists_later ht heq hbefore hid
          have hitem := mem_items (heq ▸ List.mem_append_right _ hlater : later ∈ r.entries threadId batchEids items)
          exact .inr ⟨⟨eid, List.mem_filter.2 ⟨heid, by simp [hbefore, hbatch _ hitem eid hname]⟩, hid⟩, hmem⟩

end Roster

/-! ## The roster after the import -/

theorem BatchMemoryInput.externalId?_iff {item : BatchMemoryInput} {eid : String} :
    item.externalId? = some eid ↔ item.memory.externalId = some eid ∧ eid ≠ "" := by
  unfold BatchMemoryInput.externalId?
  rw [Option.filter_eq_some_iff]
  simp

namespace BatchEntry

/-- The memory an entry adds, with the parents it comes to have. -/
def node (entry : BatchEntry) (parentIds : List Nat) : MemoryNode :=
  ⟨entry.outcome.memoryId, parentIds, entry.item.memory.externalId, entry.item.memory.userId.getD 0⟩

variable (named : String → Option Nat) (entry : BatchEntry)

@[simp] theorem completed_item : (entry.completed named).item = entry.item := by
  unfold completed; split <;> rfl

@[simp] theorem completed_memoryId : (entry.completed named).outcome.memoryId = entry.outcome.memoryId := by
  unfold completed; split <;> rfl

@[simp] theorem completed_created : (entry.completed named).outcome.created = entry.outcome.created := by
  unfold completed; split <;> rfl

@[simp] theorem completed_position : (entry.completed named).outcome.position = entry.outcome.position := by
  unfold completed; split <;> rfl

end BatchEntry

namespace Roster

variable {r : Roster} {threadId : Nat} {batchEids : List String} {items : List BatchMemoryInput}

theorem filterMap_node (named : String → Option Nat) (entries : List BatchEntry) :
    (entries.map (BatchEntry.completed named)).filterMap BatchEntry.node? =
      (entries.filter fun entry => entry.outcome.created).map
        fun entry => entry.node (entry.completed named).outcome.resolvedParentIds := by
  induction entries with
  | nil => rfl
  | cons entry entries ih =>
    cases hcreated : entry.outcome.created <;> simp [BatchEntry.node?, BatchEntry.node, hcreated, ih]

theorem filterMap_place (named : String → Option Nat) (entries : List BatchEntry) :
    (entries.map (BatchEntry.completed named)).filterMap (BatchEntry.place? threadId) =
      ((entries.filter fun entry => entry.outcome.created).map
        fun entry => (entry.outcome.memoryId, entry.outcome.position)).map
          fun (memoryId, position) => ⟨threadId, memoryId, position⟩ := by
  induction entries with
  | nil => rfl
  | cons entry entries ih =>
    cases hcreated : entry.outcome.created <;> simp [BatchEntry.place?, hcreated, ih]

/-- The roster after the import. -/
abbrev after (r : Roster) (threadId : Nat) (batchEids : List String) (items : List BatchMemoryInput) : Roster :=
  r.written threadId (r.imported threadId batchEids items)

theorem after_nextId : (r.after threadId batchEids items).nextId =
    r.nextId + createdCount (r.entries threadId batchEids items) := by
  simp [written, imported, createdCount, List.countP_map, Function.comp_def]

theorem after_nodes : (r.after threadId batchEids items).nodes = r.nodes ++
    ((r.entries threadId batchEids items).filter fun entry => entry.outcome.created).map fun entry =>
      entry.node (entry.completed (r.named threadId (r.entries threadId batchEids items))).outcome.resolvedParentIds := by
  show r.nodes ++ (r.imported threadId batchEids items).filterMap BatchEntry.node? = _
  rw [imported, filterMap_node]

/-- The new places: in the order of the entries, after the last. -/
theorem after_places (h : ∀ item ∈ items, item.externalId?.isSome) :
    (r.after threadId batchEids items).places = r.places ++
      (List.range (createdCount (r.entries threadId batchEids items))).map fun k =>
        ⟨threadId, r.nextId + k, r.nextPosition threadId + k⟩ := by
  show r.places ++ (r.imported threadId batchEids items).filterMap (BatchEntry.place? threadId) = _
  rw [imported, filterMap_place, (entries_numbered h).created, List.map_map]
  rfl

theorem mem_after_nodes {node : MemoryNode} : node ∈ (r.after threadId batchEids items).nodes ↔
    node ∈ r.nodes ∨ ∃ entry ∈ r.entries threadId batchEids items, entry.outcome.created = true ∧
      entry.node (entry.completed (r.named threadId (r.entries threadId batchEids items))).outcome.resolvedParentIds =
        node := by
  simp only [after_nodes, List.mem_append, List.mem_map, List.mem_filter, and_assoc]

theorem mem_after_places (h : ∀ item ∈ items, item.externalId?.isSome) {place : Place} :
    place ∈ (r.after threadId batchEids items).places ↔
      place ∈ r.places ∨ ∃ k < createdCount (r.entries threadId batchEids items),
        ⟨threadId, r.nextId + k, r.nextPosition threadId + k⟩ = place := by
  simp only [after_places h, List.mem_append, List.mem_map, List.mem_range]

/-- **The import keeps the keys.** -/
theorem Keyed.after (hr : r.Keyed) (batchEids : List String) (ht : r.Takes threadId items) : (r.after threadId batchEids items).Keyed where
  nodeIds := by
    have hids : ((r.entries threadId batchEids items).filter fun entry => entry.outcome.created).map
        (fun entry => entry.outcome.memoryId) =
        (List.range (createdCount (r.entries threadId batchEids items))).map fun k => r.nextId + k := by
      have := congrArg (List.map Prod.fst) (@entries_numbered r threadId batchEids items ht.named).created
      simpa [List.map_map, Function.comp_def] using this
    rw [after_nodes, List.map_append, List.map_map]
    refine List.nodup_append.2 ⟨hr.nodeIds, ?_, fun id hid id' hid' he => ?_⟩
    · show (((r.entries threadId batchEids items).filter fun entry => entry.outcome.created).map
        fun entry => entry.outcome.memoryId).Nodup
      rw [hids]
      exact List.Nodup.map (fun a b hab => Nat.add_left_cancel hab) List.nodup_range
    · obtain ⟨node, hnode, rfl⟩ := List.mem_map.1 hid
      obtain ⟨entry, hentry, rfl⟩ := List.mem_map.1 hid'
      obtain ⟨hmem, hcreated⟩ := List.mem_filter.1 hentry
      obtain ⟨_, k, -, -, -, hk, -⟩ := new_of_mem ht hmem hcreated
      have hlt := hr.nodeId_lt node hnode
      have he : node.id = entry.outcome.memoryId := he
      omega
  nodeId_lt node hnode := by
    rw [after_nextId]
    rcases mem_after_nodes.1 hnode with hnode | ⟨entry, hentry, hcreated, rfl⟩
    · exact Nat.lt_of_lt_of_le (hr.nodeId_lt node hnode) (Nat.le_add_right _ _)
    · obtain ⟨_, k, -, -, hlt, hk, -⟩ := new_of_mem ht hentry hcreated
      show entry.outcome.memoryId < _
      omega
  externalIds node hnode node' hnode' eid heid heid' := by
    -- The name of a new memory was nobody's.
    have hfresh : ∀ old ∈ r.nodes, ∀ entry ∈ r.entries threadId batchEids items, entry.outcome.created = true →
        old.externalId = some eid → entry.item.memory.externalId = some eid → False := by
      intro old hold entry hentry hcreated hname hname'
      obtain ⟨eid', _, heid', hnone, -⟩ := new_of_mem ht hentry hcreated
      obtain ⟨hmemory, hne⟩ := BatchMemoryInput.externalId?_iff.1 heid'
      obtain rfl := Option.some.inj (hmemory.symm.trans hname')
      exact absurd (hnone.symm.trans (hr.existing_iff.2 ⟨hne, hold, hname, rfl⟩)) (by simp)
    rcases mem_after_nodes.1 hnode with hnode | ⟨entry, hentry, hcreated, rfl⟩ <;>
      rcases mem_after_nodes.1 hnode' with hnode' | ⟨entry', hentry', hcreated', rfl⟩
    · exact hr.externalIds node hnode node' hnode' eid heid heid'
    · exact (hfresh node hnode entry' hentry' hcreated' heid heid').elim
    · exact (hfresh node' hnode' entry hentry hcreated heid' heid).elim
    · obtain ⟨eid₁, _, heid₁, -⟩ := new_of_mem ht hentry hcreated
      obtain ⟨eid₂, _, heid₂, -⟩ := new_of_mem ht hentry' hcreated'
      have h₁ := (BatchMemoryInput.externalId?_iff.1 heid₁).1.symm.trans heid
      have h₂ := (BatchMemoryInput.externalId?_iff.1 heid₂).1.symm.trans heid'
      have hsame := List.inj_on_of_nodup_map (entries_names_nodup batchEids ht) hentry hentry'
        (by rw [heid₁, heid₂, h₁, h₂])
      rw [hsame]
  placed_lt place hplace := by
    rw [after_nextId]
    rcases (mem_after_places ht.named).1 hplace with hplace | ⟨k, hk, rfl⟩
    · exact Nat.lt_of_lt_of_le (hr.placed_lt place hplace) (Nat.le_add_right _ _)
    · exact Nat.add_lt_add_left hk _
  memories := by
    rw [after_places ht.named, List.map_append, List.map_map]
    refine List.nodup_append.2 ⟨hr.memories, ?_, fun key hkey key' hkey' he => ?_⟩
    · refine List.Nodup.map (fun a b hab => ?_) List.nodup_range
      exact Nat.add_left_cancel (Prod.mk.inj hab).2
    · obtain ⟨place, hplace, rfl⟩ := List.mem_map.1 hkey
      obtain ⟨k, -, rfl⟩ := List.mem_map.1 hkey'
      have hlt := hr.placed_lt place hplace
      have hmemory : place.memoryId = r.nextId + k := (Prod.mk.inj he).2
      omega
  positions := by
    rw [after_places ht.named, List.map_append, List.map_map]
    refine List.nodup_append.2 ⟨hr.positions, ?_, fun key hkey key' hkey' he => ?_⟩
    · refine List.Nodup.map (fun a b hab => ?_) List.nodup_range
      exact Nat.add_left_cancel (Prod.mk.inj hab).2
    · obtain ⟨place, hplace, rfl⟩ := List.mem_map.1 hkey
      obtain ⟨k, -, rfl⟩ := List.mem_map.1 hkey'
      have hthread : place.threadId = threadId := (Prod.mk.inj he).1
      have hposition : place.position = r.nextPosition threadId + k := (Prod.mk.inj he).2
      have hlt := position_lt_nextPosition hplace hthread
      omega

/-- The memory of an entry, new or not, is there after the import. -/
theorem node_after (hr : r.Keyed) (ht : r.Takes threadId items) {entry : BatchEntry}
    (h : entry ∈ r.entries threadId batchEids items) {eid : String} (heid : entry.item.externalId? = some eid) :
    ∃ node ∈ (r.after threadId batchEids items).nodes, node.externalId = some eid ∧
      node.id = entry.outcome.memoryId := by
  cases hcreated : entry.outcome.created with
  | true =>
    exact ⟨_, mem_after_nodes.2 (.inr ⟨entry, h, hcreated, rfl⟩), (BatchMemoryInput.externalId?_iff.1 heid).1, rfl⟩
  | false =>
    obtain ⟨eid', node, position, heid', hexisting, hid, -⟩ := existing_of_mem ht h hcreated
    obtain rfl := Option.some.inj (heid.symm.trans heid')
    obtain ⟨-, hnode, hname, -⟩ := hr.existing_iff.1 hexisting
    exact ⟨node, mem_after_nodes.2 (.inl hnode), hname, hid.symm⟩

/-- An entry's memory is attached at its position. -/
theorem place_after (hr : r.Keyed) (ht : r.Takes threadId items) {entry : BatchEntry}
    (h : entry ∈ r.entries threadId batchEids items) :
    ⟨threadId, entry.outcome.memoryId, entry.outcome.position⟩ ∈ (r.after threadId batchEids items).places := by
  rw [mem_after_places ht.named]
  cases hcreated : entry.outcome.created with
  | true =>
    obtain ⟨_, k, -, -, hk, hid, hposition⟩ := new_of_mem ht h hcreated
    exact .inr ⟨k, hk, by rw [hid, hposition]⟩
  | false =>
    obtain ⟨_, node, position, -, hexisting, hid, hposition⟩ := existing_of_mem ht h hcreated
    obtain ⟨place, hfind, hplace⟩ := Option.map_eq_some_iff.1 (hr.existing_iff.1 hexisting).2.2.2
    obtain ⟨hmem, hthread, hmemory⟩ := hr.findPlace_iff.1 hfind
    left
    rw [hid, hposition, ← hplace, ← hthread, ← hmemory]
    exact hmem

/-- **The names after the import** are those its entries were resolved by. -/
theorem after_attachedId (hr : r.Keyed) (ht : r.Takes threadId items) (eid : String) :
    (r.after threadId batchEids items).attachedId threadId eid =
      r.named threadId (r.entries threadId batchEids items) eid := by
  have hafter := hr.after batchEids ht
  cases hnamed : r.named threadId (r.entries threadId batchEids items) eid with
  | some id =>
    rw [hafter.attachedId_iff]
    rcases Option.or_eq_some_iff.1 hnamed with hassigned | ⟨-, hattached⟩
    · obtain ⟨entry, hentry, heid, rfl⟩ := exists_of_assigned hassigned
      obtain ⟨node, hnode, hname, hid⟩ := node_after hr ht hentry heid
      exact ⟨(BatchMemoryInput.externalId?_iff.1 heid).2, node, hnode, hname, hid, _, place_after hr ht hentry, rfl, rfl⟩
    · obtain ⟨hne, node, hnode, hname, hid, place, hplace, hspec⟩ := hr.attachedId_iff.1 hattached
      exact ⟨hne, node, mem_after_nodes.2 (.inl hnode), hname, hid, place,
        (mem_after_places ht.named).2 (.inl hplace), hspec⟩
  | none =>
    rw [Option.eq_none_iff_forall_ne_some]
    intro id hid
    obtain ⟨hne, node, hnode, hname, hnid, place, hplace, hthread, hmemory⟩ := hafter.attachedId_iff.1 hid
    rcases mem_after_nodes.1 hnode with hnode | ⟨entry, hentry, -, rfl⟩
    · rcases (mem_after_places ht.named).1 hplace with hplace | ⟨k, -, rfl⟩
      · have hattached := hr.attachedId_iff.2 ⟨hne, node, hnode, hname, hnid, place, hplace, hthread, hmemory⟩
        rw [named, Option.or_eq_none_iff, hattached] at hnamed
        exact absurd hnamed.2 (by simp)
      · have hlt := hr.nodeId_lt node hnode
        have hmemory : r.nextId + k = id := hmemory
        omega
    · have hsome := named_of_mem ht hentry (BatchMemoryInput.externalId?_iff.2 ⟨hname, hne⟩)
      rw [hnamed] at hsome
      exact absurd hsome (by simp)

/-! ## Importing again -/

/-- After the import every entry is there and attached. -/
theorem after_existing (hr : r.Keyed) (ht : r.Takes threadId items) {entry : BatchEntry}
    (h : entry ∈ r.entries threadId batchEids items) {eid : String} (heid : entry.item.externalId? = some eid) :
    ∃ node, (r.after threadId batchEids items).existing threadId eid = some (node, some entry.outcome.position) ∧
      node.id = entry.outcome.memoryId := by
  have hafter := hr.after batchEids ht
  obtain ⟨node, hnode, hname, hid⟩ := node_after hr ht h heid
  have hfind := hafter.findPlace_iff.2 ⟨place_after hr ht h, rfl, hid.symm⟩
  exact ⟨node, hafter.existing_iff.2 ⟨(BatchMemoryInput.externalId?_iff.1 heid).2, hnode, hname, by rw [hfind]; rfl⟩, hid⟩

/-- Every entry is there. -/
def Knows (r : Roster) (threadId : Nat) (items : List BatchMemoryInput) : Prop :=
  ∀ item ∈ items, ∀ eid, item.externalId? = some eid → (r.existing threadId eid).isSome

theorem after_takes (hr : r.Keyed) (ht : r.Takes threadId items) :
    (r.after threadId batchEids items).Takes threadId items ∧
      (r.after threadId batchEids items).Knows threadId items := by
  have hfound : ∀ item ∈ items, ∀ eid, item.externalId? = some eid →
      ∃ node position, (r.after threadId batchEids items).existing threadId eid = some (node, some position) := by
    intro item hitem eid heid
    rw [← @entries_items r threadId batchEids items] at hitem
    obtain ⟨entry, hentry, rfl⟩ := List.mem_map.1 hitem
    obtain ⟨node, hexisting, -⟩ := after_existing hr ht hentry heid
    exact ⟨node, _, hexisting⟩
  refine ⟨⟨ht.named, ht.nodup, fun item hitem eid heid node position h => ?_⟩, fun item hitem eid heid => ?_⟩
  · obtain ⟨node', position', hexisting⟩ := hfound item hitem eid heid
    rw [h] at hexisting
    rw [(Prod.mk.inj (Option.some.inj hexisting)).2]
    rfl
  · obtain ⟨node, position, hexisting⟩ := hfound item hitem eid heid
    rw [hexisting]
    rfl

section Known

variable {entry : BatchEntry}

theorem not_created (ht : r.Takes threadId items) (hk : r.Knows threadId items)
    (h : entry ∈ r.entries threadId batchEids items) : entry.outcome.created = false := by
  cases hcreated : entry.outcome.created with
  | false => rfl
  | true =>
    obtain ⟨eid, _, heid, hnone, -⟩ := new_of_mem ht h hcreated
    have hsome := hk _ (mem_items h) eid heid
    rw [hnone] at hsome
    exact absurd hsome (by simp)

/-- When every entry is there, a name means what it meant. -/
theorem named_of_known (ht : r.Takes threadId items) (hk : r.Knows threadId items) {before : List BatchEntry}
    (hsub : ∀ entry ∈ before, entry ∈ r.entries threadId batchEids items) :
    r.named threadId before = r.attachedId threadId := by
  funext eid
  unfold named
  cases hassigned : assigned before eid with
  | none => rw [Option.none_or]
  | some id =>
    obtain ⟨entry, hentry, heid, rfl⟩ := exists_of_assigned hassigned
    have hmem := hsub entry hentry
    obtain ⟨eid', node, position, heid', hexisting, hid, -⟩ := existing_of_mem ht hmem (not_created ht hk hmem)
    obtain rfl := Option.some.inj (heid.symm.trans heid')
    rw [attachedId_of_existing hexisting, Option.some_or, hid]

theorem resolved_of_known (ht : r.Takes threadId items) (hk : r.Knows threadId items)
    (h : entry ∈ r.entries threadId batchEids items) :
    entry.outcome.resolvedParentIds = distinct (entry.item.parentExternalIds.filterMap (r.attachedId threadId)) := by
  obtain ⟨before, after, heq, hentry⟩ := entries_split items h
  rw [resolved_eq hentry, named_of_known ht hk fun e he => heq ▸ List.mem_append_left _ he]

theorem imported_of_known (ht : r.Takes threadId items) (hk : r.Knows threadId items) :
    r.imported threadId batchEids items = r.entries threadId batchEids items := by
  unfold imported
  conv_rhs => rw [← List.map_id (r.entries threadId batchEids items)]
  refine List.map_congr_left fun entry hentry => ?_
  rw [BatchEntry.completed, if_neg (by rw [not_created ht hk hentry]; decide)]
  rfl

/-- **An import of what is there writes nothing.** -/
theorem after_of_known (ht : r.Takes threadId items) (hk : r.Knows threadId items) :
    r.after threadId batchEids items = r := by
  have hcount : createdCount (r.entries threadId batchEids items) = 0 :=
    List.countP_eq_zero.2 fun entry hentry => by rw [not_created ht hk hentry]; decide
  have hnodes : ((r.entries threadId batchEids items).filter fun entry => entry.outcome.created) = [] :=
    List.filter_eq_nil_iff.2 fun entry hentry => by rw [not_created ht hk hentry]; decide
  have hnext := @after_nextId r threadId batchEids items
  have hmemories := @after_nodes r threadId batchEids items
  have hplaces := @after_places r threadId batchEids items ht.named
  rw [hcount] at hnext hplaces
  rw [hnodes] at hmemories
  cases hroster : r.after threadId batchEids items with
  | mk nextId nodes places =>
    rw [hroster] at hnext hmemories hplaces
    simp only [Nat.add_zero, List.map_nil, List.append_nil, List.range_zero] at hnext hmemories hplaces
    rw [hnext, hmemories, hplaces]

end Known

/-! ## The parents of what was there -/

/-- The memory of the entry is there already. -/
def Stored (r : Roster) (threadId : Nat) (item : BatchMemoryInput) : Prop :=
  ∃ eid, item.externalId? = some eid ∧ (r.existing threadId eid).isSome

/-- No entry of a stored memory refers to a later one of a new memory. -/
def NoForward (r : Roster) (threadId : Nat) (items : List BatchMemoryInput) : Prop :=
  items.Pairwise fun item later => r.Stored threadId item → ¬r.Stored threadId later →
    ∀ eid, later.externalId? = some eid → eid ∉ item.parentExternalIds

theorem created_iff (ht : r.Takes threadId items) {entry : BatchEntry}
    (h : entry ∈ r.entries threadId batchEids items) : entry.outcome.created = false ↔ r.Stored threadId entry.item := by
  constructor
  · intro hcreated
    obtain ⟨eid, node, position, heid, hexisting, -⟩ := existing_of_mem ht h hcreated
    exact ⟨eid, heid, by rw [hexisting]; rfl⟩
  · intro ⟨eid, heid, hsome⟩
    cases hcreated : entry.outcome.created with
    | false => rfl
    | true =>
      obtain ⟨eid', _, heid', hnone, -⟩ := new_of_mem ht h hcreated
      obtain rfl := Option.some.inj (heid.symm.trans heid')
      rw [hnone] at hsome
      exact absurd hsome (by simp)

theorem pairwise_of_splits {α : Type} {R : α → α → Prop} : ∀ {l : List α},
    (∀ before a after, l = before ++ a :: after → ∀ b ∈ after, R a b) → l.Pairwise R
  | [], _ => List.Pairwise.nil
  | a :: l, h => List.pairwise_cons.2 ⟨h [] a l rfl, pairwise_of_splits fun before b after heq =>
      h (a :: before) b after (by rw [heq]; rfl)⟩

theorem rel_of_split {α : Type} {R : α → α → Prop} {l before after : List α} {a b : α} (h : l.Pairwise R)
    (heq : l = before ++ a :: after) (hb : b ∈ after) : R a b := by
  rw [heq, List.pairwise_append, List.pairwise_cons] at h
  exact h.2.1.1 b hb

/-- **The stored memories' parents are all resolved** exactly if none of them refers forward to a new memory. -/
theorem existing_parents_iff (hr : r.Keyed) (ht : r.Takes threadId items) :
    (∀ entry ∈ r.entries threadId batchEids items, entry.outcome.created = false →
      ∀ id, id ∈ entry.outcome.resolvedParentIds ↔ ∃ eid ∈ entry.item.parentExternalIds,
        r.named threadId (r.entries threadId batchEids items) eid = some id) ↔ r.NoForward threadId items := by
  unfold NoForward
  conv_rhs => rw [← @entries_items r threadId batchEids items]
  rw [List.pairwise_map]
  constructor
  · intro hall
    refine pairwise_of_splits fun before entry after heq later hlater hstored hnew eid heid hparent => ?_
    have hentry : entry ∈ r.entries threadId batchEids items := by rw [heq]; simp
    have hmem : later ∈ r.entries threadId batchEids items := by rw [heq]; simp [hlater]
    have hnamed := named_of_mem ht hmem heid
    have hcreated := (created_iff ht hentry).2 hstored
    have hlaterCreated : later.outcome.created = true := by
      rw [← Bool.not_eq_false]
      exact fun h => hnew ((created_iff ht hmem).1 h)
    have hid := (hall entry hentry hcreated later.outcome.memoryId).2 ⟨eid, hparent, hnamed⟩
    rw [resolved_eq (entry_of_split items heq), mem_distinct_filterMap] at hid
    obtain ⟨eid', -, hid⟩ := hid
    -- Before the entry, the later memory has no name.
    rcases Option.or_eq_some_iff.1 hid with hassigned | ⟨-, hattached⟩
    · obtain ⟨earlier, hearlier, -, hsame⟩ := exists_of_assigned hassigned
      have hmem' : earlier ∈ r.entries threadId batchEids items := by rw [heq]; simp [hearlier]
      obtain rfl := eq_of_memoryId hr ht hmem' hmem hsame
      have hnodup := (entries_names_nodup batchEids ht).of_map
      rw [heq, List.nodup_append] at hnodup
      exact hnodup.2.2 earlier hearlier earlier (List.mem_cons_of_mem _ hlater) rfl
    · obtain ⟨-, node, hnode, -, hnid, -⟩ := hr.attachedId_iff.1 hattached
      obtain ⟨_, k, -, -, -, hk, -⟩ := new_of_mem ht hmem hlaterCreated
      have hlt := hr.nodeId_lt node hnode
      omega
  · intro hpairwise entry hentry hcreated id
    obtain ⟨before, after, heq, hspec⟩ := entries_split items hentry
    rw [resolved_eq hspec, mem_distinct_filterMap]
    constructor
    · rintro ⟨eid, hparent, hid⟩
      exact ⟨eid, hparent, named_mono ht heq hid⟩
    · rintro ⟨eid, hparent, hid⟩
      cases hbefore : r.named threadId before eid with
      | some id' =>
        have hsame := (named_mono ht heq hbefore).symm.trans hid
        exact ⟨eid, hparent, hbefore.trans hsame⟩
      | none =>
        obtain ⟨later, hlater, heid, -, hnew⟩ := exists_later ht heq hbefore hid
        rcases List.mem_cons.1 hlater with rfl | hlater
        · rw [hcreated] at hnew
          exact absurd hnew (by simp)
        · have hmem : later ∈ r.entries threadId batchEids items := by rw [heq]; simp [hlater]
          refine absurd hparent (rel_of_split hpairwise heq hlater ((created_iff ht hentry).1 hcreated) (fun hstored => ?_)
            eid heid)
          rw [(created_iff ht hmem).2 hstored] at hnew
          exact absurd hnew (by simp)

end Roster

end MemoryStore.Conversation
