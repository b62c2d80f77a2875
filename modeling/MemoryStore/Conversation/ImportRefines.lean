/-
The loops of an import compute the entries of the roster: the first one entry
after the other, the second with the parents that come later.
-/
import MemoryStore.Conversation.RosterWrites

namespace MemoryStore.Conversation

/-! ## The entries -/

namespace Roster

/-- An entry whose memory is there may be imported if it is to be overwritten, by its author and in its thread. -/
def Accepts (r : Roster) (threadId : Nat) (upsert : Bool) (item : BatchMemoryInput) : Prop :=
  ∀ eid, item.externalId? = some eid → ∀ node position, r.existing threadId eid = some (node, position) →
    upsert = true ∧ node.author = item.memory.userId.getD 0 ∧ position.isSome

variable {r : Roster} {threadId : Nat} {batchEids : List String} {items : List BatchMemoryInput}

theorem findPlace_isSome {memoryId : Nat} : (r.findPlace threadId memoryId).isSome ↔
    ∃ place ∈ r.places, place.threadId = threadId ∧ place.memoryId = memoryId := by
  simp [findPlace]

/-- Completing entries moves nothing. -/
theorem written_places (named : String → Option Nat) (done rest : List BatchEntry) :
    (r.written threadId (done.map (BatchEntry.completed named) ++ rest)).places =
      (r.written threadId (done ++ rest)).places := by
  have hplace : BatchEntry.place? threadId ∘ BatchEntry.completed named = BatchEntry.place? threadId := by
    funext entry
    simp [BatchEntry.place?]
  show r.places ++ _ = r.places ++ _
  rw [List.filterMap_append, List.filterMap_map, hplace, ← List.filterMap_append]

theorem written_nodeIds (named : String → Option Nat) (done rest : List BatchEntry) :
    (r.written threadId (done.map (BatchEntry.completed named) ++ rest)).nodes.map MemoryNode.id =
      (r.written threadId (done ++ rest)).nodes.map MemoryNode.id := by
  have hnode : (fun entry => (BatchEntry.node? entry).map MemoryNode.id) ∘ BatchEntry.completed named =
      fun entry => (BatchEntry.node? entry).map MemoryNode.id := by
    funext entry
    cases hcreated : entry.outcome.created <;> simp [BatchEntry.node?, hcreated]
  show (r.nodes ++ _).map MemoryNode.id = (r.nodes ++ _).map MemoryNode.id
  rw [List.map_append, List.map_append, List.map_filterMap, List.map_filterMap, List.filterMap_append,
    List.filterMap_map, hnode, ← List.filterMap_append]

/-- What a name means among the entries so far is attached. -/
theorem place_of_named (hr : r.Keyed) (ht : r.Takes threadId items) {eid : String} {id : Nat}
    (h : r.named threadId (r.entries threadId batchEids items) eid = some id) :
    ((r.written threadId (r.entries threadId batchEids items)).findPlace threadId id).isSome := by
  rw [← after_attachedId hr ht, (hr.after batchEids ht).attachedId_iff] at h
  obtain ⟨-, _, -, -, -, place, hplace, hspec⟩ := h
  refine findPlace_isSome.2 ⟨place, ?_, hspec⟩
  have hplaces := @written_places r threadId (r.named threadId (r.entries threadId batchEids items))
    (r.entries threadId batchEids items) []
  rw [List.append_nil, List.append_nil] at hplaces
  rw [← hplaces]
  exact hplace

end Roster

/-- The forward references of entries, counted from `k`. -/
def forwardRefs : Nat → List BatchEntry → List ForwardRef
  | _, [] => []
  | k, entry :: rest => (if entry.pending.isEmpty then [] else [⟨k, entry.pending⟩]) ++ forwardRefs (k + 1) rest

theorem forwardRefs_concat (entry : BatchEntry) : ∀ (k : Nat) (entries : List BatchEntry),
    forwardRefs k (entries ++ [entry]) =
      forwardRefs k entries ++ if entry.pending.isEmpty then [] else [⟨k + entries.length, entry.pending⟩]
  | k, [] => by simp [forwardRefs]
  | k, first :: rest => by
    rw [List.cons_append, forwardRefs, forwardRefs, forwardRefs_concat entry (k + 1) rest, List.append_assoc,
      List.length_cons, Nat.add_assoc, Nat.add_comm 1]

/-- The first loop has processed the entries: what it has written, and its accumulators. -/
structure Reached (r : Roster) (threadId : Nat) (wanted : List String) (entries : List BatchEntry) (s₁ : Store)
    (st : BatchState) (s : Store) : Prop where
  roster : s.roster = r.written threadId entries
  threads : s.threads.map ThreadRow.key = s₁.threads.map ThreadRow.key
  outcomes : st.outcomes = entries.map BatchEntry.outcome
  lookup : ∀ eid ∈ wanted, st.eidMap.lookup eid = r.named threadId entries eid
  forwardRefs : st.forwardRefs = MemoryStore.Conversation.forwardRefs 0 entries

theorem lookup_cons_eid {item : BatchMemoryInput} {eidMap : List (String × Nat)} {id : Nat} {eid : String} :
    (item.externalId?.toList.map (fun name => (name, id)) ++ eidMap).lookup eid =
      if item.externalId? = some eid then some id else eidMap.lookup eid := by
  cases hname : item.externalId? with
  | none => simp
  | some name =>
    simp only [Option.toList_some, List.map_cons, List.map_nil, List.singleton_append, List.lookup_cons, Option.some.injEq]
    by_cases heq : eid = name
    · simp [heq]
    · simp [beq_false_of_ne heq, Ne.symm heq]

theorem Roster.named_concat {r : Roster} {threadId : Nat} (before : List BatchEntry) (entry : BatchEntry) (eid : String) :
    r.named threadId (before ++ [entry]) eid =
      if entry.item.externalId? = some eid then some entry.outcome.memoryId else r.named threadId before eid := by
  unfold Roster.named
  rw [assigned_concat]
  split
  · rw [Option.some_or]
  · rfl

variable {r : Roster} {threadId : Nat} {batchEids wanted : List String} {s s₁ : Store}

/-- An entry's parents, by the accumulated map, are those of the roster. -/
theorem Reached.parents (batchEids : List String) {before : List BatchEntry} {st : BatchState} (h : Reached r threadId wanted before s₁ st s)
    {item : BatchMemoryInput} (hwanted : ∀ eid ∈ item.parentExternalIds, eid ∈ wanted) :
    resolvedParents st.eidMap item.parentExternalIds =
        distinct (item.parentExternalIds.filterMap (r.named threadId before)) ∧
      pendingParents st.eidMap batchEids item.parentExternalIds = (r.entry threadId batchEids before item).pending := by
  constructor
  · exact congrArg distinct (List.filterMap_congr fun eid heid => h.lookup eid (hwanted eid heid))
  · exact List.filter_congr fun eid heid => by rw [h.lookup eid (hwanted eid heid)]

/-- The accumulators after one more entry. -/
theorem Reached.push {before : List BatchEntry} {st st' : BatchState} {s' : Store}
    (h : Reached r threadId wanted before s₁ st s) {item : BatchMemoryInput} {entry : BatchEntry}
    (hentry : entry = r.entry threadId batchEids before item)
    (hroster : s'.roster = r.written threadId (before ++ [entry]))
    (hthreads : s'.threads.map ThreadRow.key = s.threads.map ThreadRow.key)
    (houtcomes : st'.outcomes = st.outcomes ++ [entry.outcome])
    (heidMap : st'.eidMap = item.externalId?.toList.map (fun name => (name, entry.outcome.memoryId)) ++ st.eidMap)
    (hrefs : st'.forwardRefs =
      if entry.pending.isEmpty then st.forwardRefs else st.forwardRefs ++ [⟨st.outcomes.length, entry.pending⟩]) :
    Reached r threadId wanted (before ++ [entry]) s₁ st' s' where
  roster := hroster
  threads := hthreads.trans h.threads
  outcomes := by rw [houtcomes, h.outcomes, List.map_append]; rfl
  lookup eid heid := by
    have hitem : entry.item = item := by rw [hentry]; rfl
    rw [heidMap, lookup_cons_eid, Roster.named_concat, h.lookup eid heid, hitem]
  forwardRefs := by
    rw [hrefs, forwardRefs_concat, h.forwardRefs, h.outcomes, List.length_map, Nat.zero_add]
    split
    · rw [List.append_nil]
    · rfl

theorem Roster.written_existing {before : List BatchEntry} {entry : BatchEntry} (h : entry.outcome.created = false) :
    r.written threadId (before ++ [entry]) = r.written threadId before := by
  simp [Roster.written, BatchEntry.node?, BatchEntry.place?, h]

theorem Roster.written_new {before : List BatchEntry} {entry : BatchEntry} (h : entry.outcome.created = true) :
    r.written threadId (before ++ [entry]) = ⟨(r.written threadId before).nextId + 1,
      (r.written threadId before).nodes ++ [entry.node entry.outcome.resolvedParentIds],
      (r.written threadId before).places ++ [⟨threadId, entry.outcome.memoryId, entry.outcome.position⟩]⟩ := by
  simp [Roster.written, BatchEntry.node?, BatchEntry.place?, BatchEntry.node, h, Nat.add_assoc]

/-- **One pass of the first loop** adds the roster's entry. A pass over an acceptable entry whose memory is
there does not fail. -/
theorem processEntry_refines [Deployment] (hr : r.Keyed) (now : Int) (upsert : Bool) {done : List BatchMemoryInput}
    (ht : r.Takes threadId done) (hs₁ : s₁.roster = r) {st : BatchState}
    (h : Reached r threadId wanted (r.entries threadId batchEids done) s₁ st s) {item : BatchMemoryInput}
    (hname : item.externalId?.isSome) (hwanted : ∀ eid ∈ item.parentExternalIds, eid ∈ wanted) :
    Tx.wp (processEntry now threadId upsert (s₁.existingByEid threadId) batchEids st item)
      (fun st' s' => r.Accepts threadId upsert item ∧
        Reached r threadId wanted (r.entries threadId batchEids (done ++ [item])) s₁ st' s')
      (fun _ => ¬(r.Accepts threadId upsert item ∧ r.Stored threadId item)) s := by
  obtain ⟨eid, heid⟩ := Option.isSome_iff_exists.1 hname
  obtain ⟨hresolved, hpending⟩ := Reached.parents batchEids h hwanted
  have hexisting := s₁.roster_existing threadId eid
  rw [hs₁] at hexisting
  rw [Roster.entries_concat]
  unfold processEntry
  simp only [heid, Option.bind_some, hresolved, hpending]
  cases hfound : s₁.existingByEid threadId eid with
  | some found =>
    obtain ⟨row, position⟩ := found
    rw [hfound] at hexisting
    have houtcome := Roster.entry_of_existing batchEids (r.entries threadId batchEids done) heid hexisting
    have haccepts : ∀ {upsert' : Bool}, r.Accepts threadId upsert' item ↔
        upsert' = true ∧ row.data.userId.getD 0 = item.memory.userId.getD 0 ∧ position.isSome := by
      intro upsert'
      constructor
      · exact fun hall => hall eid heid _ _ hexisting
      · intro hspec eid' heid' node position' hexisting'
        obtain rfl := Option.some.inj (heid.symm.trans heid')
        obtain ⟨rfl, rfl⟩ := Prod.mk.inj (Option.some.inj (hexisting.symm.trans hexisting'))
        exact hspec
    dsimp only
    cases upsert with
    | false => exact fun hall => absurd (haccepts.1 hall.1).1 (by decide)
    | true =>
      simp only [Bool.not_true, Bool.false_eq_true, if_false]
      rw [Tx.wp_bind, Tx.wp_ensure]
      refine ⟨fun hauthor => ?_, fun hauthor hall => ?_⟩
      · cases position with
        | none => exact fun hall => absurd (haccepts.1 hall.1).2.2 (by decide)
        | some position =>
          dsimp only
          unfold updateContentOnly modifyMemory
          simp only [Tx.wp_bind, Tx.wp_reads, Tx.wp_writes, Tx.wp_pure]
          have hsame := Store.SameRoster.modifyMemory s row.id
            (f := fun stored => { stored with content := item.memory.content, updatedAt := now })
            fun _ => ⟨rfl, rfl, rfl⟩
          refine ⟨haccepts.2 ⟨rfl, by simpa using hauthor, rfl⟩, ?_⟩
          refine h.push rfl ?_ hsame.2 ?_ ?_ rfl
          · rw [hsame.1, h.roster, Roster.written_existing (by rw [houtcome])]
          · rw [houtcome]
            rfl
          · rw [heid, houtcome]
            rfl
      · rw [(haccepts.1 hall.1).2.1] at hauthor
        simp at hauthor
  | none =>
    rw [hfound] at hexisting
    have hnew : ¬r.Stored threadId item := by
      rintro ⟨eid', heid', hsome⟩
      obtain rfl := Option.some.inj (heid.symm.trans heid')
      rw [hexisting] at hsome
      exact absurd hsome (by decide)
    have houtcome := Roster.entry_of_new batchEids (r.entries threadId batchEids done) heid hexisting
    dsimp only
    rw [Tx.wp_bind]
    refine (addMemoryCore_roster now threadId { item.memory with
      parentIds := distinct (item.parentExternalIds.filterMap (r.named threadId (r.entries threadId batchEids done))) }
      fun parent hp => ?_).mono (fun answer s' hout => ?_) fun _ _ hall => hnew hall.2
    · obtain ⟨name, -, hnamed⟩ := Roster.mem_distinct_filterMap.1 hp
      rw [h.roster]
      exact Roster.place_of_named hr ht hnamed
    · obtain ⟨hid, hthreads, hroster, hposition⟩ := hout
      rw [Tx.wp_bind, Tx.wp_get, Tx.wp_pure]
      rw [← hid] at hposition
      rw [h.roster] at hroster hposition
      have hnext : s.nextId = (r.written threadId (r.entries threadId batchEids done)).nextId :=
        congrArg Roster.nextId h.roster
      refine ⟨fun eid' heid' node position hexisting' => ?_, h.push rfl ?_ hthreads ?_ ?_ rfl⟩
      · obtain rfl := Option.some.inj (heid.symm.trans heid')
        rw [hexisting] at hexisting'
        exact absurd hexisting' (by simp)
      · rw [hroster, Roster.written_new (by rw [houtcome]), BatchEntry.node, houtcome, hnext]
        rfl
      · rw [houtcome, hposition, hid, hnext]
        rfl
      · rw [heid, houtcome, hid, hnext]

/-- Every entry has its own external id. -/
def DistinctNames (items : List BatchMemoryInput) : Prop :=
  (∀ item ∈ items, item.externalId?.isSome) ∧ (items.map BatchMemoryInput.externalId?).Nodup

theorem DistinctNames.init {items rest : List BatchMemoryInput} (h : DistinctNames (items ++ rest)) :
    DistinctNames items := by
  refine ⟨fun item hitem => h.1 item (List.mem_append_left _ hitem), ?_⟩
  have hnodup := h.2
  rw [List.map_append] at hnodup
  exact (List.nodup_append.1 hnodup).1

theorem DistinctNames.takes {items : List BatchMemoryInput} {upsert : Bool} (h : DistinctNames items)
    (haccepts : ∀ item ∈ items, r.Accepts threadId upsert item) : r.Takes threadId items :=
  ⟨h.1, h.2, fun item hitem eid heid node position hexisting =>
    (haccepts item hitem eid heid node position hexisting).2.2⟩

/-- **The first loop** computes the entries. It does not fail on acceptable entries whose memories are there. -/
theorem entries_refine [Deployment] (hr : s.roster.Keyed) (now : Int) (upsert : Bool) {items : List BatchMemoryInput}
    (hnames : DistinctNames items) :
    Tx.wp (Tx.fold items ⟨s.attachedEids threadId items, [], [], []⟩
        (processEntry now threadId upsert (s.existingByEid threadId) batchEids))
      (fun st' s' => (∀ item ∈ items, s.roster.Accepts threadId upsert item) ∧
        Reached s.roster threadId (wantedEids items) (s.roster.entries threadId batchEids items) s st' s')
      (fun _ => ¬∀ item ∈ items, s.roster.Accepts threadId upsert item ∧ s.roster.Stored threadId item) s := by
  have hstart : Reached s.roster threadId (wantedEids items) [] s ⟨s.attachedEids threadId items, [], [], []⟩ s := by
    refine ⟨by simp [Roster.written], rfl, rfl, fun eid heid => ?_, rfl⟩
    rw [Store.lookup_attachedEids s threadId heid, Roster.named, assigned, Option.none_or]
  refine (Tx.wp_fold (I := fun rest st' s' => ∃ done, items = done ++ rest ∧
      (∀ item ∈ done, s.roster.Accepts threadId upsert item) ∧
      Reached s.roster threadId (wantedEids items) (s.roster.entries threadId batchEids done) s st' s')
    (fun item rest st' s' hdone => ?_) ⟨[], rfl, by simp, hstart⟩).imp fun st' s' hdone => ?_
  · obtain ⟨done, heq, haccepts, hreached⟩ := hdone
    have hitem : item ∈ items := by rw [heq]; simp
    have hwanted : ∀ eid ∈ item.parentExternalIds, eid ∈ wantedEids items := fun eid heid =>
      List.mem_flatMap.2 ⟨item, hitem, List.mem_append_left _ heid⟩
    have hdone : DistinctNames done := (heq ▸ hnames).init
    refine (processEntry_refines hr now upsert (hdone.takes haccepts) rfl hreached (hnames.1 item hitem) hwanted).mono
      (fun st'' s'' hout => ?_) fun _ hfail hall => hfail (hall item hitem)
    obtain ⟨haccept, hreached'⟩ := hout
    refine ⟨done ++ [item], by rw [heq, List.append_assoc]; rfl, fun i hi => ?_, hreached'⟩
    rcases List.mem_append.1 hi with hi | hi
    · exact haccepts i hi
    · obtain rfl := List.mem_singleton.1 hi
      exact haccept
  · obtain ⟨done, heq, haccepts, hreached⟩ := hdone
    rw [List.append_nil] at heq
    subst heq
    exact ⟨haccepts, hreached⟩

/-! ## The forward references -/

theorem completed_of_nil {named : String → Option Nat} {entry : BatchEntry} (h : entry.pending = []) :
    entry.completed named = entry := by
  obtain ⟨item, outcome, pending⟩ := entry
  obtain rfl : pending = [] := h
  unfold BatchEntry.completed
  split
  · simp [distinct]
  · rfl

/-- The new parents of a memory, written to its row. -/
theorem Store.roster_updateParents {id : Nat} {parentIds : List Nat} {front back : List MemoryNode} {node : MemoryNode}
    (hnodes : s.roster.nodes = front ++ node :: back) (hid : node.id = id)
    (hnodup : (s.roster.nodes.map MemoryNode.id).Nodup) :
    (s.modifyMemory id fun stored => { stored with parentIds }).roster =
      ⟨s.roster.nextId, front ++ { node with parentIds } :: back, s.roster.places⟩ := by
  have hmap : (s.modifyMemory id fun stored => { stored with parentIds }).memories.map MemoryRow.node =
      Table.modifyWhere (fun node => node.id = id) (fun node => { node with parentIds }) s.roster.nodes := by
    unfold Store.modifyMemory Table.modifyWhere Store.roster
    rw [List.map_map, List.map_map]
    refine List.map_congr_left fun row _ => ?_
    simp only [Function.comp_apply, apply_ite MemoryRow.node]
    rfl
  rw [hnodes, List.map_append, List.map_cons, List.nodup_append, List.nodup_cons] at hnodup
  have hfront : ∀ other ∈ front, decide (other.id = id) = false := fun other hother =>
    decide_eq_false fun heq => hnodup.2.2 other.id (List.mem_map_of_mem hother) node.id List.mem_cons_self
      (heq.trans hid.symm)
  have hback : ∀ other ∈ back, decide (other.id = id) = false := fun other hother =>
    decide_eq_false fun heq => hnodup.2.1.1 (hid.trans heq.symm ▸ List.mem_map_of_mem hother)
  have hwhere : Table.modifyWhere (fun node => node.id = id) (fun node => { node with parentIds }) s.roster.nodes =
      front ++ { node with parentIds } :: back := by
    rw [hnodes, Table.modifyWhere, List.map_append, List.map_cons, if_pos (by simpa using hid)]
    exact congr (congrArg _ (Table.modifyWhere_of_none hfront)) (congrArg _ (Table.modifyWhere_of_none hback))
  rw [← hwhere, ← hmap]
  rfl

theorem completed_of_none {named : String → Option Nat} {entry : BatchEntry}
    (h : entry.outcome.created = false ∨
      distinct ((entry.pending.filterMap named).filter (· ∉ entry.outcome.resolvedParentIds)) = []) :
    entry.completed named = entry := by
  unfold BatchEntry.completed
  split
  · next hcreated =>
    rw [h.resolve_left (by rw [hcreated]; decide), List.append_nil]
  · rfl

section ForwardRefs

variable {items : List BatchMemoryInput} {eidMap : List (String × Nat)} {entries : List BatchEntry}

/-- **One pass of the second loop** completes an entry. -/
theorem resolveForwardRef_refines (hr : r.Keyed) (ht : r.Takes threadId items)
    (hentries : r.entries threadId batchEids items = entries)
    (hlookup : ∀ eid ∈ wanted, eidMap.lookup eid = r.named threadId entries eid)
    (now : Int) {done rest : List BatchEntry} {entry : BatchEntry} (heq : entries = done ++ entry :: rest)
    (hpending : ∀ eid ∈ entry.pending, eid ∈ wanted)
    (hroster : s.roster =
      r.written threadId (done.map (BatchEntry.completed (r.named threadId entries)) ++ entry :: rest)) :
    Tx.wp (resolveForwardRef now threadId eidMap
        ((done.map (BatchEntry.completed (r.named threadId entries)) ++ entry :: rest).map BatchEntry.outcome)
        ⟨done.length, entry.pending⟩)
      (fun outcomes s' =>
        s'.roster = r.written threadId (done.map (BatchEntry.completed (r.named threadId entries)) ++
          entry.completed (r.named threadId entries) :: rest) ∧
        s'.threads.map ThreadRow.key = s.threads.map ThreadRow.key ∧
        outcomes = (done.map (BatchEntry.completed (r.named threadId entries)) ++
          entry.completed (r.named threadId entries) :: rest).map BatchEntry.outcome)
      (fun _ => False) s := by
  have hget : ((done.map (BatchEntry.completed (r.named threadId entries)) ++ entry :: rest).map
      BatchEntry.outcome)[done.length]? = some entry.outcome := by simp
  have hadditions : additions eidMap entry.outcome.resolvedParentIds entry.pending =
      distinct ((entry.pending.filterMap (r.named threadId entries)).filter (· ∉ entry.outcome.resolvedParentIds)) := by
    unfold additions
    rw [List.filterMap_congr fun eid heid => hlookup eid (hpending eid heid)]
  unfold resolveForwardRef
  simp only [hget, hadditions]
  split
  · next hnone =>
    rw [Bool.or_eq_true, Bool.not_eq_true', List.isEmpty_iff] at hnone
    rw [completed_of_none hnone]
    exact ⟨hroster, rfl, rfl⟩
  · next hsome =>
    rw [Bool.or_eq_true, Bool.not_eq_true', List.isEmpty_iff, not_or, Bool.not_eq_false] at hsome
    have hcreated := hsome.1
    unfold updateParentIds modifyMemory
    simp only [Tx.wp_bind, Tx.wp_reads, Tx.wp_writes, Tx.wp_pure]
    have hnodup : (s.roster.nodes.map MemoryNode.id).Nodup := by
      have hafter := (hr.after batchEids ht).nodeIds
      have hall := @Roster.written_nodeIds r threadId (r.named threadId entries) entries []
      rw [List.append_nil, List.append_nil] at hall
      rw [Roster.after, Roster.imported, hentries, hall] at hafter
      rwa [hroster, Roster.written_nodeIds, ← heq]
    have hnodes : s.roster.nodes = (r.nodes ++
          (done.map (BatchEntry.completed (r.named threadId entries))).filterMap BatchEntry.node?) ++
        entry.node entry.outcome.resolvedParentIds :: rest.filterMap BatchEntry.node? := by
      rw [hroster]
      simp [Roster.written, List.filterMap_append, List.filterMap_cons, BatchEntry.node?, BatchEntry.node, hcreated]
    generalize hadded : distinct ((entry.pending.filterMap (r.named threadId entries)).filter
      (· ∉ entry.outcome.resolvedParentIds)) = added at hsome
    have hcompleted : entry.completed (r.named threadId entries) = { entry with
        outcome := { entry.outcome with resolvedParentIds := entry.outcome.resolvedParentIds ++ added } } := by
      rw [BatchEntry.completed, if_pos hcreated, hadded]
    have hupdated := @Store.roster_updateParents s entry.outcome.memoryId
      (entry.outcome.resolvedParentIds ++ added) _ _ _ hnodes rfl hnodup
    have hplaced : ∀ parent ∈ added, ((s.modifyMemory entry.outcome.memoryId fun stored =>
        { stored with parentIds := entry.outcome.resolvedParentIds ++ added }).roster.findPlace threadId parent).isSome := by
      intro parent hp
      rw [← hadded, mem_distinct_iff] at hp
      obtain ⟨eid, -, hnamed⟩ := List.mem_filterMap.1 (List.mem_filter.1 hp).1
      rw [← hentries] at hnamed
      have hplace := Roster.place_of_named hr ht hnamed
      rw [Roster.findPlace_isSome] at hplace ⊢
      rw [hupdated, hroster]
      dsimp only
      rwa [Roster.written_places, ← heq, ← hentries]
    refine Tx.wp_of_ok (attachAll_placed now hplaced) ⟨?_, rfl, ?_⟩
    · rw [hupdated, hcompleted, hroster]
      simp [Roster.written, List.filterMap_append, BatchEntry.node?, BatchEntry.node, BatchEntry.place?, hcreated]
    · rw [hcompleted]
      simp

/-- **The second loop** completes the entries, and does not fail. -/
theorem forwardRefs_refine (hr : r.Keyed) (ht : r.Takes threadId items)
    (hentries : r.entries threadId batchEids items = entries)
    (hlookup : ∀ eid ∈ wanted, eidMap.lookup eid = r.named threadId entries eid)
    (hpending : ∀ entry ∈ entries, ∀ eid ∈ entry.pending, eid ∈ wanted) (now : Int) :
    ∀ (rest done : List BatchEntry) (s : Store), entries = done ++ rest →
      s.roster = r.written threadId (done.map (BatchEntry.completed (r.named threadId entries)) ++ rest) →
      Tx.wp (Tx.fold (forwardRefs done.length rest)
          ((done.map (BatchEntry.completed (r.named threadId entries)) ++ rest).map BatchEntry.outcome)
          (resolveForwardRef now threadId eidMap))
        (fun outcomes s' =>
          s'.roster = r.written threadId (entries.map (BatchEntry.completed (r.named threadId entries))) ∧
          s'.threads.map ThreadRow.key = s.threads.map ThreadRow.key ∧
          outcomes = (entries.map (BatchEntry.completed (r.named threadId entries))).map BatchEntry.outcome)
        (fun _ => False) s
  | [], done, s, heq, hroster => by
    rw [List.append_nil] at heq hroster
    subst heq
    rw [forwardRefs, Tx.fold, Tx.wp_pure, List.append_nil]
    exact ⟨hroster, rfl, rfl⟩
  | entry :: rest, done, s, heq, hroster => by
    have heq' : entries = (done ++ [entry]) ++ rest := by rw [heq, List.append_assoc]; rfl
    have hstep : ∀ outcomes s', s'.roster = r.written threadId
          (done.map (BatchEntry.completed (r.named threadId entries)) ++
            entry.completed (r.named threadId entries) :: rest) →
        s'.threads.map ThreadRow.key = s.threads.map ThreadRow.key →
        outcomes = (done.map (BatchEntry.completed (r.named threadId entries)) ++
            entry.completed (r.named threadId entries) :: rest).map BatchEntry.outcome →
        Tx.wp (Tx.fold (forwardRefs (done.length + 1) rest) outcomes (resolveForwardRef now threadId eidMap))
          (fun outcomes s' =>
            s'.roster = r.written threadId (entries.map (BatchEntry.completed (r.named threadId entries))) ∧
            s'.threads.map ThreadRow.key = s.threads.map ThreadRow.key ∧
            outcomes = (entries.map (BatchEntry.completed (r.named threadId entries))).map BatchEntry.outcome)
          (fun _ => False) s' := by
      intro outcomes s' hroster' hthreads houtcomes
      have ih := forwardRefs_refine hr ht hentries hlookup hpending now rest (done ++ [entry]) s' heq'
      rw [List.map_append, List.append_assoc, List.length_append] at ih
      subst houtcomes
      exact (ih hroster').imp fun outcomes s'' hout => ⟨hout.1, hout.2.1.trans hthreads, hout.2.2⟩
    rw [forwardRefs]
    split
    · next hnil =>
      rw [List.nil_append]
      have hcompleted := @completed_of_nil (r.named threadId entries) entry (List.isEmpty_iff.1 hnil)
      exact hstep _ s (by rw [hcompleted]; exact hroster) rfl (by rw [hcompleted])
    · rw [List.singleton_append, Tx.fold, Tx.wp_bind]
      exact (resolveForwardRef_refines hr ht hentries hlookup now heq
        (hpending entry (by rw [heq]; simp)) hroster).imp fun outcomes s' hout =>
          hstep outcomes s' hout.1 hout.2.1 hout.2.2

end ForwardRefs

/-! ## The batch -/

theorem validateLabels_blind (labels : List String) : Tx.Blind (validateLabels labels) := by
  refine Tx.Blind.bind (Tx.Blind.collect (fun label => ?_) _) fun _ => Tx.Blind.pure _
  exact (Tx.Blind.ensure _ _).bind fun _ => (Tx.Blind.ensure _ _).bind fun _ => Tx.Blind.pure _

/-- The labels pass their checks. -/
def LabelsValid (labels : List String) : Prop := ∃ trimmed, ∀ s, validateLabels labels s = .ok (trimmed, s)

theorem validateLabels_wp (labels : List String) :
    Tx.wp (validateLabels labels) (fun _ s' => s' = s ∧ LabelsValid labels) (fun _ => ¬LabelsValid labels) s := by
  obtain ⟨answer, hblind⟩ := validateLabels_blind labels
  unfold Tx.wp
  rw [hblind]
  cases answer with
  | ok trimmed => exact ⟨rfl, trimmed, hblind⟩
  | error e =>
    rintro ⟨trimmed, hvalid⟩
    have hok := hvalid s
    rw [hblind] at hok
    simp [Except.map] at hok

theorem addLabels_sameRoster (now : Int) (threadId : Nat) (labels : List String) :
    Tx.Does Store.SameRoster (fun _ => False) (Tx.forEach labels fun label => addLabel now threadId label) :=
  Tx.Does.forEach fun label _ => Tx.Does.writes fun s => Store.SameRoster.addLabel s now threadId label

theorem refreshMessageBounds_sameRoster (now : Int) (threadId : Nat) :
    Tx.Does Store.SameRoster (fun _ => False) (refreshMessageBounds now threadId) := by
  intro s
  unfold refreshMessageBounds
  simp only [Tx.wp_bind, Tx.wp_get, Tx.wp_writes, Tx.wp_pure]
  exact Store.SameRoster.setMessageBounds s now threadId _

theorem pending_wanted {items : List BatchMemoryInput} {entry : BatchEntry}
    (h : entry ∈ r.entries threadId batchEids items) {eid : String} (heid : eid ∈ entry.pending) :
    eid ∈ wantedEids items := by
  obtain ⟨before, -, -, hentry⟩ := Roster.entries_split items h
  have hpending : entry.pending = entry.item.parentExternalIds.filter
      fun eid => (r.named threadId before eid).isNone && eid ∈ batchEids := by
    rw [hentry]
    rfl
  rw [hpending] at heid
  exact List.mem_flatMap.2 ⟨entry.item, Roster.mem_items h, List.mem_append_left _ (List.mem_filter.1 heid).1⟩

/-- **A batch writes what the roster says.** It does not fail if every entry is acceptable and its memory
there, and the labels are valid. -/
theorem writeBatch_refines [Deployment] (hr : s.roster.Keyed) (now : Int) (thread : BatchThread) (upsert : Bool)
    (labels : List String) {items : List BatchMemoryInput} (hnames : DistinctNames items) (batchEids : List String) :
    Tx.wp (writeBatch now thread upsert labels items batchEids)
      (fun output s' => (∀ item ∈ items, s.roster.Accepts thread.threadId upsert item) ∧ LabelsValid labels ∧
        s'.roster = s.roster.after thread.threadId batchEids items ∧
        s'.threads.map ThreadRow.key = s.threads.map ThreadRow.key ∧ output.threadId = thread.threadId ∧
        output.outcomes = (s.roster.imported thread.threadId batchEids items).map BatchEntry.outcome)
      (fun _ => ¬((∀ item ∈ items, s.roster.Accepts thread.threadId upsert item ∧
        s.roster.Stored thread.threadId item) ∧ LabelsValid labels)) s := by
  unfold writeBatch
  rw [Tx.wp_bind, Tx.wp_get, Tx.wp_bind]
  refine (entries_refine hr now upsert hnames).mono (fun st s₁ ⟨haccepts, hreached⟩ => ?_) fun _ hfail hall => hfail hall.1
  have ht := hnames.takes haccepts
  rw [Tx.wp_bind, hreached.forwardRefs, hreached.outcomes]
  have hroster : s₁.roster = s.roster.written thread.threadId
      (([] : List BatchEntry).map (BatchEntry.completed (s.roster.named thread.threadId
        (s.roster.entries thread.threadId batchEids items))) ++ s.roster.entries thread.threadId batchEids items) :=
    hreached.roster
  refine (forwardRefs_refine hr ht rfl hreached.lookup (fun entry hentry eid heid => pending_wanted hentry heid) now
    (s.roster.entries thread.threadId batchEids items) [] s₁ rfl hroster).mono
      (fun outcomes s₂ ⟨hroster₂, hthreads₂, houtcomes⟩ => ?_) fun _ hfalse => hfalse.elim
  rw [Tx.wp_bind]
  refine (validateLabels_wp labels).mono (fun trimmed s₃ ⟨he, hlabels⟩ => ?_) fun _ hfail hall => hfail hall.2
  subst he
  rw [Tx.wp_bind]
  refine (addLabels_sameRoster now thread.threadId trimmed s₃).mono (fun _ s₄ hsame₄ => ?_) fun _ hfalse => hfalse.elim
  rw [Tx.wp_bind]
  refine (refreshMessageBounds_sameRoster now thread.threadId s₄).mono (fun _ s₅ hsame₅ => ?_)
    fun _ hfalse => hfalse.elim
  rw [Tx.wp_pure]
  exact ⟨haccepts, hlabels, hsame₅.1.trans (hsame₄.1.trans hroster₂),
    hsame₅.2.trans (hsame₄.2.trans (hthreads₂.trans hreached.threads)), rfl, houtcomes⟩

end MemoryStore.Conversation
