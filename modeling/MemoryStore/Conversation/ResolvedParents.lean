/-
The calls that attach memories by way of their parents: an added memory, a
batch, and the rewiring of a memory. What they resolve through a thread, they
attach to it.
-/
import MemoryStore.Conversation.WiringSpec

namespace MemoryStore.Conversation

open Table

variable {s s' s₁ : Store} {kept : Set (Nat × Nat)} {x : Loose} {threadId : Nat}

/-- The parents of the memory that are there are attached to the thread. -/
def Store.Resolved (s : Store) (threadId memoryId : Nat) : Prop :=
  ∀ row ∈ s.memories, row.id = memoryId → ∀ parent ∈ row.data.parentIds,
    (s.findMemory parent).isSome → s.Attached threadId parent

/-- Same memories, more attachments. -/
theorem Store.Resolved.attached {m : Nat} (h : s.Resolved threadId m) (hm : s'.memories = s.memories)
    (ha : ∀ t m, s.Attached t m → s'.Attached t m) : s'.Resolved threadId m := by
  unfold Store.Resolved Store.findMemory
  rw [hm]
  exact fun row hrow hid parent hp hsome => ha _ _ (h row hrow hid parent hp hsome)

theorem Store.Quiet.resolved (hs : s.Quiet s') {m : Nat} (h : s.Resolved threadId m) : s'.Resolved threadId m :=
  h.attached hs.1.1 fun _ _ ha => hs.attached.2 ha

/-- An update of a memory that leaves its parents as they are, or names attached ones. -/
theorem Store.Resolved.modifyMemory {m : Nat} (h : s.Resolved threadId m) (id : Nat) {f : MemoryData → MemoryData}
    (hf : ∀ data, ∀ parent ∈ (f data).parentIds, parent ∈ data.parentIds ∨ s.Attached threadId parent) :
    (s.modifyMemory id f).Resolved threadId m := by
  intro row' hrow hid parent hp hsome
  rw [Store.findMemory_isSome_modifyMemory] at hsome
  obtain ⟨row, hmem, rfl⟩ := mem_modifyWhere.1 hrow
  split at hp
  · next hq =>
    rw [if_pos hq] at hid
    rcases hf row.data parent hp with hp | hp
    · exact h row hmem hid parent hp hsome
    · exact hp
  · next hq =>
    rw [if_neg hq] at hid
    exact h row hmem hid parent hp hsome

/-! ## An added memory -/

theorem injectedDefault_eq (thread : ThreadRow) (parents : List MemoryRow) (skip : Bool) :
    Tx.wp (injectedDefault thread parents skip)
      (fun answer s' => s' = s ∧ ∀ id, answer = some id → s.IsDefaultFor thread.kind id) Fails s := by
  unfold injectedDefault
  split
  · exact validateDefaultSystemMemoryId_eq _ _
  · exact ⟨rfl, fun id he => by simp at he⟩

/-- What a step leaves of the memories resolved so far. -/
structure Store.Extends (s s' : Store) (threadId : Nat) : Prop where
  attached : ∀ t m, s.Attached t m → s'.Attached t m
  resolved : ∀ m, s.Resolved threadId m → s'.Resolved threadId m

theorem Store.Extends.trans {s₂ : Store} (h : s.Extends s₁ threadId) (h' : s₁.Extends s₂ threadId) :
    s.Extends s₂ threadId :=
  ⟨fun t m hm => h'.attached t m (h.attached t m hm), fun m hm => h'.resolved m (h.resolved m hm)⟩

theorem Store.Quiet.extends (hs : s.Quiet s') : s.Extends s' threadId :=
  ⟨fun _ _ h => hs.attached.2 h, fun _ h => hs.resolved h⟩

theorem Store.Attaches.extends (ha : s.Attaches s') : s.Extends s' threadId :=
  ⟨ha.attached, fun _ h => h.attached ha.memories ha.attached⟩

/-- **An added memory** has the kind of its thread, as have its parents, and all of them are attached. -/
theorem addMemoryCore_wires [Deployment] (h : s.Wired kept x) (now : Int) (threadId : Nat) (memory : MemoryData)
    (skip : Bool) :
    Tx.wp (addMemoryCore now threadId memory skip)
      (fun answer s' => s'.Wired kept x ∧ s'.Attached threadId answer.1 ∧ s'.Resolved threadId answer.1 ∧
        s.Extends s' threadId) Fails s := by
  unfold addMemoryCore
  rw [Tx.wp_bind, Tx.wp_get]
  split
  · exact trivial
  · next thread hfind =>
    obtain ⟨hthread, rfl⟩ := Store.findThread_mem hfind
    rw [Tx.wp_bind]
    refine (normalizeMemoryForCreate_checks _ _).then fun memory => ?_
    rw [Tx.wp_bind]
    refine (validateMemoryKindMatchesThread_eq _ _).imp fun _ s' ⟨he, hkind⟩ => ?_
    subst he
    rw [Tx.wp_bind]
    refine (validateParents_eq thread.memoryKind (s'.findByIds memory.parentIds) s').imp fun _ s₁ ⟨he, hparents⟩ => ?_
    subst he
    rw [Tx.wp_bind, Tx.wp_ensure]
    refine ⟨fun _ => ?_, fun _ => trivial⟩
    rw [Tx.wp_bind]
    refine (injectedDefault_eq _ _ _).imp fun defaultId s₂ ⟨he, hdefault⟩ => ?_
    subst he
    have hexisting : ∀ parent ∈ defaultId.toList ++ (s₂.findByIds memory.parentIds).map MemoryRow.id,
        ∃ row ∈ s₂.memories, row.id = parent ∧ row.kind = thread.kind := by
      intro parent hp
      rcases List.mem_append.1 hp with hp | hp
      · obtain ⟨row, hrow, hid, -, hk⟩ := hdefault parent (by simpa using hp)
        exact ⟨row, hrow, hid, hk⟩
      · obtain ⟨row, hrow, rfl⟩ := List.mem_map.1 hp
        exact ⟨row, (Store.mem_findByIds.1 hrow).1, rfl, hparents row hrow⟩
    rw [Tx.wp_bind]
    refine (h.attachAll now (h.threadId_lt thread hthread) fun parent hp => ?_).imp fun _ s₃ ⟨h₃, ha₃, hall⟩ => ?_
    · obtain ⟨row, hrow, rfl, hk⟩ := hexisting parent (by simpa using (List.mem_filter.1 hp).2)
      refine ⟨h.memoryId_lt row hrow, fun _ t ht het m hm hme => ?_⟩
      rw [h.memory_eq hm hrow hme, h.thread_eq ht hthread het]
      exact hk
    rw [Tx.wp_bind]
    refine (linkMedia_does Store.Quiet.modifyMedia now memory.mediaObjectId s₃).imp fun _ s₄ hs₄ => ?_
    rw [Tx.wp_bind]
    refine (insertMemory_wires (hs₄.wired h₃) now _).imp fun id s₅ ⟨h₅, hid, hnext, hthreads, hrows, hmemories⟩ => ?_
    subst hid
    unfold insertAutoPosition
    simp only [Tx.wp_bind, Tx.wp_get, Tx.wp_ensure, Tx.wp_writes, Tx.wp_pure]
    refine ⟨fun _ => ?_, fun _ => trivial⟩
    have hext : s₂.Extends s₄ thread.id := ha₃.extends.trans hs₄.extends
    have hmem₄ : s₄.memories = s₂.memories := hs₄.1.1.trans ha₃.memories
    have hlt : thread.id < s₅.nextId := by
      have := h.threadId_lt thread hthread
      have := hs₄.2.nextId
      rw [ha₃.nextId] at this
      omega
    have ha : ∀ t m, s₄.Attached t m → (s₅.attach now thread.id s₄.nextId).Attached t m := by
      intro t m hm
      refine Store.Attached.attach ?_ now _ _
      unfold Store.Attached at hm ⊢
      rw [hrows]
      exact hm
    -- A parent that is there now was there before, or is the new memory itself.
    have hold : ∀ parent, ((s₅.attach now thread.id s₄.nextId).findMemory parent).isSome →
        (s₄.findMemory parent).isSome ∨ parent = s₄.nextId := by
      intro parent hp
      rw [Store.findMemory_attach, Store.findMemory_isSome, hmemories] at hp
      obtain ⟨row, hrow, rfl⟩ := hp
      rcases List.mem_append.1 hrow with hrow | hrow
      · exact .inl (Store.findMemory_isSome.2 ⟨row, hrow, rfl⟩)
      · obtain rfl := List.mem_singleton.1 hrow
        exact .inr rfl
    have hnew : ∀ row ∈ s₄.memories, row.id ≠ s₄.nextId := fun row hrow =>
      ((hs₄.wired h₃).memoryId_lt row hrow).ne
    have hparent : ∀ parent ∈ defaultId.toList ++ memory.parentIds,
        ((s₅.attach now thread.id s₄.nextId).findMemory parent).isSome →
          (s₅.attach now thread.id s₄.nextId).Attached thread.id parent := by
      intro parent hp hsome
      rcases hold parent hsome with hsome | rfl
      · refine ha _ _ (hs₄.attached.2 (hall parent (List.mem_filter.2 ⟨hp, ?_⟩)))
        rcases List.mem_append.1 hp with hd | hp
        · simp [List.mem_append_left _ hd]
        · rw [Store.findMemory_isSome, hmem₄] at hsome
          obtain ⟨row, hrow, rfl⟩ := hsome
          have hmem : row.id ∈ (s₂.findByIds memory.parentIds).map MemoryRow.id :=
            List.mem_map_of_mem (Store.mem_findByIds.2 ⟨hrow, hp⟩)
          simp [List.mem_append_right _ hmem]
      · exact Store.attached_attach now _ _
    refine ⟨h₅.attach now hlt (by rw [hnext]; exact Nat.lt_succ_self _) fun _ t ht het m hm hme => ?_,
      Store.attached_attach now _ _, ?_, fun t m hm => ha t m (hext.attached t m hm), fun m hm => ?_⟩
    · rw [hmemories] at hm
      rcases List.mem_append.1 hm with hm | hm
      · exact absurd hme (hnew m hm)
      · obtain rfl := List.mem_singleton.1 hm
        rw [hthreads] at ht
        obtain ⟨t', ht', het', -, hkt'⟩ := hs₄.2.thread ht
        rw [ha₃.threads] at ht'
        rw [← hkt', h.thread_eq ht' hthread (het'.trans het)]
        exact hkind
    · intro row hrow hrid parent hp hsome
      rw [Store.attach_memories, hmemories] at hrow
      rcases List.mem_append.1 hrow with hrow | hrow
      · exact absurd hrid (hnew row hrow)
      · obtain rfl := List.mem_singleton.1 hrow
        exact hparent parent hp hsome
    · intro row hrow hrid parent hp hsome
      rw [Store.attach_memories, hmemories] at hrow
      rcases List.mem_append.1 hrow with hrow | hrow
      · rcases hold parent hsome with hsome | rfl
        · exact ha _ _ ((hext.resolved m hm) row hrow hrid parent hp hsome)
        · exact Store.attached_attach now _ _
      · obtain rfl := List.mem_singleton.1 hrow
        exact hparent parent hp hsome

theorem addMemory_wires [Deployment] (h : s.Wired kept x) (now : Int) (groups : GroupAnswers) (threadId : Nat)
    (memory : MemoryData) :
    Tx.wp (addMemory now groups threadId memory) (fun id s' => s'.Wired kept x ∧ s'.Resolved threadId id) Fails s := by
  unfold addMemory
  rw [Tx.wp_bind]
  refine (bailIf_checks _).then fun _ => ?_
  rw [Tx.wp_bind]
  refine (validateLegacySummaryTarget_checks _ _).then fun _ => ?_
  rw [Tx.wp_bind]
  refine (addMemoryCore_wires h now threadId memory false).imp fun answer s₁ ⟨h₁, _, hresolved, _⟩ => ?_
  rw [Tx.wp_bind]
  refine (bailIf_checks _).then fun _ => ?_
  rw [Tx.wp_bind]
  exact (refreshMessageBounds_quiet now threadId s₁).imp fun _ s₂ hs₂ => ⟨hs₂.wired h₁, hs₂.resolved hresolved⟩

/-! ## A rewired memory -/

/-- The call passes its guards and sets the parents of the memory. -/
def Store.Rewires (s : Store) (threadId memoryId : Nat) (whenShared whenNonEmpty : Bool) : Prop :=
  (s.findThread threadId).isSome ∧ s.Attached threadId memoryId ∧
    ∃ row, s.findMemory memoryId = some row ∧ (whenShared = true ∨ s.countRefs memoryId = 1) ∧
      (whenNonEmpty = true ∨ row.data.parentIds = [])

/-- A rewiring keeps the wiring if the parents it attaches are of the thread's kind. -/
theorem updateMemoryParentIdsWithGuards_wires (h : s.Wired kept x) (now : Int) (threadId memoryId : Nat)
    (newParentIds : List Nat) (whenShared whenNonEmpty : Bool)
    (hkind : s.Rewires threadId memoryId whenShared whenNonEmpty → threadId ∉ x.mixed →
      ∀ thread ∈ s.threads, thread.id = threadId → ∀ memory ∈ s.memories, memory.id ∈ newParentIds →
        memory.kind = thread.kind) :
    Tx.wp (updateMemoryParentIdsWithGuards now threadId memoryId newParentIds whenShared whenNonEmpty)
      (fun outcome s' => s'.Wired kept x ∧ (outcome = .rewired → s'.Resolved threadId memoryId)) Fails s := by
  unfold updateMemoryParentIdsWithGuards
  simp only [Tx.wp_bind, Tx.wp_get, Tx.wp_ensure]
  refine ⟨fun hthread => ⟨fun hattached => ?_, fun _ => trivial⟩, fun _ => trivial⟩
  split
  · exact trivial
  · next existing hfind =>
    split
    · exact ⟨h, fun he => by simp at he⟩
    · next hshared =>
      split
      · exact ⟨h, fun he => by simp at he⟩
      · next hnonEmpty =>
        have hrewires : s.Rewires threadId memoryId whenShared whenNonEmpty := by
          refine ⟨hthread, Store.attached_iff.2 hattached, existing, hfind, ?_, ?_⟩
          · cases whenShared <;> simp_all
          · cases whenNonEmpty <;> simp_all
        unfold updateParentIds modifyMemory
        simp only [Tx.wp_bind, Tx.wp_reads, Tx.wp_writes, Tx.wp_pure]
        generalize hvalid : newParentIds.filter (· ∈ (s.findByIds newParentIds).map MemoryRow.id) = validated
        have hs₁ : s.SameWiring (s.modifyMemory memoryId fun stored => { stored with parentIds := validated }) :=
          .modifyMemory s memoryId (fun _ => rfl) fun _ => rfl
        obtain ⟨thread, ht, rfl⟩ := Store.findThread_isSome.1 hthread
        refine ((h.same hs₁).attachAll now (h.threadId_lt thread ht) fun parent hp => ?_).imp
          fun _ s₂ hout => ?_
        · rw [← hvalid] at hp
          obtain ⟨hnew, hp⟩ := List.mem_filter.1 hp
          obtain ⟨row, hrow, rfl⟩ := List.mem_map.1 (by simpa using hp)
          have hmem := (Store.mem_findByIds.1 hrow).1
          refine ⟨h.memoryId_lt row hmem, fun hn t ht' het m hm hme => ?_⟩
          obtain ⟨m', hm', hme', -, hmk⟩ := hs₁.memory hm
          rw [← hmk]
          exact hkind hrewires hn t ht' het m' hm' (by rw [hme', hme]; exact hnew)
        · obtain ⟨h₂, ha₂, hall⟩ := hout
          refine (refreshMessageBounds_quiet now thread.id s₂).imp fun _ s₃ hs₃ => ⟨hs₃.wired h₂, fun _ => ?_⟩
          refine hs₃.resolved fun row hrow hid parent hp _ => hall parent ?_
          rw [ha₂.memories] at hrow
          obtain ⟨r, -, rfl⟩ := mem_modifyWhere.1 hrow
          split at hp
          · exact hp
          · next hne =>
            rw [if_neg hne] at hid
            exact absurd (by simpa using hid) hne

/-! ## A batch -/

theorem upsertByChannel_wires [Deployment] (h : s.Wired kept x) (now : Int) (answers : ImportAnswers)
    (data : ThreadData) : Tx.wp (upsertByChannel now answers data) (fun _ s' => s'.Wired kept x) Fails s := by
  unfold upsertByChannel
  rw [Tx.wp_bind]
  refine (normalizeThreadForCreate_checks _ _).then fun data => ?_
  rw [Tx.wp_bind]
  refine (Checks.ensure rfl).then fun _ => ?_
  rw [Tx.wp_bind]
  refine (Checks.ensure rfl).then fun _ => ?_
  rw [Tx.wp_bind]
  refine (Checks.ensure rfl).then fun _ => ?_
  rw [Tx.wp_bind]
  refine (validateMetadata_checks _).then fun _ => ?_
  rw [Tx.wp_bind]
  refine (Checks.ensure rfl).then fun _ => ?_
  rw [Tx.wp_bind, Tx.wp_get]
  split
  · rw [Tx.wp_bind]
    refine (Checks.ensure rfl).then fun _ => ?_
    unfold insertThread generateId
    simp only [Tx.wp_bind, Tx.wp_reads, Tx.wp_writes, Tx.wp_pure]
    exact h.insertThread rfl (.inl rfl)
  · rw [Tx.wp_bind]
    refine (bailIf_checks _).then fun _ => ?_
    rw [Tx.wp_bind]
    exact (resolvePreservedKind_checks _ _ _).then fun _ => h
  · exact trivial

theorem resolveThread_wires [Deployment] (h : s.Wired kept x) (now : Int) (answers : ImportAnswers)
    (target : BatchThreadTarget) :
    Tx.wp (resolveThread now answers target) (fun _ s' => s'.Wired kept x) Fails s := by
  cases target with
  | existingThreadId threadId =>
    unfold resolveThread
    rw [Tx.wp_bind, Tx.wp_get]
    split
    · exact trivial
    · rw [Tx.wp_bind]
      exact (bailIf_checks _).then fun _ => h
  | upsertByChannel data => exact upsertByChannel_wires h now answers data

theorem Store.existingByEid_attached {eid : String} {row : MemoryRow} {position : Nat}
    (h : s.existingByEid threadId eid = some (row, some position)) : s.Attached threadId row.id := by
  unfold Store.existingByEid at h
  split at h
  · simp at h
  · obtain ⟨r, -, he⟩ := Option.map_eq_some_iff.1 h
    obtain ⟨rfl, hp⟩ := Prod.mk.inj he
    obtain ⟨a, ha, -⟩ := Option.map_eq_some_iff.1 hp
    exact Store.attached_iff.2 (by rw [ha]; rfl)

/-- The memories a batch may refer to are attached; the parents of those it has added are resolved. -/
structure BatchState.Wires (kept : Set (Nat × Nat)) (x : Loose) (threadId : Nat) (s₁ : Store) (st : BatchState)
    (s : Store) : Prop where
  wired : s.Wired kept x
  grows : ∀ t m, s₁.Attached t m → s.Attached t m
  eids : ∀ entry ∈ st.eidMap, s.Attached threadId entry.2
  parents : ∀ outcome ∈ st.outcomes, ∀ parent ∈ outcome.resolvedParentIds, s.Attached threadId parent
  resolved : ∀ outcome ∈ st.outcomes, outcome.created = true → s.Resolved threadId outcome.memoryId

theorem mem_resolvedParents {eidMap : List (String × Nat)} {parentExternalIds : List String} {id : Nat}
    (h : id ∈ resolvedParents eidMap parentExternalIds) : ∃ eid, (eid, id) ∈ eidMap := by
  obtain ⟨eid, -, he⟩ := List.mem_filterMap.1 (mem_distinct h)
  exact ⟨eid, mem_of_lookup he⟩

/-- What the loop over the entries has established, a further step leaves so. -/
theorem BatchState.Wires.step {st : BatchState} (h : st.Wires kept x threadId s₁ s) (hw : s'.Wired kept x)
    (hs : s.Extends s' threadId) : st.Wires kept x threadId s₁ s' where
  wired := hw
  grows t m hm := hs.attached t m (h.grows t m hm)
  eids entry he := hs.attached _ _ (h.eids entry he)
  parents outcome ho parent hp := hs.attached _ _ (h.parents outcome ho parent hp)
  resolved outcome ho hc := hs.resolved _ (h.resolved outcome ho hc)

/-- One entry more. -/
theorem BatchState.Wires.push {st : BatchState} (h : st.Wires kept x threadId s₁ s) {eids : List String}
    {o : AddMemoryOutcome} {overwritten : List Nat} {forwardRefs : List ForwardRef}
    (hattached : s.Attached threadId o.memoryId)
    (hparents : ∀ parent ∈ o.resolvedParentIds, s.Attached threadId parent)
    (hresolved : o.created = true → s.Resolved threadId o.memoryId) :
    BatchState.Wires kept x threadId s₁
      ⟨eids.map (·, o.memoryId) ++ st.eidMap, st.outcomes ++ [o], overwritten, forwardRefs⟩ s where
  wired := h.wired
  grows := h.grows
  eids entry he := by
    rcases List.mem_append.1 he with he | he
    · obtain ⟨eid, -, rfl⟩ := List.mem_map.1 he
      exact hattached
    · exact h.eids entry he
  parents outcome ho := by
    rcases List.mem_append.1 ho with ho | ho
    · exact h.parents outcome ho
    · obtain rfl := List.mem_singleton.1 ho
      exact hparents
  resolved outcome ho := by
    rcases List.mem_append.1 ho with ho | ho
    · exact h.resolved outcome ho
    · obtain rfl := List.mem_singleton.1 ho
      exact hresolved

theorem processEntry_wires [Deployment] (now : Int) (threadId : Nat) (upsert : Bool) (batchEids : List String)
    {st : BatchState} (item : BatchMemoryInput) (h : st.Wires kept x threadId s₁ s) :
    Tx.wp (processEntry now threadId upsert (s₁.existingByEid threadId) batchEids st item)
      (fun st' s' => st'.Wires kept x threadId s₁ s') Fails s := by
  have hparents : ∀ parent ∈ resolvedParents st.eidMap item.parentExternalIds, s.Attached threadId parent := by
    intro parent hp
    obtain ⟨eid, he⟩ := mem_resolvedParents hp
    exact h.eids _ he
  unfold processEntry
  simp only
  split
  · next row position hexisting =>
    split
    · exact trivial
    · rw [Tx.wp_bind, Tx.wp_ensure]
      refine ⟨fun _ => ?_, fun _ => trivial⟩
      split
      · exact trivial
      · next position =>
        obtain ⟨eid, -, he⟩ := Option.bind_eq_some_iff.1 hexisting
        rw [Tx.wp_bind]
        refine (updateContentOnly_same now row.id item.memory.content).imp fun _ s₂ hs₂ => ?_
        subst hs₂
        have hsame : s.SameWiring (s.modifyMemory row.id fun stored =>
            { stored with content := item.memory.content, updatedAt := now }) :=
          .modifyMemory s row.id (fun _ => rfl) fun _ => rfl
        have h₂ := h.step (h.wired.same hsame) ⟨fun t m hm => hsame.attached.2 hm, fun m hm =>
          hm.modifyMemory row.id fun _ _ hp => .inl hp⟩
        refine h₂.push (o := ⟨row.id, false, position, row.data.parentIds.isEmpty, _⟩) ?_
          (fun parent hp => hsame.attached.2 (hparents parent hp)) fun hc => by simp at hc
        exact h₂.grows _ _ (Store.existingByEid_attached he)
  · rw [Tx.wp_bind]
    refine (addMemoryCore_wires h.wired now threadId _ true).imp fun answer s₂ ⟨h₂, hattached, hresolved, hext⟩ => ?_
    rw [Tx.wp_bind, Tx.wp_get]
    exact (h.step h₂ hext).push (o := ⟨answer.1, true, _, false, _⟩) hattached
      (fun parent hp => hext.attached _ _ (hparents parent hp)) fun _ => hresolved

/-- A forward reference adds parents that are attached already. -/
theorem resolveForwardRef_wires (now : Int) {eidMap : List (String × Nat)} {outcomes : List AddMemoryOutcome}
    {overwritten : List Nat} {forwardRefs : List ForwardRef} (ref : ForwardRef)
    (h : BatchState.Wires kept x threadId s₁ ⟨eidMap, outcomes, overwritten, forwardRefs⟩ s) :
    Tx.wp (resolveForwardRef now threadId eidMap outcomes ref)
      (fun outcomes' s' => BatchState.Wires kept x threadId s₁ ⟨eidMap, outcomes', overwritten, forwardRefs⟩ s')
      Fails s := by
  unfold resolveForwardRef
  split
  · exact h
  · next outcome hget =>
    have hmem : outcome ∈ outcomes := List.mem_of_getElem? hget
    simp only
    split
    · exact h
    · have hadded : ∀ parent ∈ additions eidMap outcome.resolvedParentIds ref.targetEids, s.Attached threadId parent := by
        intro parent hp
        obtain ⟨eid, he⟩ := mem_additions hp
        exact h.eids _ he
      have hall : ∀ parent ∈ outcome.resolvedParentIds ++ additions eidMap outcome.resolvedParentIds ref.targetEids,
          s.Attached threadId parent := by
        intro parent hp
        rcases List.mem_append.1 hp with hp | hp
        · exact h.parents outcome hmem parent hp
        · exact hadded parent hp
      unfold updateParentIds modifyMemory
      simp only [Tx.wp_bind, Tx.wp_reads, Tx.wp_writes, Tx.wp_pure]
      generalize hs₂ : (s.modifyMemory outcome.memoryId fun stored => { stored with
        parentIds := outcome.resolvedParentIds ++ additions eidMap outcome.resolvedParentIds ref.targetEids }) = s₂
      have hsame : s.SameWiring s₂ := hs₂ ▸ .modifyMemory s outcome.memoryId (fun _ => rfl) fun _ => rfl
      have h₂ := h.step (h.wired.same hsame) ⟨fun t m hm => hsame.attached.2 hm, fun m hm =>
        hs₂ ▸ hm.modifyMemory outcome.memoryId fun _ parent hp => .inr (hall parent hp)⟩
      refine (attachAll_nothing now fun parent hp => hsame.attached.2 (hadded parent hp)).imp fun _ s₃ hs₃ => ?_
      subst hs₃
      refine { h₂ with parents := fun o ho parent hp => ?_, resolved := fun o ho hc => ?_ }
      · rcases List.mem_or_eq_of_mem_set ho with ho | rfl
        · exact h₂.parents o ho parent hp
        · exact hsame.attached.2 (hall parent hp)
      · rcases List.mem_or_eq_of_mem_set ho with ho | rfl
        · exact h₂.resolved o ho hc
        · exact h₂.resolved outcome hmem hc

/-- **A batch** resolves the parents of every memory it adds, forward references included. -/
theorem addMemoriesBatch_wires [Deployment] (h : s.Wired kept x) (now : Int) (answers : ImportAnswers)
    (input : AddMemoriesBatchInput) :
    Tx.wp (addMemoriesBatch now answers input)
      (fun output s' => s'.Wired kept x ∧ ∀ outcome ∈ output.outcomes, outcome.created = true →
        s'.Resolved output.threadId outcome.memoryId) Fails s := by
  unfold addMemoriesBatch
  rw [Tx.wp_bind]
  refine (Checks.ensure rfl).then fun _ => ?_
  rw [Tx.wp_bind]
  refine (prescan_checks _ _ _).then fun batchEids => ?_
  rw [Tx.wp_bind]
  refine (requireUserIds_checks _ _).then fun _ => ?_
  split
  · exact ⟨h, by simp⟩
  · rw [Tx.wp_bind]
    refine Checks.then (Tx.Does.forEach fun _ _ => validateLegacySummaryTarget_checks _ _) fun _ => ?_
    rw [Tx.wp_bind]
    refine (resolveThread_wires h now answers input.threadTarget).imp fun thread s₁ h₁ => ?_
    rw [Tx.wp_bind]
    refine (Checks.ensure rfl).then fun _ => ?_
    rw [Tx.wp_bind]
    refine (bailIf_checks _).then fun _ => ?_
    rw [Tx.wp_bind]
    refine (normalizeBatch_checks _ _).then fun memories => ?_
    unfold writeBatch
    rw [Tx.wp_bind, Tx.wp_get, Tx.wp_bind]
    have hstart : BatchState.Wires kept x thread.threadId s₁ ⟨s₁.attachedEids thread.threadId memories, [], [], []⟩ s₁ :=
      { wired := h₁
        grows := fun _ _ hm => hm
        eids := fun entry he => ?_
        parents := by simp
        resolved := by simp }
    · refine (Tx.wp_fold (I := fun _ st s => BatchState.Wires kept x thread.threadId s₁ st s)
        (fun item _ st s hst => processEntry_wires now thread.threadId _ batchEids item hst) hstart).imp
          fun st s₂ h₂ => ?_
      rw [Tx.wp_bind]
      refine (Tx.wp_fold (I := fun _ outcomes s => BatchState.Wires kept x thread.threadId s₁
        ⟨st.eidMap, outcomes, st.overwritten, st.forwardRefs⟩ s)
        (fun ref _ outcomes s hst => resolveForwardRef_wires now ref hst) h₂).imp fun outcomes s₃ h₃ => ?_
      rw [Tx.wp_bind]
      refine (validateLabels_checks _).then fun labels => ?_
      rw [Tx.wp_bind]
      refine (addLabels_quiet now thread.threadId labels s₃).imp fun _ s₄ hs₄ => ?_
      rw [Tx.wp_bind]
      refine (refreshMessageBounds_quiet now thread.threadId s₄).imp fun _ s₅ hs₅ => ?_
      have hs : s₃.Quiet s₅ := trans_of _ hs₄ hs₅
      exact ⟨hs.wired h₃.wired, fun outcome ho hc => hs.resolved (h₃.resolved outcome ho hc)⟩
    · obtain ⟨eid, -, he⟩ := List.mem_filterMap.1 he
      split at he
      · next row position hexisting =>
        obtain rfl := Option.some.inj he
        exact Store.existingByEid_attached hexisting
      · simp at he

/-! ## Every call -/

/-- What a call has to be given so that the wiring lasts: the two checks the code leaves out. -/
def Operation.Wires (x : Loose) (s : Store) : Operation → Prop
  | .updateMemory _ id memory => ∀ w, memory = some w → w.role = roleSystem ∨
      ∀ thread ∈ s.threads, thread.defaultSystemMemoryId = some id → thread.id ∈ x.unanchored
  | .updateMemoryParentIdsWithGuards threadId memoryId newParentIds whenShared whenNonEmpty =>
    s.Rewires threadId memoryId whenShared whenNonEmpty → threadId ∉ x.mixed →
      ∀ thread ∈ s.threads, thread.id = threadId → ∀ memory ∈ s.memories, memory.id ∈ newParentIds →
        memory.kind = thread.kind
  | _ => True

theorem Operation.tx_wires [Deployment] (h : s.Wired kept x) (now : Int) {op : Operation} (ho : op.Wires x s) :
    Tx.wp (op.tx now) (fun _ s' => s'.Wired kept x) Fails s := by
  cases op with
  | createMemory groups memory =>
    unfold Operation.tx
    rw [Tx.wp_bind]
    exact (createMemory_wires h now groups memory).imp fun _ _ h' => h'
  | updateMemory groups id memory =>
    unfold Operation.tx
    rw [Tx.wp_bind]
    exact (updateMemory_wires h now groups id memory ho).imp fun _ _ h' => h'
  | updateContentNoDispatch id content =>
    unfold Operation.tx Conversation.updateContentNoDispatch
    rw [Tx.wp_bind]
    exact (updateContentOnly_wires h now id content).imp fun _ _ h' => h'
  | writeBackCaption id mediaObjectId caption =>
    unfold Operation.tx
    rw [Tx.wp_bind]
    exact (writeBackCaption_wires h now id mediaObjectId caption).imp fun _ _ h' => h'
  | deleteMemory id =>
    unfold Operation.tx
    rw [Tx.wp_bind]
    exact (deleteMemoryRdb_wires h now id).imp fun _ _ h' => h'
  | deleteLinkedMemories ids =>
    unfold Operation.tx
    rw [Tx.wp_bind]
    exact (deleteLinkedMemories_wires h now ids).imp fun _ _ h' => h'
  | createThread thread =>
    unfold Operation.tx
    rw [Tx.wp_bind]
    exact (createThread_wires h now thread).imp fun _ _ h' => h'
  | updateThread id thread =>
    unfold Operation.tx
    rw [Tx.wp_bind]
    exact (updateThread_wires h now id thread).imp fun _ _ h' => h'
  | deleteThreads ids =>
    unfold Operation.tx
    rw [Tx.wp_bind]
    exact (deleteThreads_wires h now ids).imp fun _ _ h' => h'
  | updateMemoryParentIdsWithGuards threadId memoryId newParentIds whenShared whenNonEmpty =>
    unfold Operation.tx
    rw [Tx.wp_bind]
    exact (updateMemoryParentIdsWithGuards_wires h now threadId memoryId newParentIds whenShared whenNonEmpty ho).imp
      fun _ _ h' => h'.1
  | addMemory groups threadId memory =>
    unfold Operation.tx
    rw [Tx.wp_bind]
    exact (addMemory_wires h now groups threadId memory).imp fun _ _ h' => h'.1
  | addMemoriesBatch answers input =>
    unfold Operation.tx
    rw [Tx.wp_bind]
    exact (addMemoriesBatch_wires h now answers input).imp fun _ _ h' => h'.1

/-- A call and its time, taken as one step of a run: what it commits, or nothing. -/
def Operation.exec [Deployment] (call : Int × Operation) (s : Store) : Store := (call.2.tx call.1).commit s

theorem Operation.exec_wires [Deployment] (h : s.Wired kept x) {call : Int × Operation} (ho : call.2.Wires x s) :
    (Operation.exec call s).Wired kept x := by
  rcases (Operation.tx_wires h call.1 ho).commit with he | ⟨_, hw⟩
  · unfold Operation.exec
    rw [he]
    exact h
  · exact hw

end MemoryStore.Conversation
