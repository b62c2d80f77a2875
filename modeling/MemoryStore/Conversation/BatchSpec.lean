/-
What `add_memories_batch` does, from inside its transaction.
-/
import MemoryStore.Conversation.ThreadSpec

namespace MemoryStore.Conversation

open Table

variable {s s₀ s₁ : Store} {p : Pending}

/-! ## The target thread -/

theorem prescan_checks : ∀ (idx : Nat) (seen : List String) (memories : List BatchMemoryInput),
    Checks (prescan idx seen memories)
  | _, _, [] => Checks.pure _
  | idx, _, _ :: rest =>
    (Checks.ensure rfl).bind fun _ => (Checks.ensure rfl).bind fun _ => prescan_checks (idx + 1) _ rest

theorem requireUserIds_checks : ∀ (idx : Nat) (memories : List BatchMemoryInput), Checks (requireUserIds idx memories)
  | _, [] => Checks.pure _
  | idx, _ :: rest => (Checks.ensure rfl).bind fun _ => requireUserIds_checks (idx + 1) rest

theorem normalizeBatch_checks [Deployment] (kind : Int) (memories : List BatchMemoryInput) :
    Checks (normalizeBatch kind memories) :=
  Tx.Does.collect fun _ _ => (normalizeMemoryForCreate_checks _ _).bind fun _ =>
    (validateMemoryKindMatchesThread_checks _ _).bind fun _ => Checks.pure _

theorem upsertByChannel_spec [Deployment] (h : Midway s₀ p s) (now : Int) (answers : ImportAnswers)
    (data : ThreadData) :
    Tx.wp (upsertByChannel now answers data)
      (fun thread s' => Midway s₀ p s' ∧ (s'.findThread thread.threadId).isSome) (·.benign = true) s := by
  unfold upsertByChannel
  rw [Tx.wp_bind]
  refine (normalizeThreadForCreate_checks _ _).wp fun data => ?_
  rw [Tx.wp_bind]
  refine (Checks.ensure rfl).wp fun _ => ?_
  rw [Tx.wp_bind]
  refine (Checks.ensure rfl).wp fun _ => ?_
  rw [Tx.wp_bind]
  refine (Checks.ensure rfl).wp fun _ => ?_
  rw [Tx.wp_bind]
  refine (validateMetadata_checks _).wp fun _ => ?_
  rw [Tx.wp_bind]
  refine (Checks.ensure rfl).wp fun _ => ?_
  rw [Tx.wp_bind, Tx.wp_get]
  split
  · rw [Tx.wp_bind]
    refine (Checks.ensure rfl).wp fun _ => ?_
    rw [Tx.wp_bind]
    exact (insertThread_spec h now _).imp fun id s' ⟨h', _, hthread, _⟩ => ⟨h', hthread⟩
  · next thread hfound =>
    have hmem : thread ∈ s.findByChannelAndUserId (data.channel.getD "") (data.userId.getD 0) := by
      rw [hfound]
      simp
    rw [Tx.wp_bind]
    refine (bailIf_checks _).wp fun _ => ?_
    rw [Tx.wp_bind]
    refine (resolvePreservedKind_checks _ _ _).wp fun _ => ⟨h, ?_⟩
    exact Store.findThread_isSome.2 ⟨thread, (List.mem_filter.1 hmem).1, rfl⟩
  · exact rfl

theorem resolveThread_spec [Deployment] (h : Midway s₀ p s) (now : Int) (answers : ImportAnswers)
    (target : BatchThreadTarget) :
    Tx.wp (resolveThread now answers target)
      (fun thread s' => Midway s₀ p s' ∧ (s'.findThread thread.threadId).isSome) (·.benign = true) s := by
  cases target with
  | existingThreadId threadId =>
    unfold resolveThread
    rw [Tx.wp_bind, Tx.wp_get]
    split
    · exact rfl
    · next thread hfind =>
      rw [Tx.wp_bind]
      refine (bailIf_checks _).wp fun _ => ⟨h, ?_⟩
      rw [hfind]
      rfl
  | upsertByChannel data => exact upsertByChannel_spec h now answers data

/-! ## The entries -/

theorem mem_of_lookup {eid : String} {id : Nat} {l : List (String × Nat)} (h : l.lookup eid = some id) :
    (eid, id) ∈ l := by
  obtain ⟨before, after, rfl, -⟩ := List.lookup_eq_some_iff.1 h
  simp

theorem mem_distinct {id : Nat} {ids : List Nat} (h : id ∈ distinct ids) : id ∈ ids := by
  have hfold : ∀ (l seen : List Nat), id ∈ l.foldl (fun seen id => if id ∈ seen then seen else seen ++ [id]) seen →
      id ∈ seen ∨ id ∈ l := by
    intro l
    induction l with
    | nil => exact fun seen hid => .inl hid
    | cons a l ih =>
      intro seen hid
      rcases ih _ hid with hid | hid
      · dsimp only at hid
        split at hid
        · exact .inl hid
        · rcases List.mem_append.1 hid with hid | hid
          · exact .inl hid
          · exact .inr (by simp [List.mem_singleton.1 hid])
      · exact .inr (List.mem_cons_of_mem _ hid)
  rcases hfold ids [] h with hid | hid
  · simp at hid
  · exact hid

theorem mem_additions {eidMap : List (String × Nat)} {resolved : List Nat} {targetEids : List String} {id : Nat}
    (h : id ∈ additions eidMap resolved targetEids) : ∃ eid, (eid, id) ∈ eidMap := by
  obtain ⟨eid, -, he⟩ := List.mem_filterMap.1 (List.mem_filter.1 (mem_distinct h)).1
  exact ⟨eid, mem_of_lookup he⟩

/-- A memory the transaction has inserted itself is none it has to account for. -/
theorem Midway.own_memory {id : Nat} (h : Midway s₀ { p with memories := insert id p.memories } s)
    (hid : s₀.nextId ≤ id) : Midway s₀ p s := by
  refine { h with memories := fun k hk hn => h.memories k hk ?_ }
  rintro (rfl | hp)
  · omega
  · exact hn hp

/-- Where the loop over the entries has got to: existing memories are changed
only where it says so, and it refers only to memories that are there. -/
structure BatchState.Within (s₀ : Store) (p : Pending) (threadId : Nat) (s₁ : Store) (st : BatchState) (s : Store) :
    Prop where
  midway : Midway s₀ { p with memories := p.memories ∪ {k | k ∈ st.overwritten}, bounds := insert threadId p.bounds } s
  grows : s₁.Grows s
  eids : ∀ entry ∈ st.eidMap, (s.findMemory entry.2).isSome
  created : ∀ outcome ∈ st.outcomes, outcome.created = true → s₀.nextId ≤ outcome.memoryId

theorem Store.existingByEid_mem {threadId : Nat} {eid : String} {row : MemoryRow} {position : Option Nat}
    (h : s.existingByEid threadId eid = some (row, position)) : (s.findMemory row.id).isSome := by
  unfold Store.existingByEid at h
  split at h
  · simp at h
  · obtain ⟨r, hr, he⟩ := Option.map_eq_some_iff.1 h
    obtain rfl := (Prod.mk.inj he).1
    exact Store.findMemory_isSome.2 ⟨r, List.mem_of_find?_eq_some hr, rfl⟩

theorem processEntry_spec [Deployment] (now : Int) (threadId : Nat) (upsert : Bool) (batchEids : List String)
    {st : BatchState} (item : BatchMemoryInput) (h : st.Within s₀ p threadId s₁ s) :
    Tx.wp (processEntry now threadId upsert (s₁.existingByEid threadId) batchEids st item)
      (fun st' s' => st'.Within s₀ p threadId s₁ s') (·.benign = true) s := by
  unfold processEntry
  simp only
  split
  · next row position hexisting =>
    have hmemory : (s₁.findMemory row.id).isSome := by
      obtain ⟨eid, -, he⟩ := Option.bind_eq_some_iff.1 hexisting
      exact Store.existingByEid_mem he
    split
    · exact rfl
    · rw [Tx.wp_bind, Tx.wp_ensure]
      refine ⟨fun _ => ?_, fun _ => rfl⟩
      split
      · exact rfl
      · rw [Tx.wp_bind]
        refine (updateContentOnly_spec h.midway now row.id item.memory.content).imp fun _ s₂ ⟨h₂, hgrows⟩ => ?_
        refine ⟨h₂.mono (fun k hk => ?_) (fun _ hk => hk) (fun _ hk => hk) rfl rfl, trans_of _ h.grows hgrows, ?_, ?_⟩
        · rcases hk with rfl | hk | hk
          · exact .inr (by simp)
          · exact .inl hk
          · exact .inr (List.mem_append_left _ hk)
        · intro entry hmem
          rcases List.mem_append.1 hmem with hmem | hmem
          · obtain ⟨eid, -, rfl⟩ := List.mem_map.1 hmem
            exact hgrows.1 _ (h.grows.1 _ hmemory)
          · exact hgrows.1 _ (h.eids entry hmem)
        · intro outcome hmem hcreated
          rcases List.mem_append.1 hmem with hmem | hmem
          · exact h.created outcome hmem hcreated
          · obtain rfl := List.mem_singleton.1 hmem
            simp at hcreated
  · rw [Tx.wp_bind]
    refine (addMemoryCore_spec h.midway now threadId _ true).imp fun answer s₂ ⟨h₂, hid, hmemory, hgrows⟩ => ?_
    rw [Tx.wp_bind, Tx.wp_get]
    refine ⟨h₂.mono (fun _ hk => hk) (fun _ hk => hk) (fun k hk => ?_) rfl rfl, trans_of _ h.grows hgrows, ?_, ?_⟩
    · rcases hk with rfl | hk
      · exact .inl rfl
      · exact hk
    · intro entry hmem
      rcases List.mem_append.1 hmem with hmem | hmem
      · obtain ⟨eid, -, rfl⟩ := List.mem_map.1 hmem
        exact hmemory
      · exact hgrows.1 _ (h.eids entry hmem)
    · intro outcome hmem hcreated
      rcases List.mem_append.1 hmem with hmem | hmem
      · exact h.created outcome hmem hcreated
      · obtain rfl := List.mem_singleton.1 hmem
        exact hid

/-! ## Forward references -/

/-- Where the loop over the forward references has got to. -/
structure ForwardRef.Within (s₀ : Store) (p : Pending) (threadId : Nat) (eidMap : List (String × Nat))
    (outcomes : List AddMemoryOutcome) (s : Store) : Prop where
  midway : Midway s₀ { p with bounds := insert threadId p.bounds } s
  thread : (s.findThread threadId).isSome
  eids : ∀ entry ∈ eidMap, (s.findMemory entry.2).isSome
  created : ∀ outcome ∈ outcomes, outcome.created = true → s₀.nextId ≤ outcome.memoryId

theorem resolveForwardRef_spec (now : Int) (threadId : Nat) {eidMap : List (String × Nat)}
    {outcomes : List AddMemoryOutcome} (ref : ForwardRef) (h : ForwardRef.Within s₀ p threadId eidMap outcomes s) :
    Tx.wp (resolveForwardRef now threadId eidMap outcomes ref)
      (fun outcomes' s' => ForwardRef.Within s₀ p threadId eidMap outcomes' s') (·.benign = true) s := by
  unfold resolveForwardRef
  split
  · exact h
  · next outcome hget =>
    have hmem : outcome ∈ outcomes := List.mem_of_getElem? hget
    simp only
    split
    · exact h
    · next hc =>
      have hcreated : outcome.created = true := by
        simp only [Bool.or_eq_true, not_or, Bool.not_eq_true', Bool.not_eq_false] at hc
        exact hc.1
      unfold updateParentIds
      rw [Tx.wp_bind]
      refine (h.midway.wp_modifyMemory outcome.memoryId (f := fun stored => { stored with
        parentIds := outcome.resolvedParentIds ++ additions eidMap outcome.resolvedParentIds ref.targetEids })
        (fun _ => rfl) fun _ => rfl).imp fun _ s₂ ⟨h₂, hgrows₂⟩ => ?_
      have h₂' := h₂.own_memory (h.created outcome hmem hcreated)
      rw [Tx.wp_bind]
      refine (h₂'.attachAll now (hgrows₂.2 _ h.thread) fun id hid => ?_).imp fun _ s₃ ⟨h₃, hgrows₃⟩ => ?_
      · obtain ⟨eid, he⟩ := mem_additions hid
        exact hgrows₂.1 _ (h.eids _ he)
      · refine ⟨h₃.mono (fun _ hk => hk) (fun _ hk => hk) (fun k hk => ?_) rfl rfl,
          hgrows₃.2 _ (hgrows₂.2 _ h.thread), fun entry he => hgrows₃.1 _ (hgrows₂.1 _ (h.eids entry he)), ?_⟩
        · rcases hk with rfl | hk
          · exact .inl rfl
          · exact hk
        · intro o ho hoc
          rcases List.mem_or_eq_of_mem_set ho with ho | rfl
          · exact h.created o ho hoc
          · exact h.created outcome hmem hcreated

/-! ## The batch -/

theorem Store.mem_attachedEids {threadId : Nat} {memories : List BatchMemoryInput} {entry : String × Nat}
    (h : entry ∈ s.attachedEids threadId memories) : (s.findMemory entry.2).isSome := by
  obtain ⟨eid, -, he⟩ := List.mem_filterMap.1 h
  split at he
  · next row position hexisting =>
    obtain rfl := Option.some.inj he
    exact Store.existingByEid_mem hexisting
  · simp at he

theorem writeBatch_spec [Deployment] (h : Midway s₀ p s) (now : Int) (thread : BatchThread)
    (hthread : (s.findThread thread.threadId).isSome) (upsert : Bool) (labels : List String)
    (memories : List BatchMemoryInput) (batchEids : List String) :
    Tx.wp (writeBatch now thread upsert labels memories batchEids)
      (fun output s' => Midway s₀ { p with memories := p.memories ∪ {k | k ∈ output.overwrittenMemoryIds}
                                           threads := insert output.threadId p.threads } s' ∧
        output.suppressed = false) (·.benign = true) s := by
  unfold writeBatch
  rw [Tx.wp_bind, Tx.wp_get, Tx.wp_bind]
  have hstart : BatchState.Within s₀ p thread.threadId s ⟨s.attachedEids thread.threadId memories, [], [], []⟩ s := by
    refine ⟨h.mono (fun _ hk => .inl hk) (fun _ hk => hk) (fun _ hk => .inr hk) rfl rfl, refl_of _ _,
      fun entry he => Store.mem_attachedEids he, fun o ho => by simp at ho⟩
  refine (Tx.wp_fold (I := fun _ st s' => BatchState.Within s₀ p thread.threadId s st s')
    (fun item _ st s' hst => processEntry_spec now thread.threadId upsert batchEids item hst) hstart).imp
      fun st s₁ h₁ => ?_
  rw [Tx.wp_bind]
  have hrefs : ForwardRef.Within s₀ { p with memories := p.memories ∪ {k | k ∈ st.overwritten} } thread.threadId
      st.eidMap st.outcomes s₁ :=
    ⟨h₁.midway, h₁.grows.2 _ hthread, h₁.eids, h₁.created⟩
  refine (Tx.wp_fold (I := fun _ outcomes s' => ForwardRef.Within s₀
      { p with memories := p.memories ∪ {k | k ∈ st.overwritten} } thread.threadId st.eidMap outcomes s')
    (fun ref _ outcomes s' ho => resolveForwardRef_spec now thread.threadId ref ho) hrefs).imp fun outcomes s₂ h₂ => ?_
  rw [Tx.wp_bind]
  refine (validateLabels_checks _).wp fun labels => ?_
  rw [Tx.wp_bind]
  refine (h₂.midway.wp_addLabels now thread.threadId labels).imp fun _ s₃ ⟨h₃, _⟩ => ?_
  rw [Tx.wp_bind]
  refine (h₃.refreshMessageBounds now thread.threadId).imp fun _ s₄ ⟨h₄, _⟩ => ⟨?_, rfl⟩
  refine h₄.mono (fun _ hk => hk) (fun k hk => ?_) (fun k hk => ?_) rfl rfl
  · rcases hk with hk | ⟨-, rfl⟩
    · exact .inr hk
    · exact .inl rfl
  · rcases hk.1 with rfl | hk'
    · exact absurd rfl hk.2
    · exact hk'

/-- **A batch** changes the memories it answers as overwritten, and its thread. -/
theorem addMemoriesBatch_spec [Deployment] (h : Midway s₀ p s) (now : Int) (answers : ImportAnswers)
    (input : AddMemoriesBatchInput) :
    Tx.wp (addMemoriesBatch now answers input)
      (fun output s' => Midway s₀
        { p with memories := p.memories ∪ {k | output.suppressed = false ∧ k ∈ output.overwrittenMemoryIds}
                 threads := p.threads ∪ {k | output.suppressed = false ∧ k = output.threadId} } s')
      (·.benign = true) s := by
  unfold addMemoriesBatch
  rw [Tx.wp_bind]
  refine (Checks.ensure rfl).wp fun _ => ?_
  rw [Tx.wp_bind]
  refine (prescan_checks _ _ _).wp fun batchEids => ?_
  rw [Tx.wp_bind]
  refine (requireUserIds_checks _ _).wp fun _ => ?_
  split
  · exact h.mono (fun _ hk => .inl hk) (fun _ hk => .inl hk) (fun _ hk => hk) rfl rfl
  · rw [Tx.wp_bind]
    refine Checks.wp (Tx.Does.forEach fun _ _ => validateLegacySummaryTarget_checks _ _) fun _ => ?_
    rw [Tx.wp_bind]
    refine (resolveThread_spec h now answers input.threadTarget).imp fun thread s₁ ⟨h₁, hthread⟩ => ?_
    rw [Tx.wp_bind]
    refine (Checks.ensure rfl).wp fun _ => ?_
    rw [Tx.wp_bind]
    refine (bailIf_checks _).wp fun _ => ?_
    rw [Tx.wp_bind]
    refine (normalizeBatch_checks _ _).wp fun memories => ?_
    refine (writeBatch_spec h₁ now thread hthread _ _ _ _).imp fun output s₂ ⟨h₂, hs⟩ => ?_
    refine h₂.mono (fun k hk => ?_) (fun k hk => ?_) (fun _ hk => hk) rfl rfl
    · rcases hk with hk | hk
      · exact .inl hk
      · exact .inr ⟨hs, hk⟩
    · rcases hk with rfl | hk
      · exact .inr ⟨hs, rfl⟩
      · exact .inl hk

end MemoryStore.Conversation
