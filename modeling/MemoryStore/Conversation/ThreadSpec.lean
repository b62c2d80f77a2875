/-
What the calls of `ThreadApp` do, from inside a transaction, but for the batch.
-/
import MemoryStore.Conversation.MemorySpec

namespace MemoryStore.Conversation

open Table

variable {s s₀ : Store} {p : Pending}

/-! ## Create and update -/

theorem insertThread_spec (h : Midway s₀ p s) (now : Int) (data : ThreadData) :
    Tx.wp (insertThread now data)
      (fun id s' => Midway s₀ p s' ∧ s₀.nextId ≤ id ∧ (s'.findThread id).isSome ∧ s.Grows s') (·.benign = true) s := by
  unfold insertThread generateId
  simp only [Tx.wp_bind, Tx.wp_reads, Tx.wp_writes, Tx.wp_pure]
  have hnew : ∀ row ∈ s.threads, row.id ≠ s.nextId := fun row hrow => (h.valid.threadId_lt row hrow).ne
  refine ⟨?_, h.later, ?_, fun _ hm => hm, fun k hk => ?_⟩
  · exact h.bumpId.insertThread (Nat.lt_succ_self _) h.later hnew rfl
  · exact Store.findThread_isSome.2 ⟨data.row now s.nextId, List.mem_append_right _ (by simp), rfl⟩
  · obtain ⟨row, hrow, hid⟩ := Store.findThread_isSome.1 hk
    exact Store.findThread_isSome.2 ⟨row, List.mem_append_left _ hrow, hid⟩

theorem anchorDefault_spec (h : Midway s₀ p s) (now : Int) {threadId : Nat} {defaultId : Option Nat}
    (hthread : (s.findThread threadId).isSome) (hdefault : ∀ id, defaultId = some id → (s.findMemory id).isSome) :
    Tx.wp (anchorDefault now threadId defaultId)
      (fun changed s' => Midway s₀ { p with threads := p.threads ∪ {k | changed = true ∧ k = threadId} } s' ∧
        s.Grows s') (·.benign = true) s := by
  cases defaultId with
  | none => exact ⟨h.mono (fun _ hk => hk) (fun _ hk => .inl hk) (fun _ hk => hk) rfl rfl, refl_of _ _⟩
  | some id =>
    unfold anchorDefault insertOrIgnoreAutoPosition
    simp only [Tx.wp_bind, Tx.wp_writes]
    have h₁ := h.attach now hthread (hdefault id rfl)
    refine (h₁.refreshMessageBounds now threadId).imp fun changed s₂ hout => ⟨?_, ?_⟩
    · refine hout.1.mono (fun _ hk => hk) (fun _ hk => hk) (fun k hk => ?_) rfl rfl
      rcases hk.1 with rfl | hk'
      · exact absurd rfl hk.2
      · exact hk'
    · exact trans_of _ (Store.Grows.attach s now threadId id) hout.2.2

theorem createThread_spec [Deployment] (h : Midway s₀ p s) (now : Int) (thread : ThreadData) :
    Tx.wp (createThread now thread)
      (fun id s' => Midway s₀ { p with threads := insert id p.threads } s' ∧ s₀.nextId ≤ id) (·.benign = true) s := by
  unfold createThread
  rw [Tx.wp_bind]
  refine (normalizeThreadForCreate_checks _ _).wp fun thread => ?_
  rw [Tx.wp_bind]
  refine (validateMetadata_checks _).wp fun _ => ?_
  rw [Tx.wp_bind]
  refine (validateDefaultSystemMemoryId_spec _ _).imp fun defaultId s₁ ⟨he, hdefault⟩ => ?_
  subst he
  rw [Tx.wp_bind]
  refine (insertThread_spec h now _).imp fun id s₂ ⟨h₂, hid, hthread, hgrows⟩ => ?_
  rw [Tx.wp_bind]
  refine (anchorDefault_spec h₂ now hthread fun k hk => hgrows.1 k (hdefault k hk)).imp fun _ s₃ ⟨h₃, _⟩ => ?_
  rw [Tx.wp_bind]
  refine (validateLabels_checks _).wp fun labels => ?_
  rw [Tx.wp_bind]
  refine (h₃.wp_addLabels now id labels).imp fun _ s₄ ⟨h₄, _⟩ => ⟨?_, hid⟩
  refine h₄.mono (fun _ hk => hk) (fun k hk => ?_) (fun _ hk => hk) rfl rfl
  rcases hk with hk | ⟨-, rfl⟩
  · exact .inr hk
  · exact .inl rfl

theorem updateThreadIf_spec (h : Midway s₀ p s) (threadChanged : Bool) (now : Int) (id : Nat) (w : ThreadData) :
    Tx.wp (updateThreadIf threadChanged now id w)
      (fun _ s' => Midway s₀ { p with threads := p.threads ∪ {k | threadChanged = true ∧ k = id} } s' ∧ s.Grows s')
      (·.benign = true) s := by
  cases threadChanged with
  | false => exact ⟨h.mono (fun _ hk => hk) (fun _ hk => .inl hk) (fun _ hk => hk) rfl rfl, refl_of _ _⟩
  | true =>
    unfold updateThreadIf updateThreadRow
    simp only [if_true, Tx.wp_bind, Tx.wp_reads, Tx.wp_writes, Tx.wp_pure, Tx.wp_ensure]
    refine ⟨fun _ => ⟨?_, fun _ hm => hm, fun k hk => ?_⟩, fun _ => rfl⟩
    · have h₁ := h.modifyThreads (q := fun row => row.id = id) (f := ThreadRow.updated now w) (fun _ _ => rfl)
        fun _ _ => rfl
      refine h₁.mono (fun _ hk => hk) (fun k hk => ?_) (fun _ hk => hk) rfl rfl
      rcases hk with hk | ⟨row, -, hq, rfl⟩
      · exact .inl hk
      · exact .inr ⟨trivial, by simpa using hq⟩
    · rw [Store.findThread_isSome_modifyThreads (f := ThreadRow.updated now w) fun _ _ => rfl]
      exact hk

theorem replaceLabels_spec (h : Midway s₀ p s) (now : Int) (id : Nat) (desired : List String) :
    Tx.wp (replaceLabels now id desired) (fun _ s' => Midway s₀ p s') (·.benign = true) s := by
  unfold replaceLabels removeLabels
  simp only [Tx.wp_bind, Tx.wp_get, Tx.wp_writes, Tx.wp_pure]
  have h₁ : Midway s₀ p (s.removeLabels fun row =>
      row.threadId = id && row.label ∈ (s.labelsByThread id).filter (· ∉ desired)) := h.setLabels _
  exact (h₁.wp_addLabels now id _).imp fun _ s₂ hs₂ => hs₂.1

/-- The thread itself is all an update changes, and it answers whether it did. -/
theorem updateThread_spec [Deployment] (h : Midway s₀ p s) (now : Int) (id : Nat) (thread : Option ThreadData) :
    Tx.wp (updateThread now id thread)
      (fun outcome s' => Midway s₀ { p with threads := p.threads ∪ {k | outcome.changed = true ∧ k = id} } s')
      (·.benign = true) s := by
  cases thread with
  | none => exact h.mono (fun _ hk => hk) (fun _ hk => .inl hk) (fun _ hk => hk) rfl rfl
  | some w =>
    unfold updateThread
    rw [Tx.wp_bind]
    refine (validateMetadata_checks _).wp fun _ => ?_
    rw [Tx.wp_bind, Tx.wp_get]
    split
    · exact rfl
    · next existing hfind =>
      have hthread : (s.findThread id).isSome := by rw [hfind]; rfl
      rw [Tx.wp_bind]
      refine (preserveThreadKindForUpdate_checks _ _ _).wp fun toUpdate => ?_
      rw [Tx.wp_bind, Tx.wp_ensure]
      refine ⟨fun _ => ?_, fun _ => rfl⟩
      rw [Tx.wp_bind]
      refine (validateDefaultSystemMemoryId_spec _ _).imp fun defaultId s₁ ⟨he, hdefault⟩ => ?_
      subst he
      rw [Tx.wp_bind]
      refine (updateThreadIf_spec h _ now id _).imp fun _ s₂ ⟨h₂, hgrows⟩ => ?_
      rw [Tx.wp_bind]
      refine (validateLabels_checks _).wp fun labels => ?_
      rw [Tx.wp_bind]
      refine (anchorDefault_spec h₂ now (hgrows.2 _ hthread) fun k hk => hgrows.1 k (hdefault k hk)).imp
        fun boundsChanged s₃ ⟨h₃, _⟩ => ?_
      rw [Tx.wp_bind]
      refine (replaceLabels_spec h₃ now id labels).imp fun labelsChanged s₄ h₄ => ?_
      refine h₄.mono (fun _ hk => hk) (fun k hk => ?_) (fun _ hk => hk) rfl rfl
      rcases hk with (hk | ⟨hc, rfl⟩) | ⟨hc, rfl⟩
      · exact .inl hk
      · exact .inr ⟨by simp [hc], rfl⟩
      · exact .inr ⟨by simp [hc], rfl⟩

/-! ## Delete -/

/-- The references still to give up: those of the memories in the list. -/
def outstanding (owed : Nat → Int) (rows : List MemoryRow) : Nat → Int :=
  fun k => owed k + rows.countP fun row => row.data.mediaObjectId = some k

theorem outstanding_cons (owed : Nat → Int) (row : MemoryRow) (rows : List MemoryRow) :
    owe (outstanding owed (row :: rows)) row.data.mediaObjectId (-1) = outstanding owed rows := by
  funext k
  simp only [owe, outstanding, List.countP_cons, decide_eq_true_eq]
  split
  · push_cast
    omega
  · push_cast
    omega

/-- Each memory deleted gives up the one reference it had. -/
theorem releaseMedia_spec (now : Int) {candidates : List MemoryRow} {owed : Nat → Int} (howed : owed = fun _ => 0) :
    ∀ {rows : List MemoryRow} {p : Pending} {s : Store}, p.owed = outstanding owed rows → Midway s₀ p s →
      (∀ row ∈ rows, candidates.find? (fun r => r.id = row.id) = some row) →
      Tx.wp (releaseMedia now candidates (rows.map MemoryRow.id))
        (fun jobs s' => Midway s₀ { p with owed := owed, jobs := p.jobs ++ jobs } s') (·.benign = true) s
  | [], p, s, hp, h, _ => by
    simp only [List.map_nil, releaseMedia, Tx.wp_pure, List.append_nil]
    have howe : outstanding owed [] = owed := by
      funext k
      simp [outstanding]
    rw [← howe, ← hp]
    exact h
  | row :: rows, p, s, hp, h, hfind => by
    simp only [List.map_cons, releaseMedia, Tx.wp_bind, Tx.wp_pure]
    rw [hfind row (by simp), Option.bind_some]
    have hpos : ∀ mid, row.data.mediaObjectId = some mid → 0 < (s.actualRefCount mid : Int) + p.owed mid := by
      intro mid hmid
      rw [hp, outstanding, howed, List.countP_cons]
      simp only [hmid, decide_true, if_true]
      push_cast
      omega
    refine (h.unlinkMedia now hpos).imp fun job s₁ h₁ => ?_
    have howe : owe p.owed row.data.mediaObjectId (-1) = outstanding owed rows := by rw [hp, outstanding_cons]
    refine (releaseMedia_spec now howed (p := { p with
      owed := owe p.owed row.data.mediaObjectId (-1), jobs := p.jobs ++ job.toList }) howe h₁
      fun r hr => hfind r (List.mem_cons_of_mem _ hr)).imp fun jobs s₂ h₂ => ?_
    simpa only [List.append_assoc] using h₂

/-- The candidates of a thread deletion hold every memory it deletes. -/
theorem Store.Valid.find?_findByIds (hs : s.Valid) {ids : List Nat} {row : MemoryRow} (hrow : row ∈ s.memories)
    (hid : row.id ∈ ids) : (s.findByIds ids).find? (fun r => r.id = row.id) = some row := by
  have hnd : ((s.findByIds ids).map MemoryRow.id).Nodup := by
    have hperm := (List.perm_insertionSort (fun a b : MemoryRow => b.id ≤ a.id)
      (s.memories.filter (·.id ∈ ids))).map MemoryRow.id
    exact hperm.nodup_iff.2 (hs.memoryIds.sublist (List.filter_sublist.map _))
  exact (find?_eq_some_of_nodup hnd).2 ⟨mem_findByIds.2 ⟨hrow, hid⟩, rfl⟩

/-- **The deletion of a thread** takes its junction rows, the memories no thread
is left to hold, their references, and the thread. -/
theorem deleteThreadInTx_spec (h : Midway s₀ p s) (howed : p.owed = fun _ => 0) (now : Int) (id : Nat) :
    Tx.wp (deleteThreadInTx now id)
      (fun outcome s' => Midway s₀ { p with memories := p.memories ∪ {k | k ∈ outcome.allMemoryIds}
                                            threads := insert id p.threads
                                            jobs := p.jobs ++ outcome.postDelete } s') (·.benign = true) s := by
  unfold deleteThreadInTx deleteAttachmentsByThread deleteOrphanedByIds deleteLabelsByThread deleteThreadRow
  simp only [Tx.wp_bind, Tx.wp_get, Tx.wp_writes, Tx.wp_reads, Tx.wp_pure]
  generalize hall : s.memoryIdsByThread id = allMemoryIds
  have h₁ := h.detach fun row => row.threadId = id
  generalize hs₁ : s.detach (fun row => row.threadId = id) = s₁ at h₁ ⊢
  have hmem₁ : s₁.memories = s.memories := by rw [← hs₁]; rfl
  have hrows₁ : s₁.threadMemories = s.threadMemories.filter fun row => !decide (row.threadId = id) := by
    rw [← hs₁]; rfl
  have h₂ := h₁.deleteMemories (q := s₁.isOrphanOf allMemoryIds) fun row _ hq => by
    simp only [Store.isOrphanOf, Bool.and_eq_true] at hq
    exact hq.2
  have hfind : ∀ row ∈ s₁.memories.filter (s₁.isOrphanOf allMemoryIds),
      (s.findByIds allMemoryIds).find? (fun r => r.id = row.id) = some row := by
    intro row hrow
    obtain ⟨hmem, hq⟩ := List.mem_filter.1 hrow
    simp only [Store.isOrphanOf, Bool.and_eq_true, decide_eq_true_eq] at hq
    exact h.valid.find?_findByIds (hmem₁ ▸ hmem) hq.1
  have howe : (fun k => p.owed k + (s₁.memories.countP fun row =>
      s₁.isOrphanOf allMemoryIds row && row.data.mediaObjectId = some k : Nat)) =
      outstanding p.owed (s₁.memories.filter (s₁.isOrphanOf allMemoryIds)) := by
    funext k
    simp only [outstanding, List.countP_filter]
    congr 2
    refine List.countP_congr fun row _ => ?_
    rw [Bool.and_comm]
  refine ((releaseMedia_spec now howed howe h₂ hfind).and
    (releaseMedia_does (R := Store.SameMessages) Store.SameMessages.modifyMedia now _ _ _)).mono
      (fun jobs s₃ hout => ?_) fun _ he => he.1
  obtain ⟨h₃, hsame₃⟩ := hout
  have h₄ : Midway s₀ _ (s₃.removeLabels fun row => row.threadId = id) := h₃.setLabels _
  refine (h₄.deleteThread ?_).mono (fun k hk => ?_) (fun _ hk => hk) (fun k hk => ?_) rfl rfl
  · intro a ha
    have hrows : a ∈ s₁.threadMemories := by
      have : a ∈ s₃.threadMemories := ha
      rw [hsame₃.2] at this
      exact this
    rw [hrows₁] at hrows
    simpa using (List.mem_filter.1 hrows).2
  · rcases hk with hk | ⟨row, -, hq, rfl⟩
    · exact .inl hk
    · simp only [Store.isOrphanOf, Bool.and_eq_true, decide_eq_true_eq] at hq
      exact .inr hq.1
  · rcases hk.1 with hk' | ⟨a, -, hq, rfl⟩
    · exact hk'
    · exact absurd (by simpa using hq) hk.2

/-- What several thread deletions have done. -/
def DeleteThreadTxOutcome.pending (p : Pending) (outcomes : List (Nat × DeleteThreadTxOutcome)) : Pending :=
  { p with
      memories := p.memories ∪ {k | ∃ outcome ∈ outcomes, k ∈ outcome.2.allMemoryIds}
      threads := p.threads ∪ {k | ∃ outcome ∈ outcomes, k = outcome.1}
      jobs := p.jobs ++ outcomes.flatMap fun outcome => outcome.2.postDelete }

theorem deleteThreads_spec (h : Midway s₀ p s) (howed : p.owed = fun _ => 0) (now : Int) (ids : List Nat) :
    Tx.wp (deleteThreads now ids)
      (fun outcomes s' => Midway s₀ (DeleteThreadTxOutcome.pending p outcomes) s') (·.benign = true) s := by
  unfold deleteThreads
  refine Tx.wp_collect_all (I := fun _ outcomes s' => Midway s₀ (DeleteThreadTxOutcome.pending p outcomes) s') ?_ ?_
  · intro id rest outcomes s₁ h₁
    simp only [Tx.wp_bind, Tx.wp_pure]
    refine (deleteThreadInTx_spec h₁ howed now id).imp fun outcome s₂ h₂ => ?_
    refine h₂.mono (fun k hk => ?_) (fun k hk => ?_) (fun _ hk => hk) rfl ?_
    · rcases hk with (hk | ⟨o, hmem, hk⟩) | hk
      · exact .inl hk
      · exact .inr ⟨o, by simp [hmem], hk⟩
      · exact .inr ⟨(id, outcome), by simp, hk⟩
    · rcases hk with rfl | hk | ⟨o, hmem, rfl⟩
      · exact .inr ⟨(k, outcome), by simp, rfl⟩
      · exact .inl hk
      · exact .inr ⟨o, by simp [hmem], rfl⟩
    · simp [DeleteThreadTxOutcome.pending]
  · exact h.mono (fun _ hk => .inl hk) (fun _ hk => .inl hk) (fun _ hk => hk) rfl
      (by simp [DeleteThreadTxOutcome.pending])

/-! ## Parent ids and added memories -/

theorem updateMemoryParentIdsWithGuards_spec (h : Midway s₀ p s) (now : Int) (threadId memoryId : Nat)
    (newParentIds : List Nat) (whenShared whenNonEmpty : Bool) :
    Tx.wp (updateMemoryParentIdsWithGuards now threadId memoryId newParentIds whenShared whenNonEmpty)
      (fun outcome s' => Midway s₀ { p with memories := p.memories ∪ {k | outcome = .rewired ∧ k = memoryId}
                                            threads := p.threads ∪ {k | outcome = .rewired ∧ k = threadId} } s')
      (·.benign = true) s := by
  have hnothing : ∀ outcome : UpdateMemoryParentsOutcome,
      Midway s₀ { p with memories := p.memories ∪ {k | outcome = .rewired ∧ k = memoryId}
                         threads := p.threads ∪ {k | outcome = .rewired ∧ k = threadId} } s := fun _ =>
    h.mono (fun _ hk => .inl hk) (fun _ hk => .inl hk) (fun _ hk => hk) rfl rfl
  unfold updateMemoryParentIdsWithGuards
  simp only [Tx.wp_bind, Tx.wp_get, Tx.wp_ensure]
  refine ⟨fun hthread => ⟨fun _ => ?_, fun _ => rfl⟩, fun _ => rfl⟩
  split
  · exact rfl
  · split
    · exact hnothing _
    · split
      · exact hnothing _
      · unfold updateParentIds
        simp only [Tx.wp_bind, Tx.wp_pure]
        refine (h.wp_modifyMemory memoryId (f := fun stored => { stored with
          parentIds := newParentIds.filter (· ∈ (s.findByIds newParentIds).map MemoryRow.id) })
          (fun _ => rfl) fun _ => rfl).imp fun _ s₁ hout => ?_
        obtain ⟨h₁, hgrows₁⟩ := hout
        refine (h₁.attachAll now (hgrows₁.2 _ hthread) fun id hid => hgrows₁.1 id ?_).imp fun _ s₂ hout => ?_
        · obtain ⟨row, hrow, rfl⟩ := List.mem_map.1 (by simpa using (List.mem_filter.1 hid).2)
          exact Store.findMemory_isSome.2 ⟨row, (Store.mem_findByIds.1 hrow).1, rfl⟩
        · refine (hout.1.refreshMessageBounds now threadId).imp fun _ s₃ hout => ?_
          refine hout.1.mono (fun k hk => ?_) (fun k hk => ?_) (fun k hk => ?_) rfl rfl
          · rcases hk with rfl | hk
            · exact .inr ⟨trivial, rfl⟩
            · exact .inl hk
          · rcases hk with hk | ⟨-, rfl⟩
            · exact .inl hk
            · exact .inr ⟨trivial, rfl⟩
          · rcases hk.1 with rfl | hk'
            · exact absurd rfl hk.2
            · exact hk'

theorem injectedDefault_spec (thread : ThreadRow) (parents : List MemoryRow) (skip : Bool) :
    Tx.wp (injectedDefault thread parents skip)
      (fun answer s' => s' = s ∧ ∀ id, answer = some id → (s.findMemory id).isSome) (·.benign = true) s := by
  unfold injectedDefault
  split
  · exact validateDefaultSystemMemoryId_spec _ _
  · exact ⟨rfl, fun id he => by simp at he⟩

/-- An added memory is new, attached, and leaves the thread to be refreshed. -/
theorem addMemoryCore_spec [Deployment] (h : Midway s₀ p s) (now : Int) (threadId : Nat) (memory : MemoryData)
    (skip : Bool) :
    Tx.wp (addMemoryCore now threadId memory skip)
      (fun answer s' => Midway s₀ { p with bounds := insert threadId p.bounds } s' ∧ s₀.nextId ≤ answer.1 ∧
        (s'.findMemory answer.1).isSome ∧ s.Grows s') (·.benign = true) s := by
  unfold addMemoryCore
  rw [Tx.wp_bind, Tx.wp_get]
  split
  · exact rfl
  · next thread hfind =>
    have hthread : (s.findThread threadId).isSome := by rw [hfind]; rfl
    rw [Tx.wp_bind]
    refine (normalizeMemoryForCreate_checks _ _).wp fun memory => ?_
    rw [Tx.wp_bind]
    refine (validateMemoryKindMatchesThread_checks _ _).wp fun _ => ?_
    rw [Tx.wp_bind]
    refine Checks.wp (Tx.Does.forEach fun parent _ => validateMemoryKindMatchesThread_checks _ _) fun _ => ?_
    rw [Tx.wp_bind, Tx.wp_ensure]
    refine ⟨fun _ => ?_, fun _ => rfl⟩
    rw [Tx.wp_bind]
    refine (injectedDefault_spec _ _ _).imp fun defaultId s₁ ⟨he, hdefault⟩ => ?_
    subst he
    rw [Tx.wp_bind]
    refine (h.attachAll now hthread fun id hid => ?_).imp fun _ s₂ ⟨h₂, hgrows₂⟩ => ?_
    · have hmem : id ∈ defaultId.toList ++ (s₁.findByIds memory.parentIds).map MemoryRow.id := by
        simpa using (List.mem_filter.1 hid).2
      rcases List.mem_append.1 hmem with hd | hp
      · exact hdefault id (by simpa using hd)
      · obtain ⟨row, hrow, rfl⟩ := List.mem_map.1 hp
        exact Store.findMemory_isSome.2 ⟨row, (Store.mem_findByIds.1 hrow).1, rfl⟩
    rw [Tx.wp_bind]
    refine ((h₂.linkMedia now memory.mediaObjectId).and
      (linkMedia_does (R := Store.Grows) Store.Grows.modifyMedia now memory.mediaObjectId s₂)).mono
        (fun _ s₃ ⟨h₃, hgrows₃⟩ => ?_) fun _ he => he.1
    rw [Tx.wp_bind]
    refine (h₃.wp_insertMemory now _).imp fun id s₄ ⟨h₄, hid, hmemory, hgrows₄⟩ => ?_
    have hgrows : s₁.Grows s₄ := trans_of _ (trans_of _ hgrows₂ hgrows₃) hgrows₄
    simp only [owe_cancel] at h₄
    unfold insertAutoPosition
    simp only [Tx.wp_bind, Tx.wp_get, Tx.wp_ensure, Tx.wp_writes, Tx.wp_pure]
    refine ⟨fun _ => ⟨?_, hid, ?_, ?_⟩, fun _ => rfl⟩
    · have h₅ := h₄.attach now (hgrows.2 _ hthread) hmemory
      refine h₅.mono (fun _ hk => hk) (fun _ hk => hk) (fun k hk => ?_) rfl rfl
      rcases hk with rfl | hk
      · exact .inl rfl
      · exact hk
    · rw [Store.findMemory_attach]
      exact hmemory
    · exact trans_of _ hgrows (Store.Grows.attach _ _ _ _)

theorem addMemory_spec [Deployment] (h : Midway s₀ p s) (now : Int) (groups : GroupAnswers) (threadId : Nat)
    (memory : MemoryData) :
    Tx.wp (addMemory now groups threadId memory)
      (fun _ s' => Midway s₀ { p with threads := insert threadId p.threads } s') (·.benign = true) s := by
  unfold addMemory
  rw [Tx.wp_bind]
  refine (bailIf_checks _).wp fun _ => ?_
  rw [Tx.wp_bind]
  refine (validateLegacySummaryTarget_checks _ _).wp fun _ => ?_
  rw [Tx.wp_bind]
  refine (addMemoryCore_spec h now threadId memory false).imp fun answer s₁ ⟨h₁, _⟩ => ?_
  rw [Tx.wp_bind]
  refine (bailIf_checks _).wp fun _ => ?_
  rw [Tx.wp_bind]
  refine (h₁.refreshMessageBounds now threadId).imp fun _ s₂ ⟨h₂, _⟩ => ?_
  refine h₂.mono (fun _ hk => hk) (fun k hk => ?_) (fun k hk => ?_) rfl rfl
  · rcases hk with hk | ⟨-, rfl⟩
    · exact .inr hk
    · exact .inl rfl
  · rcases hk.1 with rfl | hk'
    · exact absurd rfl hk.2
    · exact hk'

end MemoryStore.Conversation
