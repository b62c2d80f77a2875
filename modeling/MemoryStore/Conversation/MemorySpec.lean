/-
What the calls of `MemoryApp` do, from inside a transaction: they leave nothing
owed and nothing to refresh, claim the media they answer, and change no memory
or thread that they do not answer.
-/
import MemoryStore.Conversation.StepSpec

namespace MemoryStore.Conversation

open Table

variable {s s₀ : Store} {p : Pending}

/-! ## Create and update -/

theorem createMemory_spec [Deployment] (h : Midway s₀ p s) (now : Int) (groups : GroupAnswers) (memory : MemoryData) :
    Tx.wp (createMemory now groups memory) (fun _ s' => Midway s₀ p s') (·.benign = true) s := by
  unfold createMemory
  rw [Tx.wp_bind]
  refine (normalizeMemoryForCreate_checks _ _).wp fun memory => ?_
  rw [Tx.wp_bind]
  refine (validateLegacySummaryTarget_checks _ _).wp fun _ => ?_
  rw [Tx.wp_bind]
  refine (h.linkMedia now memory.mediaObjectId).imp fun _ s₁ h₁ => ?_
  refine (h₁.wp_insertMemory now memory).imp fun id s₂ ⟨h₂, _⟩ => ?_
  simpa only [owe_cancel] using h₂

/-- What a swap takes and gives, the rewrite of the memory gives and takes back. -/
theorem owe_swap (owed : Nat → Int) (a b : Option Nat) :
    owe (owe (owe (owe owed a (-1)) b 1) a 1) b (-1) = owed := by
  funext k
  unfold owe
  split <;> split <;> omega

/-- The five-way diff: one off what the memory named, one on what it is to name. -/
theorem updateMediaRefs_spec (h : Midway s₀ p s) (now : Int) (a b : Option Nat)
    (hpos : ∀ id, a = some id → 0 < (s.actualRefCount id : Int) + p.owed id) :
    Tx.wp (updateMediaRefs now a b)
      (fun jobs s' => Midway s₀ { p with owed := owe (owe p.owed a (-1)) b 1, jobs := p.jobs ++ jobs } s' ∧
        s.SameMessages s') (·.benign = true) s := by
  have hincr := fun id : Nat => incrRef_does (R := Store.SameMessages) Store.SameMessages.modifyMedia now id
  have hdecr := fun id : Nat => decrAndMaybeClaim_does (R := Store.SameMessages) Store.SameMessages.modifyMedia now id
  cases a with
  | none =>
    cases b with
    | none =>
      simp only [updateMediaRefs, Tx.wp_pure, owe_none, List.append_nil]
      exact ⟨h, refl_of _ _⟩
    | some b =>
      simp only [updateMediaRefs, Tx.wp_bind, Tx.wp_get, Tx.wp_ensure, Tx.wp_pure, owe_none, List.append_nil]
      refine ⟨fun _ => ?_, fun _ => rfl⟩
      refine ((h.incrRef now b).and (hincr b s)).mono (fun hit s' hs' => ⟨fun hhit => ?_, fun _ => rfl⟩) fun _ he => he.1
      exact ⟨hs'.1 hhit, hs'.2⟩
  | some a =>
    have hclaim := h.decrAndMaybeClaim now (hpos a rfl)
    cases b with
    | none =>
      simp only [updateMediaRefs, Tx.wp_bind, Tx.wp_pure, owe_none]
      exact (hclaim.and (hdecr a s)).mono (fun job s' hs' => hs') fun _ he => he.1
    | some b =>
      simp only [updateMediaRefs]
      split
      · next hab =>
        subst hab
        simp only [Tx.wp_pure, List.append_nil]
        have howe : owe (owe p.owed (some a) (-1)) (some a) 1 = p.owed := owe_cancel p.owed (some a) (-1)
        rw [howe]
        exact ⟨h, refl_of _ _⟩
      · simp only [Tx.wp_bind, Tx.wp_ensure, Tx.wp_pure]
        refine (hclaim.and (hdecr a s)).mono (fun job s₁ hout => ?_) fun _ he => he.1
        obtain ⟨h₁, hsame₁⟩ := hout
        refine ((h₁.incrRef now b).and (hincr b s₁)).mono (fun hit s₂ hs₂ => ⟨fun hhit => ?_, fun _ => rfl⟩)
          fun _ he => he.1
        exact ⟨hs₂.1 hhit, trans_of _ hsame₁ hs₂.2⟩

theorem updateMemory_spec (h : Midway s₀ p s) (howed : p.owed = fun _ => 0) (now : Int) (groups : GroupAnswers)
    (id : Nat) (memory : Option MemoryData) :
    Tx.wp (updateMemory now groups id memory)
      (fun outcome s' => Midway s₀ { p with memories := p.memories ∪ {k | outcome.updated = true ∧ k = id}
                                            jobs := p.jobs ++ outcome.postDelete } s' ∧
        (outcome.updated = false → outcome.postDelete = [])) (·.benign = true) s := by
  have hnothing : Midway s₀ { p with memories := p.memories ∪ {k | UpdateOutcome.default.updated = true ∧ k = id}
                                     jobs := p.jobs ++ UpdateOutcome.default.postDelete } s ∧
      (UpdateOutcome.default.updated = false → UpdateOutcome.default.postDelete = []) := by
    refine ⟨h.mono (fun _ hk => .inl hk) (fun _ hk => hk) (fun _ hk => hk) rfl ?_, fun _ => rfl⟩
    simp [UpdateOutcome.default]
  cases memory with
  | none => exact hnothing
  | some requested =>
    unfold updateMemory
    rw [Tx.wp_bind, Tx.wp_get]
    split
    · exact hnothing
    · next row stored hfind =>
      obtain ⟨hmem, hid⟩ := Store.findMemory_mem hfind
      simp only at hid
      subst hid
      rw [Tx.wp_bind, Tx.wp_ensure]
      refine ⟨fun _ => ?_, fun _ => rfl⟩
      rw [Tx.wp_bind]
      refine (preserveMemoryKindForUpdate_checks _ _ _).wp fun w => ?_
      rw [Tx.wp_bind]
      refine (validateLegacySummaryTarget_checks _ _).wp fun _ => ?_
      rw [Tx.wp_bind]
      have hpos : ∀ mid, stored.mediaObjectId = some mid → 0 < (s.actualRefCount mid : Int) + p.owed mid := by
        intro mid hmid
        have := Store.actualRefCount_pos hmem hmid
        have hzero : p.owed mid = 0 := by rw [howed]
        omega
      refine (updateMediaRefs_spec h now stored.mediaObjectId w.mediaObjectId hpos).imp fun jobs s₁ ⟨h₁, hsame⟩ => ?_
      have hfind₁ : s₁.findMemory (MemoryRow.mk row stored).id = some ⟨row, stored⟩ := by
        unfold Store.findMemory
        rw [hsame.1]
        exact hfind
      unfold updateMemoryRow modifyMemory
      simp only [Tx.wp_bind, Tx.wp_reads, Tx.wp_writes, Tx.wp_pure, Tx.wp_ensure]
      refine ⟨fun _ => ⟨?_, fun he => by simp at he⟩, fun _ => rfl⟩
      have h₂ := h₁.modifyMemory (f := fun stored => stored.updated now w) hfind₁ fun _ => rfl
      have howe : owe (owe (owe (owe p.owed stored.mediaObjectId (-1)) w.mediaObjectId 1) stored.mediaObjectId 1)
          (stored.updated now w).mediaObjectId (-1) = p.owed := owe_swap _ _ _
      simp only [howe] at h₂
      refine h₂.mono (fun k hk => ?_) (fun _ hk => hk) (fun _ hk => hk) rfl rfl
      rcases hk with rfl | hk
      · exact .inr ⟨trivial, rfl⟩
      · exact .inl hk

theorem updateContentOnly_spec (h : Midway s₀ p s) (now : Int) (id : Nat) (content : String) :
    Tx.wp (updateContentOnly now id content)
      (fun _ s' => Midway s₀ { p with memories := insert id p.memories } s' ∧ s.Grows s') (·.benign = true) s :=
  h.wp_modifyMemory id (fun _ => rfl) fun _ => rfl

theorem writeBackCaption_spec (h : Midway s₀ p s) (now : Int) (id mediaObjectId : Nat) (caption : String) :
    Tx.wp (writeBackCaption now id mediaObjectId caption)
      (fun outcome s' => Midway s₀ { p with memories := p.memories ∪ {k | outcome = .applied ∧ k = id} } s')
      (·.benign = true) s := by
  have hnothing : ∀ outcome : CaptionWriteBack,
      Midway s₀ { p with memories := p.memories ∪ {k | outcome = .applied ∧ k = id} } s := fun _ =>
    h.mono (fun _ hk => .inl hk) (fun _ hk => hk) (fun _ hk => hk) rfl rfl
  unfold writeBackCaption
  split
  · exact hnothing _
  · rw [Tx.wp_bind, Tx.wp_get]
    split
    · exact hnothing _
    · split
      · exact hnothing _
      · split
        · exact hnothing _
        · rw [Tx.wp_bind]
          refine (updateContentOnly_spec h now id caption).imp fun _ s' ⟨hs', _⟩ => ?_
          refine hs'.mono (fun k hk => ?_) (fun _ hk => hk) (fun _ hk => hk) rfl rfl
          rcases hk with rfl | hk
          · exact .inr ⟨rfl, rfl⟩
          · exact .inl hk

/-! ## Delete -/

/-- **The deletion of a memory** leaves the bounds of every thread it touches
refreshed, the object it named released, and the rows it answers changed. -/
theorem deleteMemoryRdb_spec (h : Midway s₀ p s) (howed : p.owed = fun _ => 0) (now : Int) (id : Nat) :
    Tx.wp (deleteMemoryRdb now id)
      (fun effects s' => Midway s₀ { p with memories := p.memories ∪ {k | effects.deleted = true ∧ k = id}
                                            threads := p.threads ∪ {k | k ∈ effects.affectedThreadIds}
                                            jobs := p.jobs ++ effects.postDelete.toList } s' ∧
        (effects.deleted = false → effects.affectedThreadIds = [] ∧ effects.postDelete = none))
      (·.benign = true) s := by
  unfold deleteMemoryRdb
  rw [Tx.wp_bind, Tx.wp_get]
  split
  · refine ⟨h.mono (fun _ hk => .inl hk) (fun _ hk => .inl hk) (fun _ hk => hk) rfl (by simp), fun _ => ⟨rfl, rfl⟩⟩
  · next memory hfind =>
    obtain ⟨hmem, hid⟩ := Store.findMemory_mem hfind
    subst hid
    unfold clearDefaultSystemMemory deleteAttachmentsByMemory
    simp only [Tx.wp_bind, Tx.wp_writes]
    have h₁ := h.modifyThreads (q := fun row => row.defaultSystemMemoryId = some memory.id)
      (f := fun row => { row with defaultSystemMemoryId := none }) (fun _ _ => rfl) fun _ _ => rfl
    have h₂ := h₁.detach fun row => row.memoryId = memory.id
    refine (h₂.refreshMessageBoundsForThreadIds now (s.affectedThreadIds memory.id)).imp fun _ s₃ hout => ?_
    obtain ⟨h₃, hsame₃⟩ := hout
    -- Every thread whose junction rows went is affected, so nothing is left to refresh.
    have h₃' : Midway s₀ { p with threads := p.threads ∪ {k | k ∈ s.affectedThreadIds memory.id} } s₃ := by
      refine h₃.mono (fun _ hk => hk) (fun k hk => ?_) (fun k hk => ?_) rfl rfl
      · rcases hk with (hk | ⟨row, hrow, hq, rfl⟩) | hk
        · exact .inl hk
        · exact .inr (Store.mem_affectedThreadIds.2 (.inl ⟨row, hrow, by simpa using hq, rfl⟩))
        · exact .inr hk
      · obtain ⟨hk | ⟨a, ha, hq, rfl⟩, hn⟩ := hk
        · exact hk
        · exact absurd ((Store.mem_affectedThreadIds (s := s)).2 (.inr ⟨a, ha, by simpa using hq, rfl⟩)) hn
    have hmem₃ : s₃.memories = s.memories := hsame₃.1
    have hpos : ∀ mid, memory.data.mediaObjectId = some mid → 0 < (s₃.actualRefCount mid : Int) + p.owed mid := by
      intro mid hmid
      have := Store.actualRefCount_pos (s := s₃) (hmem₃ ▸ hmem) hmid
      have hzero : p.owed mid = 0 := by rw [howed]
      omega
    refine ((h₃'.unlinkMedia now hpos).and
      (unlinkMedia_does (R := Store.SameMessages) Store.SameMessages.modifyMedia now memory.data.mediaObjectId s₃)).mono
        (fun job s₄ hout => ?_) fun _ he => he.1
    obtain ⟨h₄, hsame₄⟩ := hout
    have hmem₄ : s₄.memories = s.memories := hsame₄.1.trans hmem₃
    have hrows₄ : s₄.threadMemories = s.threadMemories.filter fun row => !decide (row.memoryId = memory.id) :=
      hsame₄.2.trans hsame₃.2
    unfold deleteMemoryRow
    simp only [Tx.wp_bind, Tx.wp_reads, Tx.wp_writes, Tx.wp_pure]
    have hfound : (s₄.findMemory memory.id).isSome = true := by
      unfold Store.findMemory at hfind ⊢
      rw [hmem₄, hfind]
      rfl
    have h₅ := h₄.deleteMemories (q := fun row => row.id = memory.id) ?_
    · refine ⟨?_, fun he => by rw [hfound] at he; simp at he⟩
      have howe : (fun k => owe p.owed memory.data.mediaObjectId (-1) k + (s₄.memories.countP fun row =>
          decide (row.id = memory.id) && decide (row.data.mediaObjectId = some k) : Nat)) = p.owed := by
        funext k
        have hcount : s₄.memories.countP (fun row =>
            decide (row.id = memory.id) && decide (row.data.mediaObjectId = some k)) =
            if memory.data.mediaObjectId = some k then 1 else 0 := by
          have hmem' : memory ∈ s₄.memories := hmem₄ ▸ hmem
          have hone := h₄.valid.countP_id hmem' fun row => row.data.mediaObjectId = some k
          simpa using hone
        rw [hcount]
        unfold owe
        split
        · push_cast
          omega
        · simp
      simp only [howe] at h₅
      refine h₅.mono (fun k hk => ?_) (fun _ hk => hk) (fun _ hk => hk) rfl rfl
      rcases hk with hk | ⟨row, hrow, hq, rfl⟩
      · exact .inl hk
      · exact .inr ⟨hfound, by simpa using hq⟩
    · intro row hrow hq
      rw [Store.unattached_iff]
      intro a ha he
      rw [hrows₄] at ha
      have hne := (List.mem_filter.1 ha).2
      have hid : row.id = memory.id := by simpa using hq
      rw [he, hid] at hne
      simp at hne

/-- The media claimed by the deletions of several memories. -/
def deletionJobs (deletions : List (Nat × MemoryDeletion)) : List DeleteJob :=
  deletions.flatMap fun deletion => deletion.2.postDelete.toList

theorem deleteLinkedMemories_spec (h : Midway s₀ p s) (howed : p.owed = fun _ => 0) (now : Int) (ids : List Nat) :
    Tx.wp (deleteLinkedMemories now ids)
      (fun deletions s' => Midway s₀
          { p with memories := p.memories ∪ {k | ∃ deletion ∈ deletions, k = deletion.1}
                   threads := p.threads ∪ {k | ∃ deletion ∈ deletions, k ∈ deletion.2.affectedThreadIds}
                   jobs := p.jobs ++ deletionJobs deletions } s' ∧
        ∀ deletion ∈ deletions, deletion.2.deleted = true) (·.benign = true) s := by
  unfold deleteLinkedMemories
  refine Tx.wp_collect_all (I := fun _ deletions s' => Midway s₀
      { p with memories := p.memories ∪ {k | ∃ deletion ∈ deletions, k = deletion.1}
               threads := p.threads ∪ {k | ∃ deletion ∈ deletions, k ∈ deletion.2.affectedThreadIds}
               jobs := p.jobs ++ deletionJobs deletions } s' ∧
    ∀ deletion ∈ deletions, deletion.2.deleted = true) ?_ ⟨?_, by simp⟩
  · rintro id rest deletions s₁ ⟨h₁, hdeleted⟩
    simp only [Tx.wp_bind, Tx.wp_ensure, Tx.wp_pure]
    refine (deleteMemoryRdb_spec h₁ howed now id).imp fun effects s₂ hout => ⟨fun hd => ⟨?_, ?_⟩, fun _ => rfl⟩
    · refine hout.1.mono (fun k hk => ?_) (fun k hk => ?_) (fun _ hk => hk) rfl ?_
      · rcases hk with (hk | ⟨deletion, hmem, rfl⟩) | ⟨-, rfl⟩
        · exact .inl hk
        · exact .inr ⟨deletion, by simp [hmem], rfl⟩
        · exact .inr ⟨(k, effects), by simp, rfl⟩
      · rcases hk with (hk | ⟨deletion, hmem, hk⟩) | hk
        · exact .inl hk
        · exact .inr ⟨deletion, by simp [hmem], hk⟩
        · exact .inr ⟨(id, effects), by simp, hk⟩
      · simp [deletionJobs]
    · intro deletion hmem
      rcases List.mem_append.1 hmem with hmem | hmem
      · exact hdeleted deletion hmem
      · obtain rfl := List.mem_singleton.1 hmem
        exact hd
  · exact h.mono (fun _ hk => .inl hk) (fun _ hk => .inl hk) (fun _ hk => hk) rfl (by simp [deletionJobs])

end MemoryStore.Conversation
