/-
Every call, as a whole: from a sound state it commits a sound state, or fails.
-/
import MemoryStore.Conversation.BatchSpec

namespace MemoryStore.Conversation

variable {s s' : Store} {p : Pending}

/-- What follows the commit accounts for what the transaction did: nothing is
left to refresh, no count is off, the claimed media are to be deleted, and the
key of every row changed is removed from a cache. -/
structure Effects.Covers (eff : Effects) (s : Store) (p : Pending) : Prop where
  bounds : p.bounds = ∅
  owed : p.owed = fun _ => 0
  jobs : p.jobs = eff.postDelete
  memories : ∀ id < s.nextId, id ∈ p.memories → .memoryId id ∈ eff.memoryCache ∨ .memoryId id ∈ eff.threadCache
  threads : ∀ id < s.nextId, id ∈ p.threads → .threadId id ∈ eff.threadCache

theorem Effects.covers_none : Effects.none.Covers s .start where
  bounds := rfl
  owed := rfl
  jobs := rfl
  memories _ _ hid := hid.elim
  threads _ _ hid := hid.elim

/-- **Every call accounts for what it does**, and never meets a guard against
broken counts. -/
theorem Operation.tx_spec [Deployment] (hs : s.Sound) (now : Int) (op : Operation) :
    Tx.wp (op.tx now) (fun eff s' => ∃ p, Midway s p s' ∧ eff.Covers s p) (·.benign = true) s := by
  have h := Midway.begin hs
  cases op with
  | createMemory groups memory =>
    unfold Operation.tx
    rw [Tx.wp_bind]
    exact (createMemory_spec h now groups memory).imp fun _ s' h' => ⟨_, h', Effects.covers_none⟩
  | updateMemory groups id memory =>
    unfold Operation.tx
    rw [Tx.wp_bind]
    refine (updateMemory_spec h rfl now groups id memory).imp fun outcome s' hout => ⟨_, hout.1, ?_⟩
    have hnone := hout.2
    cases hu : outcome.updated with
    | false =>
      refine ⟨rfl, rfl, by simp [hnone hu, Effects.none, Pending.start], fun k _ hk => ?_, fun k _ hk => hk.elim⟩
      rcases hk with hk | ⟨hc, -⟩
      · exact hk.elim
      · simp at hc
    | true =>
      refine ⟨rfl, rfl, rfl, fun k _ hk => ?_, fun k _ hk => hk.elim⟩
      rcases hk with hk | ⟨-, rfl⟩
      · exact hk.elim
      · exact .inl (by simp)
  | updateContentNoDispatch id content =>
    unfold Operation.tx Conversation.updateContentNoDispatch
    rw [Tx.wp_bind]
    refine (updateContentOnly_spec h now id content).imp fun _ s' hout => ⟨_, hout.1, ?_⟩
    refine ⟨rfl, rfl, rfl, fun k _ hk => ?_, fun k _ hk => hk.elim⟩
    rcases hk with rfl | hk
    · exact .inl (by simp)
    · exact hk.elim
  | writeBackCaption id mediaObjectId caption =>
    unfold Operation.tx
    rw [Tx.wp_bind]
    refine (writeBackCaption_spec h now id mediaObjectId caption).imp fun outcome s' h' => ⟨_, h', ?_⟩
    by_cases hc : outcome = .applied
    · simp only [hc, if_true]
      refine ⟨rfl, rfl, rfl, fun k _ hk => ?_, fun k _ hk => hk.elim⟩
      rcases hk with hk | ⟨-, rfl⟩
      · exact hk.elim
      · exact .inl (by simp)
    · simp only [hc, if_false]
      refine ⟨rfl, rfl, rfl, fun k _ hk => ?_, fun k _ hk => hk.elim⟩
      rcases hk with hk | ⟨hf, -⟩
      · exact hk.elim
      · exact hf.elim
  | deleteMemory id =>
    unfold Operation.tx
    rw [Tx.wp_bind]
    refine (deleteMemoryRdb_spec h rfl now id).imp fun effects s' hout => ⟨_, hout.1, ?_⟩
    have hnone := hout.2
    unfold MemoryDeletion.effects
    cases hd : effects.deleted with
    | false =>
      obtain ⟨ha, hj⟩ := hnone hd
      refine ⟨rfl, rfl, by simp [hj, Effects.none, Pending.start], fun k _ hk => ?_, fun k _ hk => ?_⟩
      · rcases hk with hk | ⟨hc, -⟩
        · exact hk.elim
        · simp at hc
      · rcases hk with hk | hk
        · exact hk.elim
        · simp [ha] at hk
    | true =>
      refine ⟨rfl, rfl, rfl, fun k _ hk => ?_, fun k _ hk => ?_⟩
      · rcases hk with hk | ⟨-, rfl⟩
        · exact hk.elim
        · exact .inl (by simp)
      · rcases hk with hk | hk
        · exact hk.elim
        · exact List.mem_map.2 ⟨k, hk, rfl⟩
  | deleteLinkedMemories ids =>
    unfold Operation.tx
    rw [Tx.wp_bind]
    refine (deleteLinkedMemories_spec h rfl now ids).imp fun deletions s' hout => ⟨_, hout.1, ?_⟩
    have hdeleted := hout.2
    have heffects : ∀ d ∈ deletions, d.2.effects d.1 =
        ⟨d.2.postDelete.toList, [.memoryId d.1], d.2.affectedThreadIds.map .threadId⟩ := by
      intro d hd
      simp [MemoryDeletion.effects, hdeleted d hd]
    refine ⟨rfl, rfl, ?_, fun k _ hk => ?_, fun k _ hk => ?_⟩
    · show [] ++ deletionJobs deletions = _
      simp only [List.nil_append, deletionJobs, Effects.all, List.flatMap_map]
      refine List.flatMap_congr fun d hd => ?_
      rw [heffects d hd]
    · rcases hk with hk | ⟨d, hd, rfl⟩
      · exact hk.elim
      · refine .inl (List.mem_flatMap.2 ⟨d.2.effects d.1, List.mem_map.2 ⟨d, hd, rfl⟩, ?_⟩)
        rw [heffects d hd]
        simp
    · rcases hk with hk | ⟨d, hd, hk⟩
      · exact hk.elim
      · refine List.mem_flatMap.2 ⟨d.2.effects d.1, List.mem_map.2 ⟨d, hd, rfl⟩, ?_⟩
        rw [heffects d hd]
        exact List.mem_map.2 ⟨k, hk, rfl⟩
  | createThread thread =>
    unfold Operation.tx
    rw [Tx.wp_bind]
    refine (createThread_spec h now thread).imp fun id s' hout => ⟨_, hout.1, ?_⟩
    have hid := hout.2
    refine ⟨rfl, rfl, rfl, fun k _ hk => hk.elim, fun k hlt hk => ?_⟩
    rcases hk with rfl | hk
    · omega
    · exact hk.elim
  | updateThread id thread =>
    unfold Operation.tx
    rw [Tx.wp_bind]
    refine (updateThread_spec h now id thread).imp fun outcome s' h' => ⟨_, h', ?_⟩
    cases hc : outcome.changed with
    | false =>
      refine ⟨rfl, rfl, rfl, fun k _ hk => hk.elim, fun k _ hk => ?_⟩
      rcases hk with hk | ⟨hf, -⟩
      · exact hk.elim
      · simp at hf
    | true =>
      refine ⟨rfl, rfl, rfl, fun k _ hk => hk.elim, fun k _ hk => ?_⟩
      rcases hk with hk | ⟨-, rfl⟩
      · exact hk.elim
      · simp
  | deleteThreads ids =>
    unfold Operation.tx
    rw [Tx.wp_bind]
    refine (deleteThreads_spec h rfl now ids).imp fun outcomes s' h' => ⟨_, h', ?_⟩
    refine ⟨rfl, rfl, ?_, fun k _ hk => ?_, fun k _ hk => ?_⟩
    · simp [DeleteThreadTxOutcome.pending, Pending.start, Effects.all, DeleteThreadTxOutcome.effects,
        List.flatMap_map]
    · rcases hk with hk | ⟨o, ho, hk⟩
      · exact hk.elim
      · exact .inl (List.mem_flatMap.2 ⟨_, List.mem_map.2 ⟨o, ho, rfl⟩, List.mem_map.2 ⟨k, hk, rfl⟩⟩)
    · rcases hk with hk | ⟨o, ho, rfl⟩
      · exact hk.elim
      · exact List.mem_flatMap.2 ⟨_, List.mem_map.2 ⟨o, ho, rfl⟩, by simp [DeleteThreadTxOutcome.effects]⟩
  | updateMemoryParentIdsWithGuards threadId memoryId newParentIds whenShared whenNonEmpty =>
    unfold Operation.tx
    rw [Tx.wp_bind]
    refine (updateMemoryParentIdsWithGuards_spec h now threadId memoryId newParentIds whenShared whenNonEmpty).imp
      fun outcome s' h' => ⟨_, h', ?_⟩
    by_cases hc : outcome = .rewired
    · simp only [hc, if_true]
      refine ⟨rfl, rfl, rfl, fun k _ hk => ?_, fun k _ hk => ?_⟩
      · rcases hk with hk | ⟨-, rfl⟩
        · exact hk.elim
        · exact .inr (by simp)
      · rcases hk with hk | ⟨-, rfl⟩
        · exact hk.elim
        · simp
    · simp only [hc, if_false]
      refine ⟨rfl, rfl, rfl, fun k _ hk => ?_, fun k _ hk => ?_⟩
      · rcases hk with hk | ⟨hf, -⟩
        · exact hk.elim
        · exact hf.elim
      · rcases hk with hk | ⟨hf, -⟩
        · exact hk.elim
        · exact hf.elim
  | addMemory groups threadId memory =>
    unfold Operation.tx
    rw [Tx.wp_bind]
    refine (addMemory_spec h now groups threadId memory).imp fun _ s' h' => ⟨_, h', ?_⟩
    refine ⟨rfl, rfl, rfl, fun k _ hk => hk.elim, fun k _ hk => ?_⟩
    rcases hk with rfl | hk
    · simp
    · exact hk.elim
  | addMemoriesBatch answers input =>
    unfold Operation.tx
    rw [Tx.wp_bind]
    refine (addMemoriesBatch_spec h now answers input).imp fun output s' h' => ⟨_, h', ?_⟩
    cases hc : output.suppressed with
    | true =>
      refine ⟨rfl, rfl, rfl, fun k _ hk => ?_, fun k _ hk => ?_⟩
      · rcases hk with hk | ⟨hf, -⟩
        · exact hk.elim
        · simp at hf
      · rcases hk with hk | ⟨hf, -⟩
        · exact hk.elim
        · simp at hf
    | false =>
      refine ⟨rfl, rfl, rfl, fun k _ hk => ?_, fun k _ hk => ?_⟩
      · rcases hk with hk | ⟨-, hk⟩
        · exact hk.elim
        · exact .inl (List.mem_map.2 ⟨k, hk, rfl⟩)
      · rcases hk with hk | ⟨-, rfl⟩
        · exact hk.elim
        · simp

/-- A state an account is settled in is sound. -/
theorem Midway.sound (h : Midway s p s') (hb : p.bounds = ∅) (ho : p.owed = fun _ => 0) : s'.Sound where
  valid := h.valid
  bounds := hb ▸ h.bounds
  counted := ho ▸ h.counted

/-- **A call keeps a sound state sound**, whether it commits or fails. -/
theorem Operation.sound_commit [Deployment] (hs : s.Sound) (now : Int) (op : Operation) :
    ((op.tx now).commit s).Sound := by
  rcases (op.tx_spec hs now).commit with he | ⟨eff, p, h, hc⟩
  · rw [he]
    exact hs
  · exact h.sound hc.bounds hc.owed

end MemoryStore.Conversation
