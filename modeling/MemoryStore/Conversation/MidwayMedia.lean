/-
Linking and unlinking media objects, inside a transaction: a link puts one to
the account of the object, an unlink takes one off it, and claims the row if it
was the last.
-/
import MemoryStore.Conversation.MidwayThread

namespace MemoryStore.Conversation

open Table

variable {s s₀ : Store} {p : Pending}

/-! ## Conditional updates of a media row -/

@[simp] theorem wp_modifyMedia {id : Nat} {g : MediaObjectRow → Bool} {f : MediaObjectRow → MediaObjectRow}
    {Q : Bool → Store → Prop} {E : AppError → Prop} :
    Tx.wp (modifyMedia id g f) Q E s ↔
      Q (s.mediaObjects.any fun row => row.id = id && g row) (s.modifyMedia id g f) := Iff.rfl

/-- The update hits exactly if the row is there and meets the condition. -/
theorem Store.Valid.any_media (hs : s.Valid) {id : Nat} {g : MediaObjectRow → Bool} :
    (s.mediaObjects.any fun row => row.id = id && g row) = true ↔
      ∃ row, s.findMedia id = some row ∧ g row = true := by
  simp only [List.any_eq_true, Bool.and_eq_true, decide_eq_true_eq]
  constructor
  · rintro ⟨row, hmem, hid, hguard⟩
    exact ⟨row, hs.findMedia_iff.2 ⟨hmem, hid⟩, hguard⟩
  · rintro ⟨row, hfind, hguard⟩
    exact ⟨row, (Store.findMedia_mem hfind).1, (Store.findMedia_mem hfind).2, hguard⟩

theorem Store.findMedia_modifyMedia {id : Nat} {g : MediaObjectRow → Bool} {f : MediaObjectRow → MediaObjectRow}
    (hf : ∀ row, (f row).id = row.id) (k : Nat) :
    (s.modifyMedia id g f).findMedia k =
      (s.findMedia k).map fun row => if row.id = id && g row then f row else row :=
  find?_modifyWhere_key MediaObjectRow.id (fun row _ => hf row) k s.mediaObjects

theorem Store.findMedia_modifyMedia_ne {id k : Nat} {g : MediaObjectRow → Bool}
    {f : MediaObjectRow → MediaObjectRow} (hf : ∀ row, (f row).id = row.id) (hk : k ≠ id) :
    (s.modifyMedia id g f).findMedia k = s.findMedia k := by
  rw [findMedia_modifyMedia hf]
  cases hfind : s.findMedia k with
  | none => rfl
  | some row =>
    have hrow : row.id ≠ id := by rw [(findMedia_mem hfind).2]; exact hk
    simp [hrow]

theorem Store.findMedia_modifyMedia_self {id : Nat} {g : MediaObjectRow → Bool}
    {f : MediaObjectRow → MediaObjectRow} (hf : ∀ row, (f row).id = row.id) {row : MediaObjectRow}
    (hrow : s.findMedia id = some row) (hguard : g row = true) :
    (s.modifyMedia id g f).findMedia id = some (f row) := by
  rw [findMedia_modifyMedia hf, hrow, Option.map_some, (findMedia_mem hrow).2]
  simp [hguard]

theorem Store.Valid.modifyMedia (hs : s.Valid) {id : Nat} {g : MediaObjectRow → Bool}
    {f : MediaObjectRow → MediaObjectRow} (hf : ∀ row, (f row).id = row.id)
    (hsha : ∀ row, (f row).sha256 = row.sha256) : (s.modifyMedia id g f).Valid := by
  refine { hs with mediaIds := ?_, mediaId_lt := ?_, sha256 := ?_ }
  · show ((modifyWhere _ f s.mediaObjects).map MediaObjectRow.id).Nodup
    rw [map_modifyWhere fun row _ => hf row]
    exact hs.mediaIds
  · intro row hrow
    obtain ⟨r, hr, rfl⟩ := mem_modifyWhere.1 hrow
    have := hs.mediaId_lt r hr
    split
    · rw [hf]; exact this
    · exact this
  · refine hs.sha256.modifyWhere fun row _ _ hp => ?_
    rw [hsha] at hp
    exact ⟨hp, hsha row⟩

/-- An update of a row that is there, by what it does to the count and the state. -/
theorem Store.Counted.modifyMedia {owed : Nat → Int} (h : s.Counted owed) (hs : s.Valid) {id : Nat}
    {g : MediaObjectRow → Bool} {f : MediaObjectRow → MediaObjectRow} (hf : ∀ row, (f row).id = row.id)
    {row : MediaObjectRow} (hrow : s.findMedia id = some row) (hguard : g row = true) {d : Int}
    (hd : ((f row).refCount : Int) = row.refCount + d)
    (hlive : 0 < (f row).refCount → (f row).gcState ≠ .deletedFailed ∧ (f row).gcState ≠ .deleting) :
    (s.modifyMedia id g f).Counted (owe owed (some id) d) := by
  have hcases : ∀ r ∈ (s.modifyMedia id g f).mediaObjects, r = f row ∨ r ∈ s.mediaObjects ∧ r.id ≠ id := by
    intro r hr
    obtain ⟨r', hr', rfl⟩ := mem_modifyWhere.1 hr
    by_cases hid : r'.id = id
    · have he : r' = row := Option.some.inj ((hs.findMedia_iff.2 ⟨hr', hid⟩).symm.trans hrow)
      subst he
      simp [hid, hguard]
    · simp [hid, hr']
  have hrid : row.id = id := (Store.findMedia_mem hrow).2
  refine ⟨fun r hr => ?_, fun k hk => ?_, fun r hr => ?_⟩
  · show (r.refCount : Int) = s.actualRefCount r.id + owe owed (some id) d r.id
    rcases hcases r hr with rfl | ⟨hmem, hne⟩
    · rw [hf, hrid, hd, h.count row (Store.findMedia_mem hrow).1, hrid]
      simp only [owe, if_true]
      omega
    · have hne' : id ≠ r.id := Ne.symm hne
      rw [h.count r hmem]
      simp [owe, hne']
  · by_cases hkid : k = id
    · subst hkid
      rw [Store.findMedia_modifyMedia_self hf hrow hguard]
      rfl
    · rw [Store.findMedia_modifyMedia_ne hf hkid]
      refine h.named k ?_
      have hne : id ≠ k := Ne.symm hkid
      have hsame : owe owed (some id) d k = owed k := by simp [owe, hne]
      rw [← hsame]
      exact hk
  · rcases hcases r hr with rfl | ⟨hmem, -⟩
    · exact hlive
    · exact h.live r hmem

/-- An update of a media row within a transaction, that claims the row or does not. -/
theorem Midway.modifyMedia (h : Midway s₀ p s) {id : Nat} {g : MediaObjectRow → Bool}
    {f : MediaObjectRow → MediaObjectRow} (hf : ∀ row, (f row).id = row.id) (hsha : ∀ row, (f row).sha256 = row.sha256)
    {row : MediaObjectRow} (hrow : s.findMedia id = some row) (hguard : g row = true) {d : Int}
    (hd : ((f row).refCount : Int) = row.refCount + d)
    (hlive : 0 < (f row).refCount → (f row).gcState ≠ .deletedFailed ∧ (f row).gcState ≠ .deleting)
    (hsame : row.sameObject (f row)) (hfresh : id ∉ p.jobs.map Prod.fst) {new : List DeleteJob}
    (hnew : new = [] ∨ new = [(id, f row)])
    (hstep : ∀ r₀ : MediaObjectRow, r₀.sameObject row → r₀.StateStep False row → r₀.StateStep (new ≠ []) (f row)) :
    Midway s₀ { p with owed := owe p.owed (some id) d, jobs := p.jobs ++ new } (s.modifyMedia id g f) where
  valid := h.valid.modifyMedia hf hsha
  later := h.later
  memories := h.memories
  threads := h.threads
  bounds := h.bounds
  counted := h.counted.modifyMedia h.valid hf hrow hguard hd hlive
  media k := by
    have hk := h.media k
    by_cases hkid : k = id
    · subst hkid
      rw [hrow] at hk
      rw [Store.findMedia_modifyMedia_self hf hrow hguard]
      cases h₀ : s₀.findMedia k with
      | none => rw [h₀] at hk; exact hk
      | some r₀ =>
        rw [h₀] at hk
        obtain ⟨hobj, hst⟩ := hk
        refine ⟨?_, ?_⟩
        · unfold MediaObjectRow.sameObject at hobj hsame ⊢
          rw [hsame, hobj]
        · have hiff : k ∈ (p.jobs ++ new).map Prod.fst ↔ new ≠ [] := by
            rcases hnew with rfl | rfl
            · simpa using hfresh
            · simp
          rw [hiff]
          exact hstep r₀ hobj (by rwa [iff_false_intro hfresh] at hst)
    · rw [Store.findMedia_modifyMedia_ne hf hkid]
      have hiff : k ∈ (p.jobs ++ new).map Prod.fst ↔ k ∈ p.jobs.map Prod.fst := by
        rcases hnew with rfl | rfl
        · simp
        · simp [hkid]
      rw [hiff]
      exact hk
  jobs job hjob := by
    rcases List.mem_append.1 hjob with hjob | hjob
    · have hne : job.1 ≠ id := fun he => hfresh (List.mem_map.2 ⟨job, hjob, he⟩)
      rw [Store.findMedia_modifyMedia_ne hf hne]
      exact h.jobs job hjob
    · rcases hnew with rfl | rfl
      · simp at hjob
      · obtain rfl := List.mem_singleton.1 hjob
        exact Store.findMedia_modifyMedia_self hf hrow hguard
  once := by
    rcases hnew with rfl | rfl
    · simpa using h.once
    · rw [List.map_append, List.nodup_append]
      refine ⟨h.once, by simp, fun a ha b hb he => hfresh ?_⟩
      rw [List.map_cons, List.map_nil, List.mem_singleton] at hb
      have hbid : b = id := hb
      rw [← hbid, ← he]
      exact ha

/-- A claimed row is deleting, and nothing refers to it. -/
theorem Midway.claimed (h : Midway s₀ p s) {id : Nat} (hid : id ∈ p.jobs.map Prod.fst) {row : MediaObjectRow}
    (hrow : s.findMedia id = some row) : row.gcState = .deleting ∧ row.refCount = 0 := by
  have hk := h.media id
  rw [hrow] at hk
  cases h₀ : s₀.findMedia id with
  | none => rw [h₀] at hk; exact hk.elim
  | some r₀ =>
    rw [h₀] at hk
    exact (hk.2.1 hid).2

/-! ## Links -/

/-- A link that hits puts one to the account of the object. -/
theorem Midway.incrRef (h : Midway s₀ p s) (now : Int) (id : Nat) :
    Tx.wp (incrRef now id)
      (fun hit s' => hit = true → Midway s₀ { p with owed := owe p.owed (some id) 1 } s') (·.benign = true) s := by
  unfold MemoryStore.Conversation.incrRef
  rw [wp_modifyMedia]
  intro hhit
  obtain ⟨row, hrow, hguard⟩ := h.valid.any_media.1 hhit
  have hstate : row.gcState ≠ .deletedFailed ∧ row.gcState ≠ .deleting := by
    simpa [MediaObjectRow.inStates] using hguard
  have hfresh : id ∉ p.jobs.map Prod.fst := fun hid => hstate.2 (h.claimed hid hrow).1
  have hnext : ((row.incremented now).gcState = row.gcState) ∨
      row.gcState = .orphan ∧ row.storageUri.isSome ∧ (row.incremented now).gcState = .active := by
    unfold MediaObjectRow.incremented
    by_cases hc : (row.gcState = .orphan && row.storageUri.isSome) = true
    · right
      simp only [Bool.and_eq_true, decide_eq_true_eq] at hc
      exact ⟨hc.1, hc.2, by simp [hc.1, hc.2]⟩
    · left
      simp only [if_neg hc]
  have hm := h.modifyMedia (g := fun row => !row.inStates [.deletedFailed, .deleting]) (f := (·.incremented now))
    (d := 1) (fun _ => rfl) (fun _ => rfl) hrow hguard
    (by simp [MediaObjectRow.incremented]) ?_ rfl hfresh (.inl rfl) ?_
  · simpa using hm
  · intro _
    rcases hnext with he | ⟨-, -, he⟩
    · rw [he]; exact hstate
    · rw [he]; simp
  · intro r₀ hobj hst
    refine ⟨fun hc => absurd rfl hc, fun _ => ?_⟩
    have huri : row.storageUri = r₀.storageUri := by rw [hobj]
    rcases hst.2 not_false with he | ⟨h1, h2, h3⟩
    · rcases hnext with hn | ⟨h4, h5, h6⟩
      · exact .inl (hn.trans he)
      · exact .inr ⟨he ▸ h4, huri ▸ h5, h6⟩
    · rcases hnext with hn | ⟨h4, -, -⟩
      · exact .inr ⟨h1, h2, hn.trans h3⟩
      · rw [h3] at h4; simp at h4

theorem Midway.lockAndIncrRef (h : Midway s₀ p s) (now : Int) (id : Nat) :
    Tx.wp (lockAndIncrRef now id)
      (fun _ s' => Midway s₀ { p with owed := owe p.owed (some id) 1 } s') (·.benign = true) s := by
  unfold MemoryStore.Conversation.lockAndIncrRef
  simp only [Tx.wp_bind, Tx.wp_get, Tx.wp_ensure]
  refine ⟨fun _ => ?_, fun _ => rfl⟩
  exact (h.incrRef now id).imp fun hit s' hs' => ⟨hs', fun _ => rfl⟩

/-- The link of a new memory. -/
theorem Midway.linkMedia (h : Midway s₀ p s) (now : Int) (mediaId : Option Nat) :
    Tx.wp (linkMedia now mediaId)
      (fun _ s' => Midway s₀ { p with owed := owe p.owed mediaId 1 } s') (·.benign = true) s := by
  cases mediaId with
  | none =>
    simp only [MemoryStore.Conversation.linkMedia, Tx.wp_pure, owe_none]
    exact h
  | some id => exact h.lockAndIncrRef now id

/-! ## Unlinks -/

/-- The decrement of a count above 0, without the claim. -/
theorem Midway.decremented (h : Midway s₀ p s) (now : Int) {id : Nat} {row : MediaObjectRow}
    (hrow : s.findMedia id = some row) (hpos : 0 < row.refCount) :
    Midway s₀ { p with owed := owe p.owed (some id) (-1) }
      (s.modifyMedia id (fun row => 0 < row.refCount) (·.decremented now)) := by
  have hlive := h.counted.live row (Store.findMedia_mem hrow).1 hpos
  have hfresh : id ∉ p.jobs.map Prod.fst := fun hid => hlive.2 (h.claimed hid hrow).1
  have hm := h.modifyMedia (g := fun row => decide (0 < row.refCount)) (f := (·.decremented now)) (d := -1)
    (fun _ => rfl) (fun _ => rfl) hrow (decide_eq_true hpos) (by simp only [MediaObjectRow.decremented]; omega) (fun _ => hlive) rfl hfresh (.inl rfl)
    (fun r₀ _ hst => ⟨fun hc => absurd rfl hc, fun _ => hst.2 not_false⟩)
  simpa using hm

/-- **An unlink.** It takes one off the account of the object; at 0 the row may be
claimed, and then it is among the jobs as it was read back. The guards against
an underflow and against a vanished row are not met. -/
theorem Midway.decrAndMaybeClaim (h : Midway s₀ p s) (now : Int) {id : Nat}
    (hpos : 0 < (s.actualRefCount id : Int) + p.owed id) :
    Tx.wp (decrAndMaybeClaim now id)
      (fun job s' => Midway s₀ { p with owed := owe p.owed (some id) (-1), jobs := p.jobs ++ job.toList } s')
      (·.benign = true) s := by
  obtain ⟨row, hrow⟩ := Option.isSome_iff_exists.1 (h.counted.named id hpos)
  obtain ⟨hmem, hid⟩ := Store.findMedia_mem hrow
  have hcount : 0 < row.refCount := by
    have := h.counted.count row hmem
    rw [hid] at this
    omega
  have hdecr := h.decremented now hrow hcount
  have hrow' : (s.modifyMedia id (fun row => 0 < row.refCount) (·.decremented now)).findMedia id =
      some (row.decremented now) :=
    Store.findMedia_modifyMedia_self (g := fun row => decide (0 < row.refCount)) (f := (·.decremented now))
      (fun _ => rfl) hrow (decide_eq_true hcount)
  have hhit : (s.mediaObjects.any fun row => row.id = id && decide (0 < row.refCount)) = true :=
    h.valid.any_media.2 ⟨row, hrow, decide_eq_true hcount⟩
  unfold MemoryStore.Conversation.decrAndMaybeClaim decrRef
  simp only [Tx.wp_bind, wp_modifyMedia, Tx.wp_get, Tx.wp_pure, hhit, if_true, hrow']
  split
  · next hc =>
    have hfresh : id ∉ p.jobs.map Prod.fst := fun hj =>
      (h.counted.live row hmem hcount).2 (h.claimed hj hrow).1
    have hclaim := hdecr.modifyMedia (f := (·.setState now .deleting)) (d := 0)
      (g := fun row => row.unreferenced && row.inStates [.active, .orphan])
      (fun _ => rfl) (fun _ => rfl) hrow' hc
      (by simp [MediaObjectRow.setState]) ?_ rfl hfresh (.inr rfl) ?_
    · have hclaimed := (hdecr.valid.any_media
        (g := fun row => row.unreferenced && row.inStates [.active, .orphan])).2 ⟨_, hrow', hc⟩
      have hback := Store.findMedia_modifyMedia_self (f := (·.setState now .deleting))
        (g := fun row => row.unreferenced && row.inStates [.active, .orphan]) (fun _ => rfl) hrow' hc
      unfold claimDeleting
      simp only [Tx.wp_bind, wp_modifyMedia, Tx.wp_get, hclaimed, hback, Tx.wp_pure]
      have howe : owe (owe p.owed (some id) (-1)) (some id) 0 = owe p.owed (some id) (-1) := by
        funext k
        simp [owe]
      simpa only [howe, Option.toList_some] using hclaim
    · intro hp
      have : (row.decremented now).refCount = 0 := by
        simp only [MediaObjectRow.unreferenced, Bool.and_eq_true, decide_eq_true_eq] at hc
        exact hc.1
      simp only [MediaObjectRow.setState] at hp
      omega
    · intro r₀ _ hst
      refine ⟨fun _ => ?_, fun hn => absurd (by simp) hn⟩
      simp only [MediaObjectRow.unreferenced, MediaObjectRow.inStates, Bool.and_eq_true, decide_eq_true_eq,
        List.mem_cons, List.not_mem_nil, or_false] at hc
      refine ⟨?_, rfl, hc.1⟩
      rcases hst.2 not_false with he | ⟨he, -, -⟩
      · rw [← he]; exact hc.2
      · exact .inr he
  · simpa only [Tx.wp_pure, Option.toList_none, List.append_nil] using hdecr

/-- The unlink of a memory. -/
theorem Midway.unlinkMedia (h : Midway s₀ p s) (now : Int) {mediaId : Option Nat}
    (hpos : ∀ id, mediaId = some id → 0 < (s.actualRefCount id : Int) + p.owed id) :
    Tx.wp (unlinkMedia now mediaId)
      (fun job s' => Midway s₀ { p with owed := owe p.owed mediaId (-1), jobs := p.jobs ++ job.toList } s')
      (·.benign = true) s := by
  cases mediaId with
  | none =>
    simp only [MemoryStore.Conversation.unlinkMedia, Tx.wp_pure, owe_none, Option.toList_none, List.append_nil]
    exact h
  | some id => exact h.decrAndMaybeClaim now (hpos id rfl)

end MemoryStore.Conversation
