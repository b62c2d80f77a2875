/-
The inside of a transaction. `Midway s₀ p s` says where a transaction that
began in `s₀` has got to: which rows it may have changed since, which threads
it still has to refresh the bounds of, by how much each reference count is off,
and which media rows it has claimed. Each write moves the account `p` by what it
does; a transaction is done when nothing is left to refresh and no count is off.
-/
import MemoryStore.Conversation.Lookup

namespace MemoryStore.Conversation

open Table

/-! ## Counts -/

/-- The account `owed`, with `d` more on the media object named, if one is. -/
def owe (owed : Nat → Int) (mediaId : Option Nat) (d : Int) : Nat → Int :=
  fun k => owed k + if mediaId = some k then d else 0

theorem owe_none (owed : Nat → Int) (d : Int) : owe owed none d = owed := by
  funext k
  simp [owe]

theorem owe_cancel (owed : Nat → Int) (mediaId : Option Nat) (d : Int) :
    owe (owe owed mediaId d) mediaId (-d) = owed := by
  funext k
  unfold owe
  split <;> omega

theorem owe_comm (owed : Nat → Int) (a b : Option Nat) (d e : Int) :
    owe (owe owed a d) b e = owe (owe owed b e) a d := by
  funext k
  unfold owe
  omega

/-- The reference counts are those of the memories, up to what is owed; what is
named is there; and what is referenced is neither deleted-failed nor deleting. -/
structure Store.Counted (s : Store) (owed : Nat → Int) : Prop where
  count : ∀ row ∈ s.mediaObjects, (row.refCount : Int) = s.actualRefCount row.id + owed row.id
  named : ∀ id, 0 < (s.actualRefCount id : Int) + owed id → (s.findMedia id).isSome
  live : ∀ row ∈ s.mediaObjects, 0 < row.refCount → row.gcState ≠ .deletedFailed ∧ row.gcState ≠ .deleting

variable {s s₀ : Store}

theorem Store.actualRefCount_insertMemory (id : Nat) (data : MemoryData) (k : Nat) :
    (s.insertMemory id data).actualRefCount k =
      s.actualRefCount k + if data.mediaObjectId = some k then 1 else 0 := by
  simp only [actualRefCount, insertMemory, List.countP_append, List.countP_singleton, decide_eq_true_eq]

theorem Store.actualRefCount_deleteMemories (q : MemoryRow → Bool) (k : Nat) :
    (s.deleteMemories q).actualRefCount k + s.memories.countP (fun row => q row && row.data.mediaObjectId = some k) =
      s.actualRefCount k := by
  simp only [actualRefCount, deleteMemories]
  generalize s.memories = rows
  induction rows with
  | nil => rfl
  | cons row rows ih =>
    cases hq : q row <;>
      simp only [List.filter_cons, hq, Bool.not_true, Bool.not_false, Bool.false_eq_true, if_true, if_false,
        List.countP_cons, Bool.true_and, Bool.false_and] <;> omega

/-- One row of many changes which media object it names. -/
theorem Store.Valid.actualRefCount_modifyMemory (hs : s.Valid) {row : MemoryRow} (hrow : row ∈ s.memories)
    (f : MemoryData → MemoryData) (k : Nat) :
    (s.modifyMemory row.id f).actualRefCount k + (if row.data.mediaObjectId = some k then 1 else 0) =
      s.actualRefCount k + if (f row.data).mediaObjectId = some k then 1 else 0 := by
  have hnd := hs.memoryIds
  simp only [actualRefCount, modifyMemory, modifyWhere]
  revert hrow hnd
  generalize s.memories = rows
  intro hrow hnd
  induction rows with
  | nil => simp at hrow
  | cons a rows ih =>
    rw [List.map_cons, List.nodup_cons] at hnd
    simp only [List.map_cons, List.countP_cons, decide_eq_true_eq]
    rcases List.mem_cons.1 hrow with rfl | hmem
    · have hrest : rows.map (fun b => if decide (b.id = row.id) then { b with data := f b.data } else b) = rows := by
        conv_rhs => rw [← List.map_id rows]
        refine List.map_congr_left fun b hb => ?_
        have hne : b.id ≠ row.id := fun he => hnd.1 (List.mem_map.2 ⟨b, hb, he⟩)
        simp [hne]
      simp only [decide_eq_true_eq] at hrest
      rw [hrest]
      simp only [if_true]
      omega
    · have hne : a.id ≠ row.id := fun he => hnd.1 (List.mem_map.2 ⟨row, hmem, he.symm⟩)
      have := ih hmem hnd.2
      simp only [decide_eq_true_eq] at this
      simp only [if_neg hne]
      omega

/-- Of the rows with one id there is one. -/
theorem Store.Valid.countP_id (hs : s.Valid) {row : MemoryRow} (hrow : row ∈ s.memories) (q : MemoryRow → Bool) :
    s.memories.countP (fun r => r.id = row.id && q r) = if q row then 1 else 0 := by
  have hnd := hs.memoryIds
  revert hrow hnd
  generalize s.memories = rows
  intro hrow hnd
  induction rows with
  | nil => simp at hrow
  | cons a rows ih =>
    rw [List.map_cons, List.nodup_cons] at hnd
    rw [List.countP_cons]
    rcases List.mem_cons.1 hrow with rfl | hmem
    · have hrest : rows.countP (fun r => r.id = row.id && q r) = 0 := by
        rw [List.countP_eq_zero]
        intro b hb hc
        simp only [Bool.and_eq_true, decide_eq_true_eq] at hc
        exact hnd.1 (List.mem_map.2 ⟨b, hb, hc.1⟩)
      rw [hrest]
      simp
    · have hne : a.id ≠ row.id := fun he => hnd.1 (List.mem_map.2 ⟨row, hmem, he.symm⟩)
      rw [ih hmem hnd.2]
      simp [hne]

theorem Store.actualRefCount_pos {row : MemoryRow} (hrow : row ∈ s.memories) {k : Nat}
    (hk : row.data.mediaObjectId = some k) : 0 < s.actualRefCount k := by
  rw [actualRefCount, List.countP_pos_iff]
  exact ⟨row, hrow, by simpa using hk⟩

/-- Memories change, media rows do not, and the difference is put to the account. -/
theorem Store.Counted.memories {s' : Store} {owed owed' : Nat → Int} (h : s.Counted owed)
    (hmedia : s'.mediaObjects = s.mediaObjects)
    (hsum : ∀ k, (s'.actualRefCount k : Int) + owed' k = s.actualRefCount k + owed k) : s'.Counted owed' := by
  have hfind : ∀ id, s'.findMedia id = s.findMedia id := fun id => by simp only [findMedia, hmedia]
  refine ⟨fun row hrow => ?_, fun id hid => ?_, fun row hrow => ?_⟩
  · rw [hmedia] at hrow
    rw [hsum]
    exact h.count row hrow
  · rw [hfind]
    exact h.named id (by rw [← hsum]; exact hid)
  · rw [hmedia] at hrow
    exact h.live row hrow

/-! ## What a transaction does to a media row -/

/-- The same object, whatever its count, state and update time. -/
def MediaObjectRow.sameObject (r₀ r : MediaObjectRow) : Prop :=
  r = { r₀ with refCount := r.refCount, gcState := r.gcState, updatedAt := r.updatedAt }

/-- A memory transaction links and unlinks: it may make a confirmed orphan
active, and it may claim an active or orphan row it has unlinked the last
memory of. It does nothing else to the states. -/
def MediaObjectRow.StateStep (claimed : Prop) (r₀ r : MediaObjectRow) : Prop :=
  (claimed → (r₀.gcState = .active ∨ r₀.gcState = .orphan) ∧ r.gcState = .deleting ∧ r.refCount = 0) ∧
    (¬claimed → r.gcState = r₀.gcState ∨ r₀.gcState = .orphan ∧ r₀.storageUri.isSome ∧ r.gcState = .active)

/-- What a memory transaction does to the row with some id: it is neither inserted nor deleted. -/
def MediaStep (claimed : Prop) : Option MediaObjectRow → Option MediaObjectRow → Prop
  | none, none => True
  | some r₀, some r => r₀.sameObject r ∧ r₀.StateStep claimed r
  | _, _ => False

theorem MediaStep.refl (m : Option MediaObjectRow) : MediaStep False m m := by
  cases m with
  | none => trivial
  | some r => exact ⟨rfl, fun h => h.elim, fun _ => .inl rfl⟩

/-! ## The account of a transaction -/

/-- What has been done since the beginning, and what is left to do. -/
structure Pending where
  /-- The memories and threads whose rows may have changed. -/
  memories : Set Nat
  threads : Set Nat
  /-- The threads whose bounds are to be refreshed. -/
  bounds : Set Nat
  /-- By how much each reference count exceeds the memories that name the object. -/
  owed : Nat → Int
  /-- The media rows claimed for deletion. -/
  jobs : List DeleteJob

/-- Nothing done yet. -/
def Pending.start : Pending := ⟨∅, ∅, ∅, fun _ => 0, []⟩

structure Midway (s₀ : Store) (p : Pending) (s : Store) : Prop where
  valid : s.Valid
  later : s₀.nextId ≤ s.nextId
  memories : ∀ id < s₀.nextId, id ∉ p.memories → s.findMemory id = s₀.findMemory id
  threads : ∀ id < s₀.nextId, id ∉ p.threads → s.findThread id = s₀.findThread id
  bounds : s.BoundsExcept p.bounds
  counted : s.Counted p.owed
  media : ∀ id, MediaStep (id ∈ p.jobs.map Prod.fst) (s₀.findMedia id) (s.findMedia id)
  jobs : ∀ job ∈ p.jobs, s.findMedia job.1 = some job.2
  once : (p.jobs.map Prod.fst).Nodup

/-- The state between two transactions: everything holds of it. -/
structure Store.Sound (s : Store) : Prop where
  valid : s.Valid
  bounds : s.BoundsExcept ∅
  counted : s.Counted fun _ => 0

theorem Store.sound_empty : Store.empty.Sound where
  valid := Store.valid_empty
  bounds := by simp [Store.BoundsExcept, Store.empty]
  counted := by constructor <;> simp [Store.empty, Store.actualRefCount]

theorem Midway.begin (h : s.Sound) : Midway s .start s where
  valid := h.valid
  later := Nat.le_refl _
  memories _ _ _ := rfl
  threads _ _ _ := rfl
  bounds := h.bounds
  counted := h.counted
  media id := by simpa [Pending.start] using MediaStep.refl _
  jobs job hjob := by simp [Pending.start] at hjob
  once := List.nodup_nil

variable {p : Pending}

/-- More may have changed than did, and more be left to refresh than is. -/
theorem Midway.mono (h : Midway s₀ p s) {p' : Pending} (hm : p.memories ⊆ p'.memories) (ht : p.threads ⊆ p'.threads)
    (hb : p.bounds ⊆ p'.bounds) (ho : p'.owed = p.owed) (hj : p'.jobs = p.jobs) : Midway s₀ p' s where
  valid := h.valid
  later := h.later
  memories id hid hn := h.memories id hid fun hp => hn (hm hp)
  threads id hid hn := h.threads id hid fun hp => hn (ht hp)
  bounds row hrow hn := h.bounds row hrow fun hp => hn (hb hp)
  counted := by rw [ho]; exact h.counted
  media id := by rw [hj]; exact h.media id
  jobs job hjob := h.jobs job (hj ▸ hjob)
  once := by rw [hj]; exact h.once

theorem Midway.bumpId (h : Midway s₀ p s) : Midway s₀ p { s with nextId := s.nextId + 1 } where
  valid := { h.valid with
    memoryId_lt := fun row hrow => Nat.lt_succ_of_lt (h.valid.memoryId_lt row hrow)
    threadId_lt := fun row hrow => Nat.lt_succ_of_lt (h.valid.threadId_lt row hrow)
    mediaId_lt := fun row hrow => Nat.lt_succ_of_lt (h.valid.mediaId_lt row hrow) }
  later := Nat.le_succ_of_le h.later
  memories := h.memories
  threads := h.threads
  bounds := h.bounds
  counted := ⟨h.counted.count, h.counted.named, h.counted.live⟩
  media := h.media
  jobs := h.jobs
  once := h.once

/-! ## Writes to memories -/

theorem Midway.insertMemory (h : Midway s₀ p s) {id : Nat} {d : MemoryData} (hlt : id < s.nextId)
    (hold : s₀.nextId ≤ id) (hid : ∀ row ∈ s.memories, row.id ≠ id) :
    Midway s₀ { p with owed := owe p.owed d.mediaObjectId (-1) } (s.insertMemory id d) := by
  have hfind : ∀ k, k ≠ id → (s.insertMemory id d).findMemory k = s.findMemory k := by
    intro k hk
    rw [Store.findMemory_insertMemory hid, if_neg hk]
  have hattached : ∀ a ∈ s.threadMemories, a.memoryId ≠ id := by
    intro a ha he
    obtain ⟨row, hrow, hrid⟩ := Store.findMemory_isSome.1 (h.valid.attachedMemory a ha)
    exact hid row hrow (hrid.trans he)
  refine { h with valid := ?_, memories := ?_, threads := h.threads, bounds := ?_, counted := ?_, media := h.media,
                  jobs := h.jobs }
  · refine { h.valid with memoryIds := ?_, memoryId_lt := ?_, attachedMemory := ?_ }
    · simp only [Store.insertMemory, List.map_append, List.map_cons, List.map_nil, List.nodup_append]
      refine ⟨h.valid.memoryIds, by simp, ?_⟩
      intro a ha b hb he
      obtain ⟨row, hrow, rfl⟩ := List.mem_map.1 ha
      exact hid row hrow (he.trans (List.mem_singleton.1 hb))
    · intro row hrow
      rcases List.mem_append.1 hrow with hrow | hrow
      · exact h.valid.memoryId_lt row hrow
      · obtain rfl := List.mem_singleton.1 hrow
        exact hlt
    · intro a ha
      rw [hfind _ (hattached a ha)]
      exact h.valid.attachedMemory a ha
  · intro k hk hkm
    rw [hfind k (by omega)]
    exact h.memories k hk hkm
  · intro row hrow hd
    have htimes : (s.insertMemory id d).messageTimes row.id = s.messageTimes row.id :=
      Store.messageTimes_congr rfl fun a ha _ => by
        unfold Store.sentAt
        rw [hfind _ (hattached a ha)]
    rw [Store.messageBounds_congr htimes]
    exact h.bounds row hrow hd
  · refine h.counted.memories rfl fun k => ?_
    show ((s.insertMemory id d).actualRefCount k : Int) + owe p.owed d.mediaObjectId (-1) k = _ + p.owed k
    rw [Store.actualRefCount_insertMemory]
    unfold owe
    split <;> push_cast <;> omega

theorem Midway.modifyMemory (h : Midway s₀ p s) {row : MemoryRow} (hrow : s.findMemory row.id = some row)
    {f : MemoryData → MemoryData} (hf : ∀ data, (f data).createdAt = data.createdAt) :
    Midway s₀
      { p with
          memories := insert row.id p.memories
          owed := owe (owe p.owed row.data.mediaObjectId 1) (f row.data).mediaObjectId (-1) }
      (s.modifyMemory row.id f) := by
  have hmem := (Store.findMemory_mem hrow).1
  refine { h with valid := ?_, memories := ?_, threads := h.threads, bounds := ?_, counted := ?_, media := h.media,
                  jobs := h.jobs }
  · refine { h.valid with memoryIds := ?_, memoryId_lt := ?_, attachedMemory := ?_ }
    · rw [Store.memoryIds_modifyMemory]
      exact h.valid.memoryIds
    · intro r hr
      obtain ⟨r', hr', rfl⟩ := mem_modifyWhere.1 hr
      have := h.valid.memoryId_lt r' hr'
      split <;> exact this
    · intro a ha
      rw [Store.findMemory_isSome_modifyMemory]
      exact h.valid.attachedMemory a ha
  · intro k hk hkm
    rw [Set.mem_insert_iff, not_or] at hkm
    rw [Store.findMemory_modifyMemory_ne f hkm.1]
    exact h.memories k hk hkm.2
  · intro r hr hd
    have htimes : (s.modifyMemory row.id f).messageTimes r.id = s.messageTimes r.id :=
      Store.messageTimes_congr rfl fun a _ _ => by
        simp only [Store.sentAt, Store.findMemory_modifyMemory, Option.map_map]
        cases s.findMemory a.memoryId with
        | none => rfl
        | some m =>
          simp only [Option.map_some, Function.comp_apply]
          split
          · rw [hf]
          · rfl
    rw [Store.messageBounds_congr htimes]
    exact h.bounds r hr hd
  · refine h.counted.memories rfl fun k => ?_
    have := h.valid.actualRefCount_modifyMemory hmem f k
    unfold owe
    split at this <;> split at this <;> simp_all <;> omega

/-- An update that leaves the media object and the creation time alone. -/
theorem Midway.modifyMemory_kept (h : Midway s₀ p s) {row : MemoryRow} (hrow : s.findMemory row.id = some row)
    {f : MemoryData → MemoryData} (hf : ∀ data, (f data).createdAt = data.createdAt)
    (hmedia : (f row.data).mediaObjectId = row.data.mediaObjectId) :
    Midway s₀ { p with memories := insert row.id p.memories } (s.modifyMemory row.id f) := by
  have hm := h.modifyMemory hrow hf
  rw [hmedia, owe_cancel] at hm
  exact hm

theorem Midway.deleteMemories (h : Midway s₀ p s) {q : MemoryRow → Bool}
    (hq : ∀ row ∈ s.memories, q row = true → s.unattached row.id = true) :
    Midway s₀
      { p with
          memories := p.memories ∪ {id | ∃ row ∈ s.memories, q row = true ∧ row.id = id}
          owed := fun k => p.owed k + s.memories.countP fun row => q row && row.data.mediaObjectId = some k }
      (s.deleteMemories q) := by
  have hkeep : ∀ row, s.findMemory row.id = some row → q row = false →
      (s.deleteMemories q).findMemory row.id = some row := by
    intro row hrow hqr
    rw [h.valid.findMemory_deleteMemories, hrow]
    simp [hqr]
  have hattached : ∀ a ∈ s.threadMemories, (s.deleteMemories q).findMemory a.memoryId = s.findMemory a.memoryId := by
    intro a ha
    obtain ⟨row, hrow⟩ := Option.isSome_iff_exists.1 (h.valid.attachedMemory a ha)
    obtain ⟨hmem, hid⟩ := Store.findMemory_mem hrow
    have hqr : q row = false := by
      by_contra hc
      exact Store.unattached_iff.1 (hq row hmem (by simpa using hc)) a ha hid.symm
    rw [← hid] at hrow ⊢
    rw [hrow]
    exact hkeep row hrow hqr
  refine { h with valid := ?_, memories := ?_, threads := h.threads, bounds := ?_, counted := ?_, media := h.media,
                  jobs := h.jobs }
  · refine { h.valid with memoryIds := ?_, memoryId_lt := ?_, attachedMemory := ?_ }
    · exact h.valid.memoryIds.sublist (List.filter_sublist.map _)
    · intro row hrow
      exact h.valid.memoryId_lt row (List.mem_filter.1 hrow).1
    · intro a ha
      rw [hattached a ha]
      exact h.valid.attachedMemory a ha
  · intro k hk hkm
    rw [Set.mem_union, not_or] at hkm
    rw [← h.memories k hk hkm.1]
    cases hfind : s.findMemory k with
    | none => rw [h.valid.findMemory_deleteMemories, hfind]; rfl
    | some row =>
      obtain ⟨hmem, rfl⟩ := Store.findMemory_mem hfind
      refine hkeep row hfind ?_
      by_contra hc
      exact hkm.2 ⟨row, hmem, by simpa using hc, rfl⟩
  · intro r hr hd
    have htimes : (s.deleteMemories q).messageTimes r.id = s.messageTimes r.id :=
      Store.messageTimes_congr rfl fun a ha _ => by
        unfold Store.sentAt
        rw [hattached a ha]
    rw [Store.messageBounds_congr htimes]
    exact h.bounds r hr hd
  · refine h.counted.memories rfl fun k => ?_
    have := Store.actualRefCount_deleteMemories (s := s) q k
    show ((s.deleteMemories q).actualRefCount k : Int) + _ = _
    push_cast [← this]
    omega

end MemoryStore.Conversation
