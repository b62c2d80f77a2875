/-
The writes to threads and to the junction, inside a transaction.
-/
import MemoryStore.Conversation.Midway

namespace MemoryStore.Conversation

open Table

variable {s s₀ : Store} {p : Pending}

/-! ## Junction rows -/

theorem Midway.attach (h : Midway s₀ p s) (now : Int) {threadId memoryId : Nat}
    (hthread : (s.findThread threadId).isSome) (hmemory : (s.findMemory memoryId).isSome) :
    Midway s₀ { p with bounds := insert threadId p.bounds } (s.attach now threadId memoryId) := by
  refine { h with valid := ?_, later := ?_, memories := ?_, threads := ?_, bounds := ?_, counted := ?_, media := ?_,
                  jobs := ?_ }
  · refine { memoryIds := ?_, memoryId_lt := ?_, threadIds := ?_, threadId_lt := ?_, mediaIds := ?_,
             mediaId_lt := ?_, sha256 := ?_, attachedMemory := ?_, attachedThread := ?_ }
    · simpa using h.valid.memoryIds
    · simpa using h.valid.memoryId_lt
    · simpa using h.valid.threadIds
    · simpa using h.valid.threadId_lt
    · simpa using h.valid.mediaIds
    · simpa using h.valid.mediaId_lt
    · simpa using h.valid.sha256
    · intro a ha
      rw [Store.findMemory_attach]
      rcases Store.mem_attach ha with ha | ⟨-, hm⟩
      · exact h.valid.attachedMemory a ha
      · rw [hm]; exact hmemory
    · intro a ha
      rw [Store.findThread_attach]
      rcases Store.mem_attach ha with ha | ⟨ht, -⟩
      · exact h.valid.attachedThread a ha
      · rw [ht]; exact hthread
  · simpa using h.later
  · simpa using h.memories
  · simpa using h.threads
  · intro row hrow hd
    rw [Set.mem_insert_iff, not_or] at hd
    rw [Store.attach_threads] at hrow
    have htimes : (s.attach now threadId memoryId).messageTimes row.id = s.messageTimes row.id :=
      Store.messageTimes_congr (Store.filter_attach hd.1) fun a _ _ => by simp [Store.sentAt]
    rw [Store.messageBounds_congr htimes]
    exact h.bounds row hrow hd.2
  · exact h.counted.memories (by simp) fun k => by simp [Store.actualRefCount]
  · simpa using h.media
  · simpa using h.jobs

theorem Midway.detach (h : Midway s₀ p s) (q : ThreadMemoryRow → Bool) :
    Midway s₀ { p with bounds := p.bounds ∪ {id | ∃ a ∈ s.threadMemories, q a = true ∧ a.threadId = id} }
      (s.detach q) := by
  refine { h with valid := ?_, bounds := ?_, counted := ?_ }
  · exact { h.valid with
      attachedMemory := fun a ha => h.valid.attachedMemory a (List.mem_filter.1 ha).1
      attachedThread := fun a ha => h.valid.attachedThread a (List.mem_filter.1 ha).1 }
  · intro row hrow hd
    rw [Set.mem_union, not_or] at hd
    have hfilter : (s.detach q).threadMemories.filter (fun a => a.threadId = row.id) =
        s.threadMemories.filter (fun a => a.threadId = row.id) := by
      simp only [Store.detach, List.filter_filter]
      refine List.filter_congr fun a ha => ?_
      by_cases hid : a.threadId = row.id
      · have hq : q a = false := by
          by_contra hc
          exact hd.2 ⟨a, ha, by simpa using hc, hid⟩
        simp [hid, hq]
      · simp [hid]
    have htimes : (s.detach q).messageTimes row.id = s.messageTimes row.id :=
      Store.messageTimes_congr hfilter fun a _ _ => rfl
    rw [Store.messageBounds_congr htimes]
    exact h.bounds row hrow hd.1
  · exact h.counted.memories rfl fun _ => rfl

/-! ## Thread rows -/

/-- Thread rows change, but neither ids, bounds nor who is there. -/
theorem Midway.modifyThreads (h : Midway s₀ p s) {q : ThreadRow → Bool} {f : ThreadRow → ThreadRow}
    (hid : ∀ row, q row = true → (f row).id = row.id)
    (hbounds : ∀ row, q row = true → (f row).messageBounds = row.messageBounds) :
    Midway s₀ { p with threads := p.threads ∪ {id | ∃ row ∈ s.threads, q row = true ∧ row.id = id} }
      (s.modifyThreads q f) := by
  refine { h with valid := ?_, threads := ?_, bounds := ?_, counted := ?_ }
  · refine { h.valid with threadIds := ?_, threadId_lt := ?_, attachedThread := ?_ }
    · rw [Store.threadIds_modifyThreads hid]
      exact h.valid.threadIds
    · intro row hrow
      obtain ⟨r, hr, rfl⟩ := mem_modifyWhere.1 hrow
      have := h.valid.threadId_lt r hr
      split
      · next hq => rw [hid r hq]; exact this
      · exact this
    · intro a ha
      rw [Store.findThread_isSome_modifyThreads hid]
      exact h.valid.attachedThread a ha
  · intro k hk hkt
    rw [Set.mem_union, not_or] at hkt
    rw [Store.findThread_modifyThreads_of_not hid]
    · exact h.threads k hk hkt.1
    · intro row hrow hrid
      by_contra hc
      exact hkt.2 ⟨row, hrow, by simpa using hc, hrid⟩
  · intro row hrow hd
    obtain ⟨r, hr, rfl⟩ := mem_modifyWhere.1 hrow
    have hrid : (if q r = true then f r else r).id = r.id := by
      split
      · next hq => exact hid r hq
      · rfl
    have hrb : (if q r = true then f r else r).messageBounds = r.messageBounds := by
      split
      · next hq => exact hbounds r hq
      · rfl
    rw [hrid] at hd
    rw [hrb, hrid]
    exact h.bounds r hr hd
  · exact h.counted.memories rfl fun _ => rfl

/-- Setting the bounds of a thread to what they are to be settles it. -/
theorem Midway.setMessageBounds (h : Midway s₀ p s) (now : Int) (id : Nat) :
    Midway s₀ { p with threads := insert id p.threads, bounds := p.bounds \ {id} }
      (s.setMessageBounds now id (s.messageBounds id)) := by
  have hid : ∀ row : ThreadRow, (row.id = id && row.messageBounds ≠ s.messageBounds id) = true →
      { row with firstMessageAt := (s.messageBounds id).1, lastMessageAt := (s.messageBounds id).2
                 updatedAt := now : ThreadRow }.id = row.id := fun _ _ => rfl
  refine { h with valid := ?_, threads := ?_, bounds := ?_, counted := ?_ }
  · refine { h.valid with threadIds := ?_, threadId_lt := ?_, attachedThread := ?_ }
    · unfold Store.setMessageBounds
      rw [Store.threadIds_modifyThreads hid]
      exact h.valid.threadIds
    · intro row hrow
      obtain ⟨r, hr, rfl⟩ := mem_modifyWhere.1 hrow
      have := h.valid.threadId_lt r hr
      split <;> exact this
    · intro a ha
      unfold Store.setMessageBounds
      rw [Store.findThread_isSome_modifyThreads hid]
      exact h.valid.attachedThread a ha
  · intro k hk hkt
    rw [Set.mem_insert_iff, not_or] at hkt
    unfold Store.setMessageBounds
    rw [Store.findThread_modifyThreads_of_not hid]
    · exact h.threads k hk hkt.2
    · intro row _ hrid
      simp [hrid, hkt.1]
  · intro row hrow hd
    have hsame : (s.setMessageBounds now id (s.messageBounds id)).messageBounds row.id = s.messageBounds row.id := rfl
    rw [hsame]
    obtain ⟨r, hr, rfl⟩ := mem_modifyWhere.1 hrow
    by_cases hrid : r.id = id
    · by_cases hb : r.messageBounds = s.messageBounds id
      · simp [hrid, hb]
      · rw [if_pos (by simp [hrid, hb])]
        show s.messageBounds id = s.messageBounds r.id
        rw [hrid]
    · simp only [hrid, decide_false, Bool.false_and, Bool.false_eq_true, if_false] at hd ⊢
      exact h.bounds r hr fun hp => hd ⟨hp, hrid⟩
  · exact h.counted.memories rfl fun _ => rfl

theorem Midway.insertThread (h : Midway s₀ p s) {row : ThreadRow} (hlt : row.id < s.nextId)
    (hold : s₀.nextId ≤ row.id) (hid : ∀ r ∈ s.threads, r.id ≠ row.id) (hnone : row.messageBounds = (none, none)) :
    Midway s₀ p (s.insertThread row) := by
  have hattached : ∀ a ∈ s.threadMemories, a.threadId ≠ row.id := by
    intro a ha he
    obtain ⟨r, hr, hrid⟩ := Store.findThread_isSome.1 (h.valid.attachedThread a ha)
    exact hid r hr (hrid.trans he)
  refine { h with valid := ?_, threads := ?_, bounds := ?_, counted := ?_ }
  · refine { h.valid with threadIds := ?_, threadId_lt := ?_, attachedThread := ?_ }
    · simp only [Store.insertThread, List.map_append, List.map_cons, List.map_nil, List.nodup_append]
      refine ⟨h.valid.threadIds, by simp, ?_⟩
      intro a ha b hb he
      obtain ⟨r, hr, rfl⟩ := List.mem_map.1 ha
      exact hid r hr (he.trans (List.mem_singleton.1 hb))
    · intro r hr
      rcases List.mem_append.1 hr with hr | hr
      · exact h.valid.threadId_lt r hr
      · obtain rfl := List.mem_singleton.1 hr
        exact hlt
    · intro a ha
      rw [Store.findThread_insertThread hid, if_neg (hattached a ha)]
      exact h.valid.attachedThread a ha
  · intro k hk hkt
    rw [Store.findThread_insertThread hid, if_neg (by omega)]
    exact h.threads k hk hkt
  · intro r hr hd
    have hsame : (s.insertThread row).messageBounds r.id = s.messageBounds r.id := rfl
    rw [hsame]
    rcases List.mem_append.1 hr with hr | hr
    · exact h.bounds r hr hd
    · obtain rfl := List.mem_singleton.1 hr
      have hempty : s.messageTimes r.id = [] := by
        have hf : s.threadMemories.filter (fun a => a.threadId = r.id) = [] := by
          rw [List.filter_eq_nil_iff]
          intro a ha
          simpa using hattached a ha
        rw [Store.messageTimes_eq, hf]
        rfl
      rw [hnone]
      simp [Store.messageBounds, hempty]
  · exact h.counted.memories rfl fun _ => rfl

theorem Midway.deleteThread (h : Midway s₀ p s) {id : Nat} (hnone : ∀ a ∈ s.threadMemories, a.threadId ≠ id) :
    Midway s₀ { p with threads := insert id p.threads, bounds := p.bounds \ {id} } (s.deleteThread id) := by
  refine { h with valid := ?_, threads := ?_, bounds := ?_, counted := ?_ }
  · refine { h.valid with threadIds := ?_, threadId_lt := ?_, attachedThread := ?_ }
    · exact h.valid.threadIds.sublist (List.filter_sublist.map _)
    · exact fun row hrow => h.valid.threadId_lt row (List.mem_filter.1 hrow).1
    · intro a ha
      rw [h.valid.findThread_deleteThread_ne (hnone a ha)]
      exact h.valid.attachedThread a ha
  · intro k hk hkt
    rw [Set.mem_insert_iff, not_or] at hkt
    rw [h.valid.findThread_deleteThread_ne hkt.1]
    exact h.threads k hk hkt.2
  · intro row hrow hd
    obtain ⟨hmem, hne⟩ := List.mem_filter.1 hrow
    exact h.bounds row hmem fun hp => hd ⟨hp, by simpa using hne⟩
  · exact h.counted.memories rfl fun _ => rfl

/-- Labels are no part of the account. -/
theorem Midway.setLabels (h : Midway s₀ p s) (labels : List ThreadLabelRow) :
    Midway s₀ p { s with threadLabels := labels } := by
  refine { h with valid := ?_, counted := ?_ }
  · exact { h.valid with }
  · exact h.counted.memories rfl fun _ => rfl

theorem Store.addLabel_eq (now : Int) (threadId : Nat) (label : String) :
    ∃ labels, s.addLabel now threadId label = { s with threadLabels := labels } := by
  unfold Store.addLabel
  split
  · exact ⟨s.threadLabels, rfl⟩
  · exact ⟨_, rfl⟩

theorem Midway.addLabel (h : Midway s₀ p s) (now : Int) (threadId : Nat) (label : String) :
    Midway s₀ p (s.addLabel now threadId label) := by
  obtain ⟨labels, he⟩ := Store.addLabel_eq (s := s) now threadId label
  rw [he]
  exact h.setLabels labels

end MemoryStore.Conversation
