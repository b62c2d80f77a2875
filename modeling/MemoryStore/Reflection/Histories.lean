/-
The invariant behind the histories of reflections: whatever calls of finalize
and deletions are in flight, each reflection has one entry in the ledger, its
memory is found under the external id of its request, and it is attached to the
thread that the aggregate key of its user and labels names. What a call has
read stays true, since threads, labels and keys are only added.
-/
import MemoryStore.Lib.SortedSet
import MemoryStore.Reflection.Steps

namespace MemoryStore.Reflection

open Table
open Conversation (AppError)

/-! ## What calls have read -/

/-- The hash of the labels of a thread. -/
def Store.labelsHashOf (s : Store) (threadId : Nat) : String :=
  sha256JoinPipe (composeAggregateLabels (s.conversation.labelsByThread threadId))

/-- The user of a thread. -/
def Store.userOf (s : Store) (threadId : Nat) : Option Int :=
  (s.conversation.findThread threadId).map Conversation.ThreadRow.userId

/-- The thread an aggregate key names. -/
def Store.aggregateOf (s : Store) (userId : Int) (labelsHash : String) : Option Nat :=
  (s.findAggregateKey userId labelsHash).map AggregateKeyRow.threadId

/-- Threads, their labels and the aggregate keys are only added to. -/
structure Keeps (s s' : Store) : Prop where
  nextId : s.conversation.nextId ≤ s'.conversation.nextId
  user : ∀ t < s.conversation.nextId, s'.userOf t = s.userOf t
  labels : ∀ t < s.conversation.nextId, s'.conversation.labelsByThread t = s.conversation.labelsByThread t
  aggregate : ∀ u h t, s.aggregateOf u h = some t → s'.aggregateOf u h = some t

theorem Keeps.refl (s : Store) : Keeps s s := ⟨Nat.le_refl _, fun _ _ => rfl, fun _ _ => rfl, fun _ _ _ h => h⟩

theorem Keeps.labelsHashOf {s s' : Store} (h : Keeps s s') {t : Nat} (ht : t < s.conversation.nextId) :
    s'.labelsHashOf t = s.labelsHashOf t := by
  unfold Store.labelsHashOf
  rw [h.labels t ht]

/-- What phase 1 has read of the origin thread is so. -/
structure Reads (s : Store) (originThreadId : Nat) (p : PhaseOne) : Prop where
  drawn : originThreadId < s.conversation.nextId
  user : s.userOf originThreadId = some p.originUserId
  labels : p.originLabels = s.conversation.labelsByThread originThreadId

theorem Reads.keeps {s s' : Store} {t : Nat} {p : PhaseOne} (h : Reads s t p) (hk : Keeps s s') : Reads s' t p where
  drawn := Nat.lt_of_lt_of_le h.drawn hk.nextId
  user := (hk.user t h.drawn).trans h.user
  labels := h.labels.trans (hk.labels t h.drawn).symm

theorem Reads.labelsHash {s : Store} {t : Nat} {p : PhaseOne} (h : Reads s t p) : p.labelsHash = s.labelsHashOf t := by
  unfold PhaseOne.labelsHash PhaseOne.targetLabels Store.labelsHashOf
  rw [h.labels]

/-- What a call on a thread goes by at a stage is so. -/
def Stage.Informed (s : Store) (originThreadId : Nat) : Stage → Prop
  | read p | missed p => Reads s originThreadId p
  | lost p => Reads s originThreadId p ∧ (s.aggregateOf p.originUserId p.labelsHash).isSome = true
  | ready p aggregateThreadId _ =>
    Reads s originThreadId p ∧ s.aggregateOf p.originUserId p.labelsHash = some aggregateThreadId
  | _ => True

/-- What a call goes by is so. -/
def Call.Informed (s : Store) (call : Call) : Prop := call.stage.Informed s call.request.originThreadId

theorem Call.Informed.keeps {s s' : Store} {call : Call} (h : call.Informed s) (hk : Keeps s s') : call.Informed s' := by
  unfold Call.Informed at h ⊢
  cases hstage : call.stage with
  | validated => trivial
  | read p =>
    rw [hstage] at h
    exact Reads.keeps h hk
  | missed p =>
    rw [hstage] at h
    exact Reads.keeps h hk
  | lost p =>
    rw [hstage] at h
    obtain ⟨t, ht⟩ := Option.isSome_iff_exists.1 h.2
    exact ⟨h.1.keeps hk, Option.isSome_iff_exists.2 ⟨t, hk.aggregate _ _ _ ht⟩⟩
  | ready p agg n =>
    rw [hstage] at h
    exact ⟨h.1.keeps hk, hk.aggregate _ _ _ h.2⟩
  | refused => trivial
  | returned r => trivial

/-! ## The invariant -/

/-- The external id of an entry of the ledger. -/
def Inserted.externalId (e : Inserted) : String := externalIdFor e.originThreadId e.promptVersion e.reflectorId

/-- A reflection that is there. -/
def Store.Live (s : Store) (memoryId : Nat) : Prop := ∃ row ∈ s.index, row.memoryId = memoryId

/-- The rows of reflections. -/
structure Store.Kept (s : Store) : Prop where
  below : s.Below
  indexIds : (s.index.map IndexRow.memoryId).Nodup
  origin : ∀ row ∈ s.index, row.originThreadId < s.conversation.nextId
  user : ∀ row ∈ s.index, s.userOf row.originThreadId = some row.originUserId
  aggregate : ∀ row ∈ s.index, s.aggregateOf row.originUserId (s.labelsHashOf row.originThreadId) = some row.threadId
  attached : ∀ row ∈ s.index, Attached s.conversation row.threadId row.memoryId
  attachments : ∀ a ∈ s.conversation.threadMemories, a.threadId < s.conversation.nextId
  keyed : ∀ key ∈ s.aggregateKeys, (s.userOf key.threadId).isSome = true
  positions : ∀ key ∈ s.aggregateKeys, ∀ a ∈ s.conversation.threadMemories, ∀ b ∈ s.conversation.threadMemories,
    a.threadId = key.threadId → b.threadId = key.threadId → a.position = b.position → a = b

/-- The ledger, against the rows it records. -/
structure Recorded (s : Store) (inserted : List Inserted) : Prop where
  ids : (inserted.map Inserted.memoryId).Nodup
  drawn : ∀ e ∈ inserted, e.memoryId < s.conversation.nextId
  entry : ∀ row ∈ s.index, ∃ e ∈ inserted, e.memoryId = row.memoryId ∧ e.originThreadId = row.originThreadId ∧
    e.promptVersion = row.promptVersion
  found : ∀ e ∈ inserted, s.Live e.memoryId →
    (s.conversation.findByExternalId e.externalId).map Conversation.MemoryRow.id = some e.memoryId

structure System.Coherent (sys : System) : Prop where
  kept : sys.store.Kept
  recorded : Recorded sys.store sys.inserted
  informed : ∀ call ∈ sys.calls, call.Informed sys.store

/-- The thread an aggregate key names is that of a row. -/
theorem mem_of_aggregateOf {s : Store} {u : Int} {h : String} {t : Nat} (ha : s.aggregateOf u h = some t) :
    ∃ key ∈ s.aggregateKeys, key.threadId = t := by
  obtain ⟨key, hkey, ht⟩ := Option.map_eq_some_iff.1 ha
  exact ⟨key, List.mem_of_find?_eq_some hkey, ht⟩

/-- A thread with a user has been drawn. -/
theorem Store.Below.lt_of_userOf {s : Store} (hs : s.Below) {t : Nat} (h : (s.userOf t).isSome = true) :
    t < s.conversation.nextId := by
  unfold Store.userOf at h
  rw [Option.isSome_map] at h
  obtain ⟨row, hrow⟩ := Option.isSome_iff_exists.1 h
  have hid : row.id = t := by simpa using List.find?_some hrow
  exact hid ▸ hs.threads row (List.mem_of_find?_eq_some hrow)

theorem Store.Kept.key_lt {s : Store} (h : s.Kept) : ∀ key ∈ s.aggregateKeys, key.threadId < s.conversation.nextId :=
  fun key hkey => h.below.lt_of_userOf (h.keyed key hkey)

/-! ## What each write keeps -/

section Writes

variable {s : Store}

theorem userOf_eq {c c' : Conversation.Store} {t : Nat}
    (h : (c'.findThread t).map identity = (c.findThread t).map identity) :
    (c'.findThread t).map Conversation.ThreadRow.userId = (c.findThread t).map Conversation.ThreadRow.userId := by
  have hmap := congrArg (Option.map fun i : Nat × Int × Option String × Int => i.2.1) h
  simpa only [Option.map_map, Function.comp_def, identity] using hmap

theorem Keeps.reflected (hs : s.Below) (req : ValidRequest) (p : PhaseOne) (threadId : Nat) (calledAt now : Int) :
    Keeps s (s.reflected req p threadId calledAt now) := by
  have hc := withMemory_spec hs.attachments (req.memoryData p calledAt) threadId now
  refine ⟨hc.nextId ▸ Nat.le_succ _, fun t _ => userOf_eq (findThread_identity hc.threads t), fun t _ => ?_,
    fun _ _ _ h => h⟩
  unfold Conversation.Store.labelsByThread
  exact congrArg (fun rows => (List.filter _ rows).map _) hc.threadLabels

theorem labelsByThread_addLabel (c : Conversation.Store) (now : Int) {threadId t : Nat} (label : String)
    (ht : t ≠ threadId) : (c.addLabel now threadId label).labelsByThread t = c.labelsByThread t := by
  unfold Conversation.Store.addLabel
  split
  · rfl
  · unfold Conversation.Store.labelsByThread
    rw [List.filter_append, List.filter_cons_of_neg (by simpa using Ne.symm ht), List.filter_nil, List.append_nil]

theorem labelsByThread_withLabels (now : Int) {threadId t : Nat} (ht : t ≠ threadId) :
    ∀ (labels : List String) (c : Conversation.Store),
      (withLabels now threadId labels c).labelsByThread t = c.labelsByThread t
  | [], _ => rfl
  | label :: labels, c =>
    (labelsByThread_withLabels now ht labels _).trans (labelsByThread_addLabel c now label ht)

/-- The conversation tables with an aggregate thread, but for its labels. -/
theorem aggregated_conversation (s : Store) (p : PhaseOne) (now : Int) : ∃ labels,
    (s.aggregated p now).conversation = { s.conversation with
      nextId := s.conversation.nextId + 1
      threads := s.conversation.threads ++ [p.threadData.row now s.conversation.nextId]
      threadLabels := labels } :=
  withLabels_eq now s.conversation.nextId p.targetLabels
    (({ s.conversation with nextId := s.conversation.nextId + 1 } : Conversation.Store).insertThread
      (p.threadData.row now s.conversation.nextId))

theorem findThread_aggregated (p : PhaseOne) (now : Int) {t : Nat}
    (ht : t < s.conversation.nextId) :
    (s.aggregated p now).conversation.findThread t = s.conversation.findThread t := by
  obtain ⟨labels, hc⟩ := aggregated_conversation s p now
  rw [hc]
  unfold Conversation.Store.findThread
  rw [List.find?_append]
  have hne : ¬ s.conversation.nextId = t := by omega
  have hrow : (p.threadData.row now s.conversation.nextId).id = s.conversation.nextId := rfl
  simp [hrow, hne]

theorem Keeps.aggregated (p : PhaseOne) (now : Int) : Keeps s (s.aggregated p now) := by
  obtain ⟨labels, hc⟩ := aggregated_conversation s p now
  refine ⟨?_, fun t ht => ?_, fun t ht => ?_, fun u h t ht => ?_⟩
  · rw [hc]
    exact Nat.le_succ _
  · unfold Store.userOf
    rw [findThread_aggregated p now ht]
  · exact labelsByThread_withLabels now (Nat.ne_of_lt ht) _ _
  · obtain ⟨row, hrow, hid⟩ := Option.map_eq_some_iff.1 ht
    refine Option.map_eq_some_iff.2 ⟨row, ?_, hid⟩
    unfold Store.findAggregateKey Store.aggregated at *
    rw [List.find?_append, hrow]
    rfl

theorem Keeps.withoutReflection {memoryId : Nat} {c : Conversation.Store}
    (hc : WithoutMemory s.conversation memoryId c) : Keeps s (s.withoutReflection memoryId c) := by
  refine ⟨Nat.le_of_eq hc.nextId.symm, fun t _ => userOf_eq (findThread_identity hc.threads t), fun t _ => ?_,
    fun _ _ _ h => h⟩
  unfold Conversation.Store.labelsByThread
  exact congrArg (fun rows => (List.filter _ rows).map _) hc.threadLabels

/-! ### Rows -/

theorem lt_nextPosition {c : Conversation.Store} {a : Conversation.ThreadMemoryRow} (ha : a ∈ c.threadMemories) :
    a.position < c.nextPosition a.threadId := by
  unfold Conversation.Store.nextPosition
  have hmem : a.position + 1 ∈ (c.threadMemories.filter fun row => row.threadId = a.threadId).map
      fun row => row.position + 1 := List.mem_map.2 ⟨a, List.mem_filter.2 ⟨ha, by simp⟩, rfl⟩
  cases hmax : ((c.threadMemories.filter fun row => row.threadId = a.threadId).map fun row => row.position + 1).max? with
  | none =>
    rw [List.max?_eq_none_iff] at hmax
    rw [hmax] at hmem
    exact absurd hmem List.not_mem_nil
  | some m => exact (List.max?_eq_some_iff.1 hmax).2 _ hmem

theorem Store.Kept.reflected (h : s.Kept) {req : ValidRequest} {p : PhaseOne} {threadId : Nat} (calledAt now : Int)
    (hr : Reads s req.originThreadId p) (ha : s.aggregateOf p.originUserId p.labelsHash = some threadId) :
    (s.reflected req p threadId calledAt now).Kept := by
  have hc := withMemory_spec h.below.attachments (req.memoryData p calledAt) threadId now
  have hk := Keeps.reflected h.below req p threadId calledAt now
  have hindex : (s.reflected req p threadId calledAt now).index =
      s.index ++ [req.indexRow p threadId s.conversation.nextId now] := rfl
  have hattached : (s.reflected req p threadId calledAt now).conversation.threadMemories =
      s.conversation.threadMemories ++
        [⟨threadId, s.conversation.nextId, s.conversation.nextPosition threadId, now⟩] := hc.threadMemories
  have hforall : ∀ {P : IndexRow → Prop}, (∀ row ∈ s.index, P row) →
      P (req.indexRow p threadId s.conversation.nextId now) →
      ∀ row ∈ (s.reflected req p threadId calledAt now).index, P row := by
    intro P hold hnew row hrow
    rw [hindex] at hrow
    rcases List.mem_append.1 hrow with hrow | hrow
    · exact hold row hrow
    · rw [List.mem_singleton.1 hrow]
      exact hnew
  refine ⟨h.below.reflected req p threadId calledAt now, ?_, hforall ?_ ?_, hforall ?_ ?_, hforall ?_ ?_, hforall ?_ ?_,
    fun a ha => ?_, fun key hkey => ?_, fun key hkey => ?_⟩
  · rw [hindex, List.map_append, List.map_singleton, List.nodup_append]
    refine ⟨h.indexIds, by simp, fun a ha b hb he => ?_⟩
    obtain ⟨row, hrow, rfl⟩ := List.mem_map.1 ha
    have := h.below.index row hrow
    rw [he, List.mem_singleton.1 hb] at this
    exact absurd this (Nat.lt_irrefl _)
  · exact fun row hrow => Nat.lt_of_lt_of_le (h.origin row hrow) hk.nextId
  · exact Nat.lt_of_lt_of_le hr.drawn hk.nextId
  · exact fun row hrow => (hk.user _ (h.origin row hrow)).trans (h.user row hrow)
  · exact (hk.user _ hr.drawn).trans hr.user
  · intro row hrow
    rw [hk.labelsHashOf (h.origin row hrow)]
    exact hk.aggregate _ _ _ (h.aggregate row hrow)
  · have hhash : (s.reflected req p threadId calledAt now).labelsHashOf req.originThreadId = p.labelsHash := by
      rw [hk.labelsHashOf hr.drawn, hr.labelsHash]
    show (s.reflected req p threadId calledAt now).aggregateOf p.originUserId
      ((s.reflected req p threadId calledAt now).labelsHashOf req.originThreadId) = some threadId
    rw [hhash]
    exact hk.aggregate _ _ _ ha
  · intro row hrow
    obtain ⟨a, hmem, hids⟩ := h.attached row hrow
    exact ⟨a, hattached ▸ List.mem_append_left _ hmem, hids⟩
  · exact ⟨_, hattached ▸ List.mem_append_right _ (List.mem_singleton_self _), rfl, rfl⟩
  · rw [hattached] at ha
    rcases List.mem_append.1 ha with ha | ha
    · exact Nat.lt_of_lt_of_le (h.attachments a ha) hk.nextId
    · rw [List.mem_singleton.1 ha]
      obtain ⟨key, hkey, rfl⟩ := mem_of_aggregateOf ‹_›
      exact Nat.lt_of_lt_of_le (h.key_lt key hkey) hk.nextId
  · rw [hk.user _ (h.key_lt key hkey)]
    exact h.keyed key hkey
  · have hnew : ∀ a ∈ s.conversation.threadMemories, a.threadId = threadId →
        a.position ≠ s.conversation.nextPosition threadId := by
      rintro a hmem rfl
      exact Nat.ne_of_lt (lt_nextPosition hmem)
    rw [hattached]
    intro a ha b hb ht ht' hp
    rcases List.mem_append.1 ha with ha | ha <;> rcases List.mem_append.1 hb with hb | hb
    · exact h.positions key hkey a ha b hb ht ht' hp
    · rw [List.mem_singleton.1 hb] at ht' hp
      exact absurd hp (hnew a ha (ht.trans ht'.symm))
    · rw [List.mem_singleton.1 ha] at ht hp
      exact absurd hp.symm (hnew b hb (ht'.trans ht.symm))
    · rw [List.mem_singleton.1 ha, List.mem_singleton.1 hb]

theorem Store.Kept.aggregated (h : s.Kept) (p : PhaseOne) (now : Int) : (s.aggregated p now).Kept := by
  obtain ⟨labels, hc⟩ := aggregated_conversation s p now
  have hk := Keeps.aggregated (s := s) p now
  have hattached : (s.aggregated p now).conversation.threadMemories = s.conversation.threadMemories := by rw [hc]
  have hkeys : (s.aggregated p now).aggregateKeys =
      s.aggregateKeys ++ [⟨p.originUserId, p.labelsHash, s.conversation.nextId, now⟩] := rfl
  refine ⟨h.below.aggregated p now, h.indexIds, fun row hrow => ?_, fun row hrow => ?_, fun row hrow => ?_,
    fun row hrow => ?_, fun a ha => ?_, fun key hkey => ?_, fun key hkey => ?_⟩
  · exact Nat.lt_of_lt_of_le (h.origin row hrow) hk.nextId
  · exact (hk.user _ (h.origin row hrow)).trans (h.user row hrow)
  · rw [hk.labelsHashOf (h.origin row hrow)]
    exact hk.aggregate _ _ _ (h.aggregate row hrow)
  · unfold Attached
    rw [hattached]
    exact h.attached row hrow
  · rw [hattached] at ha
    exact Nat.lt_of_lt_of_le (h.attachments a ha) hk.nextId
  · rw [hkeys] at hkey
    rcases List.mem_append.1 hkey with hkey | hkey
    · rw [hk.user _ (h.key_lt key hkey)]
      exact h.keyed key hkey
    · rw [List.mem_singleton.1 hkey]
      unfold Store.userOf
      rw [Option.isSome_map, hc]
      exact List.find?_isSome.2
        ⟨p.threadData.row now s.conversation.nextId, List.mem_append_right _ (List.mem_singleton_self _),
          decide_eq_true rfl⟩
  · rw [hattached]
    rw [hkeys] at hkey
    rcases List.mem_append.1 hkey with hkey | hkey
    · exact h.positions key hkey
    · rw [List.mem_singleton.1 hkey]
      intro a ha _ _ ht
      exact absurd (h.attachments a ha) (by rw [ht]; exact Nat.lt_irrefl _)

theorem Store.Kept.withoutReflection (h : s.Kept) {memoryId : Nat} {c : Conversation.Store}
    (hc : WithoutMemory s.conversation memoryId c) : (s.withoutReflection memoryId c).Kept := by
  have hk := Keeps.withoutReflection hc
  have hindex : ∀ row ∈ (s.withoutReflection memoryId c).index, row ∈ s.index ∧ row.memoryId ≠ memoryId :=
    fun row hrow => ⟨(List.mem_filter.1 hrow).1, of_decide_eq_true (List.mem_filter.1 hrow).2⟩
  have hsub : ∀ a ∈ c.threadMemories, a ∈ s.conversation.threadMemories := fun a ha => by
    rw [hc.threadMemories] at ha
    exact (List.mem_filter.1 ha).1
  refine ⟨h.below.withoutReflection hc, h.indexIds.sublist (List.filter_sublist.map _), fun row hrow => ?_,
    fun row hrow => ?_, fun row hrow => ?_, fun row hrow => ?_, fun a ha => ?_, fun key hkey => ?_,
    fun key hkey a ha b hb => ?_⟩
  · exact Nat.lt_of_lt_of_le (h.origin row (hindex row hrow).1) hk.nextId
  · exact (hk.user _ (h.origin row (hindex row hrow).1)).trans (h.user row (hindex row hrow).1)
  · rw [hk.labelsHashOf (h.origin row (hindex row hrow).1)]
    exact hk.aggregate _ _ _ (h.aggregate row (hindex row hrow).1)
  · obtain ⟨a, ha, ht, hm⟩ := h.attached row (hindex row hrow).1
    have hkeep : a ∈ c.threadMemories := by
      rw [hc.threadMemories]
      exact List.mem_filter.2 ⟨ha, by simpa [hm] using (hindex row hrow).2⟩
    exact ⟨a, hkeep, ht, hm⟩
  · exact Nat.lt_of_lt_of_le (h.attachments a (hsub a ha)) hk.nextId
  · rw [hk.user _ (h.key_lt key hkey)]
    exact h.keyed key hkey
  · exact h.positions key hkey a (hsub a ha) b (hsub b hb)

/-! ### The ledger -/

theorem Recorded.reflected {inserted : List Inserted} (h : Recorded s inserted) (hs : s.Below) {req : ValidRequest}
    (hfree : s.externalIdFree req = true) (p : PhaseOne) (threadId : Nat) (calledAt now : Int) :
    Recorded (s.reflected req p threadId calledAt now) (inserted ++ [req.inserted s.conversation.nextId]) := by
  have hc := withMemory_spec hs.attachments (req.memoryData p calledAt) threadId now
  have hnext : (s.reflected req p threadId calledAt now).conversation.nextId = s.conversation.nextId + 1 := hc.nextId
  have hindex : (s.reflected req p threadId calledAt now).index =
      s.index ++ [req.indexRow p threadId s.conversation.nextId now] := rfl
  have hmemories : (s.reflected req p threadId calledAt now).conversation.memories = s.conversation.memories ++
      [⟨s.conversation.nextId, (req.memoryData p calledAt).inserted now⟩] := hc.memories
  have hlive : ∀ e ∈ inserted, (s.reflected req p threadId calledAt now).Live e.memoryId → s.Live e.memoryId := by
    rintro e he ⟨row, hrow, hid⟩
    rw [hindex] at hrow
    rcases List.mem_append.1 hrow with hrow | hrow
    · exact ⟨row, hrow, hid⟩
    · have := h.drawn e he
      rw [← hid, List.mem_singleton.1 hrow] at this
      exact absurd this (Nat.lt_irrefl _)
  refine ⟨?_, fun e he => ?_, fun row hrow => ?_, fun e he hl => ?_⟩
  · rw [List.map_append, List.map_singleton, List.nodup_append]
    refine ⟨h.ids, by simp, fun a ha b hb he => ?_⟩
    obtain ⟨e, hmem, rfl⟩ := List.mem_map.1 ha
    have := h.drawn e hmem
    rw [he, List.mem_singleton.1 hb] at this
    exact absurd this (Nat.lt_irrefl _)
  · rw [hnext]
    rcases List.mem_append.1 he with he | he
    · exact Nat.lt_succ_of_lt (h.drawn e he)
    · rw [List.mem_singleton.1 he]
      exact Nat.lt_succ_self _
  · rw [hindex] at hrow
    rcases List.mem_append.1 hrow with hrow | hrow
    · obtain ⟨e, he, hids⟩ := h.entry row hrow
      exact ⟨e, List.mem_append_left _ he, hids⟩
    · rw [List.mem_singleton.1 hrow]
      exact ⟨_, List.mem_append_right _ (List.mem_singleton_self _), rfl, rfl, rfl⟩
  · unfold Conversation.Store.findByExternalId
    rw [hmemories, List.find?_append]
    rcases List.mem_append.1 he with he | he
    · obtain ⟨row, hrow, hid⟩ := Option.map_eq_some_iff.1 (h.found e he (hlive e he hl))
      unfold Conversation.Store.findByExternalId at hrow
      rw [hrow]
      exact congrArg some hid
    · rw [List.mem_singleton.1 he]
      have hnone : s.conversation.memories.find? (fun row => row.data.externalId = some req.externalId) = none := by
        refine List.find?_eq_none.2 fun row hrow => ?_
        simpa using externalIdFree_iff.1 hfree row hrow
      show Option.map _ ((s.conversation.memories.find? fun row => row.data.externalId = some req.externalId).or _) = _
      rw [hnone, Option.none_or, List.find?_cons_of_pos]
      · rfl
      · exact decide_eq_true rfl

theorem Recorded.aggregated {inserted : List Inserted} (h : Recorded s inserted) (p : PhaseOne) (now : Int) :
    Recorded (s.aggregated p now) inserted := by
  obtain ⟨labels, hc⟩ := aggregated_conversation s p now
  refine ⟨h.ids, fun e he => ?_, h.entry, fun e he hl => ?_⟩
  · exact Nat.lt_of_lt_of_le (h.drawn e he) (Keeps.aggregated p now).nextId
  · have hmemories : (s.aggregated p now).conversation.memories = s.conversation.memories := by rw [hc]
    unfold Conversation.Store.findByExternalId
    rw [hmemories]
    exact h.found e he hl

/-- Looking up in fewer rows finds the same row, if it is still there. -/
theorem find?_filter_of_kept {α : Type} {p q : α → Bool} {a : α} (hq : q a = true) : ∀ {l : List α},
    l.find? p = some a → (l.filter q).find? p = some a
  | b :: l, h => by
    by_cases hb : p b = true
    · rw [List.find?_cons_of_pos hb] at h
      obtain rfl := Option.some.inj h
      rw [List.filter_cons_of_pos hq, List.find?_cons_of_pos hb]
    · rw [List.find?_cons_of_neg hb] at h
      have ih := find?_filter_of_kept hq h
      rw [List.filter_cons]
      split
      · rw [List.find?_cons_of_neg hb, ih]
      · exact ih

theorem Recorded.withoutReflection {inserted : List Inserted} (h : Recorded s inserted) {memoryId : Nat}
    {c : Conversation.Store} (hc : WithoutMemory s.conversation memoryId c) :
    Recorded (s.withoutReflection memoryId c) inserted := by
  have hindex : ∀ row ∈ (s.withoutReflection memoryId c).index, row ∈ s.index ∧ row.memoryId ≠ memoryId :=
    fun row hrow => ⟨(List.mem_filter.1 hrow).1, of_decide_eq_true (List.mem_filter.1 hrow).2⟩
  refine ⟨h.ids, fun e he => ?_, fun row hrow => h.entry row (hindex row hrow).1, fun e he hl => ?_⟩
  · exact Nat.lt_of_lt_of_eq (h.drawn e he) hc.nextId.symm
  · obtain ⟨row, hrow, hid⟩ := hl
    obtain ⟨hmem, hne⟩ := hindex row hrow
    obtain ⟨m, hm, hmid⟩ := Option.map_eq_some_iff.1 (h.found e he ⟨row, hmem, hid⟩)
    refine Option.map_eq_some_iff.2 ⟨m, ?_, hmid⟩
    show c.memories.find? _ = some m
    rw [hc.memories]
    unfold Conversation.Store.findByExternalId at hm
    have hkept : decide (m.id ≠ memoryId) = true := decide_eq_true (by rw [hmid, ← hid]; exact hne)
    exact find?_filter_of_kept (q := fun row => decide (row.id ≠ memoryId)) hkept hm

end Writes

/-! ## The steps -/

section Calls

variable {sys : System}

/-- A call at another stage, if what it goes by there is so. -/
theorem System.Coherent.setStage (h : sys.Coherent) (i : Nat) {call : Call}
    {stage : Stage} (hs : stage.Informed sys.store call.request.originThreadId) :
    System.Coherent { sys with calls := sys.calls.set i { call with stage } } := by
  refine ⟨h.kept, h.recorded, fun c hc => ?_⟩
  rcases List.mem_or_eq_of_mem_set hc with hc | rfl
  · exact h.informed c hc
  · exact hs

theorem Call.collide_informed {call : Call} {s : Store} (h : call.Informed s) :
    call.collide.Informed s call.request.originThreadId := by
  unfold Call.Informed at h
  unfold Call.collide
  split
  · next p t n hstage =>
    rw [hstage] at h
    split
    · exact h
    · trivial
  · exact h

/-- The statistics are no part of the invariant. -/
theorem System.Coherent.withStats (h : sys.Coherent) (tos : List (Counter ToolOutcomeKey))
    (tcs : List (Counter ToolContributionKey)) (os : List ToolOutcomeKey) (cs : List ToolContributionKey) :
    System.Coherent { sys with
      store := { sys.store with toolOutcomeStats := tos, toolContributionStats := tcs }
      droppedOutcomes := os
      droppedContributions := cs } where
  kept :=
    { below := ⟨h.kept.below.1, h.kept.below.2, h.kept.below.3, h.kept.below.4, h.kept.below.5, h.kept.below.6,
        h.kept.below.7, h.kept.below.8⟩
      indexIds := h.kept.indexIds
      origin := h.kept.origin
      user := h.kept.user
      aggregate := h.kept.aggregate
      attached := h.kept.attached
      attachments := h.kept.attachments
      keyed := h.kept.keyed
      positions := h.kept.positions }
  recorded := ⟨h.recorded.ids, h.recorded.drawn, h.recorded.entry, h.recorded.found⟩
  informed call hcall := (h.informed call hcall).keeps ⟨Nat.le_refl _, fun _ _ => rfl, fun _ _ => rfl, fun _ _ _ h => h⟩

end Calls

section Steps

variable [Settings] {sys : System}

/-- What a call reads is so. -/
theorem phaseOne_reads {req : ValidRequest} {now : Int} {s : Store} {p : PhaseOne} (hs : s.Below)
    (h : phaseOne req now s = .ok p) : Reads s req.originThreadId p := by
  unfold phaseOne at h
  split at h
  · cases h
  · next origin hfind =>
    obtain rfl := Except.ok.inj h
    refine ⟨?_, ?_, rfl⟩
    · have hid : origin.id = req.originThreadId := by simpa using List.find?_some hfind
      exact hid ▸ hs.threads origin (List.mem_of_find?_eq_some hfind)
    · unfold Store.userOf
      rw [hfind]
      rfl

/-- A new aggregate thread is found under its key. -/
theorem aggregateOf_aggregated {s : Store} (p : PhaseOne) (now : Int)
    (h : s.findAggregateKey p.originUserId p.labelsHash = none) :
    (s.aggregated p now).aggregateOf p.originUserId p.labelsHash = some s.conversation.nextId := by
  unfold Store.aggregateOf Store.findAggregateKey Store.aggregated at *
  rw [List.find?_append, h, Option.none_or, List.find?_cons_of_pos]
  · rfl
  · exact decide_eq_true rfl

/-- After its step, a call goes by what is so. -/
theorem Call.advance_informed (call : Call) (now : Int) {s : Store} (hs : s.Kept) (h : call.Informed s)
    {next : Store × Stage} (hnext : call.advance now s = next) :
    next.2.Informed next.1 call.request.originThreadId := by
  unfold Call.Informed at h
  unfold Call.advance at hnext
  cases hstage : call.stage with
  | validated =>
    simp only [hstage] at hnext
    split at hnext
    · next p hp =>
      subst hnext
      exact phaseOne_reads hs.below hp
    · subst hnext
      trivial
  | read p =>
    rw [hstage] at h
    simp only [hstage] at hnext
    split at hnext
    · next row hrow =>
      subst hnext
      exact ⟨h, congrArg (Option.map AggregateKeyRow.threadId) hrow⟩
    · subst hnext
      exact h
  | missed p =>
    rw [hstage] at h
    simp only [hstage, createAggregateThread_eq] at hnext
    by_cases hnone : s.findAggregateKey p.originUserId p.labelsHash = none
    · rw [hnone] at hnext
      subst hnext
      exact ⟨Reads.keeps h (Keeps.aggregated p call.calledAt), aggregateOf_aggregated p call.calledAt hnone⟩
    · rw [if_neg (by rwa [Option.isNone_iff_eq_none])] at hnext
      subst hnext
      exact ⟨h, by rwa [Store.aggregateOf, Option.isSome_map, Option.isSome_iff_ne_none]⟩
  | lost p =>
    rw [hstage] at h
    simp only [hstage] at hnext
    split at hnext
    · next row hrow =>
      subst hnext
      exact ⟨h.1, congrArg (Option.map AggregateKeyRow.threadId) hrow⟩
    · subst hnext
      trivial
  | ready p t n =>
    simp only [hstage] at hnext
    split at hnext <;> subst hnext <;> trivial
  | refused =>
    simp only [hstage] at hnext
    split at hnext <;> subst hnext <;> trivial
  | returned result =>
    simp only [hstage] at hnext
    subst hnext
    trivial

/-- What a step of a call leaves of threads, labels and keys. -/
theorem Advances.keeps {call : Call} {now : Int} {s : Store} (hs : s.Below) {next : Store × Stage}
    (h : Advances call now s next) : Keeps s next.1 := by
  cases h with
  | inserts p t n _ _ _ => exact .reflected hs _ p t _ now
  | aggregates p _ _ => exact .aggregated p _
  | waits stage _ => exact .refl s

theorem Advances.kept {call : Call} {now : Int} {s : Store} (hs : s.Kept) (hcall : call.Informed s)
    {next : Store × Stage} (h : Advances call now s next) : next.1.Kept := by
  cases h with
  | inserts p t n hstage _ _ =>
    unfold Call.Informed at hcall
    rw [hstage] at hcall
    exact hs.reflected _ now hcall.1 hcall.2
  | aggregates p _ _ => exact hs.aggregated p _
  | waits stage _ => exact hs

/-- The ledger after a step of a call. -/
theorem System.advance_recorded (h : sys.Coherent) (i : Nat) (call : Call) (now : Int) :
    Recorded (sys.advance i call now).store (sys.advance i call now).inserted := by
  have hadv := call.advance_spec now h.kept.below
  unfold System.advance
  generalize call.advance now sys.store = next at hadv ⊢
  cases hadv with
  | inserts p t n hstage _ hfree =>
    rw [hstage]
    exact h.recorded.reflected h.kept.below hfree p t call.calledAt now
  | aggregates p hstage _ =>
    rw [hstage]
    exact h.recorded.aggregated p call.calledAt
  | waits stage _ hstage =>
    dsimp only
    split
    · next hready => exact absurd rfl (hstage _ _ _ hready _)
    · exact h.recorded

/-- One call takes a step; the others go by what they went by. -/
theorem System.advance_coherent (h : sys.Coherent) {i : Nat} {call : Call} (hi : sys.calls[i]? = some call)
    (now : Int) : (sys.advance i call now).Coherent := by
  have hmem := List.mem_of_getElem? hi
  have hadv := call.advance_spec now h.kept.below
  refine ⟨hadv.kept h.kept (h.informed call hmem), sys.advance_recorded h i call now, fun c hc => ?_⟩
  rcases List.mem_or_eq_of_mem_set hc with hc | rfl
  · exact (h.informed c hc).keeps (hadv.keeps h.kept.below)
  · exact call.advance_informed now h.kept (h.informed call hmem) rfl

/-- A removal by the rest of the server. -/
def Action.removes : Action → Bool
  | .remove _ _ => true
  | _ => false

/-- **Every step of calls, deletions and rebuilds keeps the invariant.** -/
theorem Action.exec_coherent (h : sys.Coherent) (a : Action) (ha : a.removes = false) : (a.exec sys).Coherent := by
  cases a with
  | call req now =>
    simp only [Action.exec]
    split
    · refine ⟨h.kept, h.recorded, fun c hc => ?_⟩
      rcases List.mem_append.1 hc with hc | hc
      · exact h.informed c hc
      · rw [List.mem_singleton.1 hc]
        trivial
    · exact h
  | advance i now =>
    simp only [Action.exec]
    split
    · next call hi => exact sys.advance_coherent h hi now
    · exact h
  | collide i =>
    simp only [Action.exec]
    split
    · next call hi =>
      split
      · exact h.setStage i (Call.collide_informed (h.informed call (List.mem_of_getElem? hi)))
      · exact h
    · exact h
  | drop i =>
    simp only [Action.exec]
    split
    · next call hi => exact h.setStage i trivial
    · exact h
  | guardDelete memoryId =>
    simp only [Action.exec]
    split
    · exact ⟨h.kept, h.recorded, h.informed⟩
    · exact h
  | delete memoryId now =>
    simp only [Action.exec]
    split
    · rcases sys.delete_cases memoryId now with he | ⟨c, hc, he⟩
      · rw [he]
        exact h
      · rw [he]
        exact ⟨h.kept.withoutReflection hc, h.recorded.withoutReflection hc, fun call hcall =>
          (h.informed call hcall).keeps (.withoutReflection hc)⟩
    · exact h
  | rebuildToolOutcomeStats user => exact h.withStats _ _ _ _
  | rebuildToolContributionStats user => exact h.withStats _ _ _ _
  | remove removal now => cases ha

end Steps

end MemoryStore.Reflection
