/-
What finalize promises over any interleaving of its steps: one reflection per
request, answers that repeat, one aggregate thread per user and labels, and
whether the histories of reflections are single chains. They are, exactly as
long as no other reflection of the same thread is inserted between the reads of
a call and its main transaction.
-/
import MemoryStore.Lib.BackLinks
import MemoryStore.Reflection.Histories
import MemoryStore.Reflection.StatsMatch

namespace MemoryStore.Reflection

open Table
open Conversation (AppError)

/-! ## One reflection per request -/

/-- What makes two requests ask for the same reflection. -/
def ValidRequest.key (req : ValidRequest) : Nat × String × String :=
  (req.originThreadId, req.promptVersion, req.reflectorId)

def Inserted.key (e : Inserted) : Nat × String × String := (e.originThreadId, e.promptVersion, e.reflectorId)

/-- Each reflection was inserted for one request, and no two for requests that ask for the same. -/
structure System.Unique (sys : System) : Prop where
  ids : (sys.store.index.map IndexRow.memoryId).Nodup
  recorded : ∀ row ∈ sys.store.index, ∃ e ∈ sys.inserted, e.memoryId = row.memoryId ∧
    e.originThreadId = row.originThreadId ∧ e.promptVersion = row.promptVersion
  unique : ∀ e ∈ sys.inserted, ∀ e' ∈ sys.inserted, sys.store.Live e.memoryId → sys.store.Live e'.memoryId →
    e.key = e'.key → e = e'

theorem ValidRequest.externalId_of_key {req : ValidRequest} {e : Inserted} (h : req.key = e.key) :
    req.externalId = e.externalId := by
  obtain ⟨ht, hp, hr⟩ : req.originThreadId = e.originThreadId ∧ req.promptVersion = e.promptVersion ∧
      req.reflectorId = e.reflectorId := by simpa [ValidRequest.key, Inserted.key] using h
  unfold ValidRequest.externalId Inserted.externalId
  rw [ht, hp, hr]

theorem Inserted.externalId_of_key {e e' : Inserted} (h : e.key = e'.key) : e.externalId = e'.externalId := by
  obtain ⟨ht, hp, hr⟩ : e.originThreadId = e'.originThreadId ∧ e.promptVersion = e'.promptVersion ∧
      e.reflectorId = e'.reflectorId := by simpa [Inserted.key] using h
  unfold Inserted.externalId
  rw [ht, hp, hr]

section Unique

variable {s : Store} {inserted : List Inserted}

theorem Recorded.entry_unique (h : Recorded s inserted) {e e' : Inserted} (he : e ∈ inserted) (he' : e' ∈ inserted)
    (hid : e.memoryId = e'.memoryId) : e = e' := List.inj_on_of_nodup_map h.ids he he' hid

/-- The row of an entry is of the thread the entry names. -/
theorem Recorded.row_of_live (h : Recorded s inserted) {e : Inserted} (he : e ∈ inserted) (hl : s.Live e.memoryId) :
    ∃ row ∈ s.index, row.memoryId = e.memoryId ∧ row.originThreadId = e.originThreadId := by
  obtain ⟨row, hrow, hid⟩ := hl
  obtain ⟨e', he', hid', ht, -⟩ := h.entry row hrow
  obtain rfl := h.entry_unique he' he (hid'.trans hid)
  exact ⟨row, hrow, hid, ht.symm⟩

theorem System.Coherent.unique {sys : System} (h : sys.Coherent) : sys.Unique where
  ids := h.kept.indexIds
  recorded := h.recorded.entry
  unique e he e' he' hl hl' hkey := by
    have hf := h.recorded.found e he hl
    have hf' := h.recorded.found e' he' hl'
    rw [Inserted.externalId_of_key hkey, hf'] at hf
    exact h.recorded.entry_unique he he' (Option.some.inj hf).symm

end Unique

/-! ## Repeated calls -/

/-- How many steps of its own a call has left at most. -/
def Stage.left : Stage → Nat
  | validated => 6
  | read _ => 5
  | missed _ => 4
  | lost _ => 3
  | ready _ _ _ => 2
  | refused => 1
  | returned _ => 0

/-- A call for a reflection that is there changes no row, comes closer to its
end with each step, and returns the id of that reflection. -/
def System.Idempotent [Settings] (sys : System) : Prop :=
  ∀ i call e now, sys.calls[i]? = some call → e ∈ sys.inserted → sys.store.Live e.memoryId →
    call.request.key = e.key → 0 < call.stage.left →
      ∃ stage, Action.exec (.advance i now) sys = { sys with calls := sys.calls.set i { call with stage } } ∧
        stage.left < call.stage.left ∧ ∀ result, stage = .returned result → result = .ok e.memoryId

section Idempotent

variable [Settings] {s : Store}

/-- What is there of a reflection, for a call that asks for it again. -/
structure Answered (s : Store) (req : ValidRequest) (memoryId : Nat) : Prop where
  found : (s.conversation.findByExternalId req.externalId).map Conversation.MemoryRow.id = some memoryId
  thread : (s.conversation.findThread req.originThreadId).isSome = true
  aggregate : ∀ p, Reads s req.originThreadId p → (s.findAggregateKey p.originUserId p.labelsHash).isSome = true
  aggregateThread : ∀ (p : PhaseOne) (t : Nat), s.aggregateOf p.originUserId p.labelsHash = some t →
    (s.conversation.findThread t).isSome = true

theorem Store.Kept.answered (hs : s.Kept) {inserted : List Inserted} (hr : Recorded s inserted) {req : ValidRequest}
    {e : Inserted} (he : e ∈ inserted) (hl : s.Live e.memoryId) (hkey : req.key = e.key) :
    Answered s req e.memoryId := by
  have ht : req.originThreadId = e.originThreadId := congrArg Prod.fst hkey
  obtain ⟨row, hrow, -, horigin⟩ := hr.row_of_live he hl
  have huser := hs.user row hrow
  rw [horigin, ← ht] at huser
  refine ⟨?_, ?_, fun p hp => ?_, fun p t hp => ?_⟩
  · rw [ValidRequest.externalId_of_key hkey]
    exact hr.found e he hl
  · obtain ⟨thread, hthread, -⟩ := Option.map_eq_some_iff.1 huser
    exact Option.isSome_iff_exists.2 ⟨thread, hthread⟩
  · have hagg := hs.aggregate row hrow
    obtain hu : p.originUserId = row.originUserId := Option.some.inj (hp.user.symm.trans huser)
    rw [← hu, horigin, ← ht, ← hp.labelsHash] at hagg
    obtain ⟨key, hfind, -⟩ := Option.map_eq_some_iff.1 hagg
    exact Option.isSome_iff_exists.2 ⟨key, hfind⟩
  · obtain ⟨key, hmem, rfl⟩ := mem_of_aggregateOf hp
    have := hs.keyed key hmem
    rwa [Store.userOf, Option.isSome_map] at this

/-- The next step of such a call. -/
theorem Call.advance_answered {call : Call} (now : Int) (hs : s.Kept) (hcall : call.Informed s) {memoryId : Nat}
    (h : Answered s call.request memoryId) (hleft : 0 < call.stage.left) :
    ∃ stage, call.advance now s = (s, stage) ∧ stage.left < call.stage.left ∧
      (∀ result, stage = .returned result → result = .ok memoryId) ∧
      ∀ p t n, call.stage = .ready p t n → stage = .refused := by
  unfold Call.Informed at hcall
  unfold Call.advance
  cases hstage : call.stage with
  | validated =>
    obtain ⟨thread, hthread⟩ := Option.isSome_iff_exists.1 h.thread
    dsimp only
    rw [show phaseOne call.request call.calledAt s = .ok _ by unfold phaseOne; rw [hthread]]
    exact ⟨_, rfl, by simp [Stage.left], by simp, by simp⟩
  | read p =>
    rw [hstage] at hcall
    obtain ⟨row, hrow⟩ := Option.isSome_iff_exists.1 (h.aggregate p hcall)
    dsimp only
    rw [hrow]
    exact ⟨_, rfl, by simp [Stage.left], by simp, by simp⟩
  | missed p =>
    rw [hstage] at hcall
    obtain ⟨row, hrow⟩ := Option.isSome_iff_exists.1 (h.aggregate p hcall)
    dsimp only
    rw [createAggregateThread_eq, hrow]
    exact ⟨_, rfl, by simp [Stage.left], by simp, by simp⟩
  | lost p =>
    rw [hstage] at hcall
    obtain ⟨row, hrow⟩ := Option.isSome_iff_exists.1 (h.aggregate p hcall.1)
    dsimp only
    rw [hrow]
    exact ⟨_, rfl, by simp [Stage.left], by simp, by simp⟩
  | ready p t n =>
    rw [hstage] at hcall
    obtain ⟨row, hrow, -⟩ := Option.map_eq_some_iff.1 h.found
    have hfree : s.externalIdFree call.request = false := by
      unfold Store.externalIdFree
      rw [hrow]
      rfl
    dsimp only
    rw [runPhase3_eq hs.below, h.aggregateThread p t hcall.2, Bool.or_true, if_neg (by decide), hfree,
      if_neg Bool.false_ne_true]
    exact ⟨_, rfl, by simp [Stage.left], by simp, by simp⟩
  | refused =>
    obtain ⟨row, hrow, hid⟩ := Option.map_eq_some_iff.1 h.found
    dsimp only
    rw [hrow]
    exact ⟨_, rfl, by simp [Stage.left], by simp [hid], by simp⟩
  | returned result =>
    rw [hstage] at hleft
    exact absurd hleft (Nat.lt_irrefl _)

theorem System.Coherent.idempotent {sys : System} (h : sys.Coherent) : sys.Idempotent := by
  intro i call e now hi he hl hkey hleft
  obtain ⟨stage, hadv, hlt, hresult, hready⟩ := call.advance_answered now h.kept
    (h.informed call (List.mem_of_getElem? hi)) (h.kept.answered h.recorded he hl hkey) hleft
  refine ⟨stage, ?_, hlt, hresult⟩
  simp only [Action.exec, hi]
  unfold System.advance
  rw [hadv]
  dsimp only
  split
  · next hstage => exact absurd (hready _ _ _ hstage) (by simp)
  · rfl

theorem set_same {α : Type} {l : List α} {i : Nat} {a : α} (h : l[i]? = some a) : l.set i a = l := by
  refine List.ext_getElem? fun j => ?_
  rw [List.getElem?_set]
  split
  · next hij =>
    subst hij
    split
    · exact h.symm
    · next hlt => exact (List.getElem?_eq_none (Nat.le_of_not_lt hlt)).symm
  · rfl

/-- A call that has returned takes no further step. -/
theorem run_returned {sys : System} {i : Nat} {call : Call} (hi : sys.calls[i]? = some call)
    {result : Except AppError Nat} (h : call.stage = .returned result) :
    ∀ times : List Int, sys.after (times.map (.advance i)) = sys
  | [] => rfl
  | now :: times => by
    have hexec : (Action.advance i now).exec sys = sys := by
      simp only [Action.exec, hi]
      unfold System.advance Call.advance
      rw [h]
      dsimp only
      rw [← h, set_same hi]
    show ((Action.advance i now).exec sys).after _ = _
    rw [hexec]
    exact run_returned hi h times

/-- A call for a reflection that is there, left to itself, returns the id of that reflection and changes no row. -/
def System.Answers [Settings] (sys : System) : Prop :=
  ∀ i call e (times : List Int), sys.calls[i]? = some call → e ∈ sys.inserted → sys.store.Live e.memoryId →
    call.request.key = e.key → 0 < call.stage.left → 6 ≤ times.length →
      sys.after (times.map (.advance i)) =
        { sys with calls := sys.calls.set i { call with stage := .returned (.ok e.memoryId) } }

theorem System.Coherent.run_answers {i : Nat} {e : Inserted} : ∀ {times : List Int} {sys : System} {call : Call},
    sys.Coherent → sys.calls[i]? = some call → e ∈ sys.inserted → sys.store.Live e.memoryId →
      call.request.key = e.key → (∀ result, call.stage = .returned result → result = .ok e.memoryId) →
      call.stage.left ≤ times.length → sys.after (times.map (.advance i)) =
        { sys with calls := sys.calls.set i { call with stage := .returned (.ok e.memoryId) } }
  | times, sys, call, h, hi, he, hl, hkey, hresult, hleft => by
    by_cases hdone : 0 < call.stage.left
    · match times with
      | [] => exact absurd hdone (Nat.not_lt.2 hleft)
      | now :: times =>
        obtain ⟨stage, hexec, hlt, hstage⟩ := h.idempotent i call e now hi he hl hkey hdone
        have hnext := Action.exec_coherent h (.advance i now) rfl
        rw [hexec] at hnext
        have hi' : (sys.calls.set i { call with stage })[i]? = some { call with stage } := by
          rw [List.getElem?_set_self (List.getElem?_eq_some_iff.1 hi).1]
        have hlen : stage.left ≤ times.length := Nat.le_of_lt_succ (Nat.lt_of_lt_of_le hlt hleft)
        have ih := hnext.run_answers hi' he hl hkey hstage hlen
        show ((Action.advance i now).exec sys).after _ = _
        rw [hexec, ih]
        dsimp only
        rw [List.set_set]
    · have hreturned : call.stage = .returned (.ok e.memoryId) := by
        cases hstage : call.stage with
        | returned result => rw [hresult result hstage]
        | _ =>
          rw [hstage] at hdone
          exact absurd (by simp [Stage.left]) hdone
      have hsame : ({ call with stage := .returned (.ok e.memoryId) } : Call) = call := by rw [← hreturned]
      rw [hsame, set_same hi]
      exact run_returned hi hreturned times

end Idempotent

/-! ## Aggregate threads -/

/-- The reflections of a user under the same labels are in one thread, each at a position of its own. -/
structure System.Collected (sys : System) : Prop where
  together : ∀ a ∈ sys.store.index, ∀ b ∈ sys.store.index, a.originUserId = b.originUserId →
    (∀ label, label ∈ sys.store.conversation.labelsByThread a.originThreadId ↔
      label ∈ sys.store.conversation.labelsByThread b.originThreadId) → a.threadId = b.threadId
  attached : ∀ row ∈ sys.store.index, Attached sys.store.conversation row.threadId row.memoryId
  apart : ∀ row ∈ sys.store.index, ∀ a ∈ sys.store.conversation.threadMemories,
    ∀ b ∈ sys.store.conversation.threadMemories, a.threadId = row.threadId → b.threadId = row.threadId →
      a.position = b.position → a = b

/-- The labels of an aggregate thread depend on the set of labels alone. -/
theorem composeAggregateLabels_congr {l l' : List String} (h : ∀ label, label ∈ l ↔ label ∈ l') :
    composeAggregateLabels l = composeAggregateLabels l' := by
  refine SortedSet.ofList_eq_iff.2 fun label => ?_
  by_cases hr : reflectionLabel ∈ l
  · rw [if_pos hr, if_pos ((h _).1 hr), h]
  · rw [if_neg hr, if_neg fun hr' => hr ((h _).2 hr'), List.mem_append, List.mem_append, h]

theorem System.Coherent.collected {sys : System} (h : sys.Coherent) : sys.Collected where
  together a ha b hb huser hlabels := by
    have hhash : sys.store.labelsHashOf a.originThreadId = sys.store.labelsHashOf b.originThreadId := by
      unfold Store.labelsHashOf
      rw [composeAggregateLabels_congr hlabels]
    have hagg := h.kept.aggregate a ha
    rw [huser, hhash, h.kept.aggregate b hb] at hagg
    exact (Option.some.inj hagg).symm
  attached := h.kept.attached
  apart row hrow := by
    obtain ⟨key, hkey, ht⟩ := mem_of_aggregateOf (h.kept.aggregate row hrow)
    exact ht ▸ h.kept.positions key hkey

/-! ## Single chains -/

/-- The reflections met from one on, following `previous_reflection_id`. -/
def Store.chainFrom (s : Store) (memoryId : Nat) : List Nat :=
  BackLinks.follow IndexRow.memoryId IndexRow.previousReflectionId s.index s.index.length memoryId

/-- The history of a thread is one chain: each reflection names the one right
before it, and from the active one all of them are visited, each once. -/
structure Store.SingleChain (s : Store) (originThreadId : Nat) : Prop where
  linked : BackLinks.Linked IndexRow.memoryId IndexRow.previousReflectionId (s.listHistoryByThreadId originThreadId)
  visits : ∀ active ∈ s.findActiveByThreadId originThreadId,
    s.chainFrom active.memoryId = (s.listHistoryByThreadId originThreadId).map IndexRow.memoryId
  once : ((s.listHistoryByThreadId originThreadId).map IndexRow.memoryId).Nodup

theorem listHistory_perm (s : Store) (originThreadId : Nat) : (s.listHistoryByThreadId originThreadId).Perm
    (s.index.filter fun row => row.originThreadId = originThreadId) := List.perm_insertionSort _ _

/-- With unique ids, the links are all there is to a single chain. -/
theorem Store.singleChain_of_linked {s : Store} (hids : (s.index.map IndexRow.memoryId).Nodup) {originThreadId : Nat}
    (h : BackLinks.Linked IndexRow.memoryId IndexRow.previousReflectionId (s.listHistoryByThreadId originThreadId)) :
    s.SingleChain originThreadId := by
  have hperm := listHistory_perm s originThreadId
  refine ⟨h, fun active hactive => ?_, ?_⟩
  · obtain ⟨rest, hrest⟩ := List.head?_eq_some_iff.1 hactive
    have hmem : ∀ row ∈ active :: rest, row ∈ s.index := fun row hrow =>
      (List.mem_filter.1 (hperm.mem_iff.1 (hrest ▸ hrow))).1
    have hlen : rest.length < s.index.length := by
      have := hperm.length_eq.le.trans (List.length_filter_le _ _)
      rw [hrest] at this
      exact this
    rw [hrest] at h ⊢
    exact h.follow_eq hids hmem hlen
  · exact (hperm.map IndexRow.memoryId).nodup_iff.2 (hids.sublist (List.filter_sublist.map _))

/-- The reflection a call that is ready has read as the previous one. -/
def Call.previousReflectionId (call : Call) : Option Nat :=
  match call.stage with
  | .ready p _ _ => p.previousReflectionId
  | _ => none

/-- While nothing is deleted, the histories are linked. -/
def System.Linked (sys : System) : Prop :=
  sys.deleted = [] → ∀ originThreadId,
    BackLinks.Linked IndexRow.memoryId IndexRow.previousReflectionId (sys.store.listHistoryByThreadId originThreadId)

theorem System.Linked.congr {sys sys' : System} (h : sys.Linked) (hd : sys'.deleted = sys.deleted)
    (hindex : sys'.store.index = sys.store.index) : sys'.Linked := by
  unfold System.Linked Store.listHistoryByThreadId
  rw [hd, hindex]
  exact h

section Chains

variable [Settings] {sys : System}

/-- Only finalize, deletions and rebuilds, and no reflection is dated before one that is there. -/
def System.Timely (sys : System) : Action → Prop
  | .advance i now => ∀ call ∈ sys.inserting (.advance i now), ∀ row ∈ sys.store.index, row.createdAt ≤ now
  | .remove _ _ => False
  | _ => True

instance System.decidableTimely (sys : System) : ∀ a : Action, Decidable (sys.Timely a)
  | .advance i now => inferInstanceAs (Decidable (∀ call ∈ sys.inserting (.advance i now), _))
  | .remove _ _ => isFalse id
  | .call _ _ | .collide _ | .drop _ | .guardDelete _ | .delete _ _ | .rebuildToolOutcomeStats _
  | .rebuildToolContributionStats _ => isTrue trivial

/-- While nothing is deleted, a reflection is inserted only if what its call has
read as the previous one is still the active one of the thread. -/
def System.Undisturbed (sys : System) (a : Action) : Prop :=
  sys.deleted = [] → ∀ call ∈ sys.inserting a,
    call.previousReflectionId = (sys.store.findActiveByThreadId call.request.originThreadId).map IndexRow.memoryId

instance System.decidableUndisturbed (sys : System) (a : Action) : Decidable (sys.Undisturbed a) :=
  inferInstanceAs (Decidable (_ → ∀ call ∈ sys.inserting a, _))

theorem System.Timely.removes {a : Action} (h : sys.Timely a) : a.removes = false := by
  cases a with
  | remove removal now => exact absurd h id
  | _ => rfl

/-- A reflection dated after all others comes first in the history of its thread; other histories stay. -/
theorem listHistory_reflected {s : Store} (hs : s.Below) {req : ValidRequest} {p : PhaseOne} {threadId : Nat}
    {calledAt now : Int} (hnow : ∀ row ∈ s.index, row.createdAt ≤ now) (originThreadId : Nat) :
    (s.reflected req p threadId calledAt now).listHistoryByThreadId originThreadId =
      if req.originThreadId = originThreadId then
        req.indexRow p threadId s.conversation.nextId now :: s.listHistoryByThreadId originThreadId
      else s.listHistoryByThreadId originThreadId := by
  show ((s.index ++ [req.indexRow p threadId s.conversation.nextId now]).filter _).insertionSort _ = _
  rw [List.filter_append]
  split
  · next ho =>
    rw [List.filter_cons_of_pos (by exact decide_eq_true ho), List.filter_nil]
    refine BackLinks.insertionSort_append_newest IndexRow.notBefore fun row hrow => ?_
    have hmem := (List.mem_filter.1 hrow).1
    have hdate : row.createdAt ≤ (req.indexRow p threadId s.conversation.nextId now).createdAt := hnow row hmem
    have hid : row.memoryId < (req.indexRow p threadId s.conversation.nextId now).memoryId := hs.index row hmem
    unfold IndexRow.notBefore
    omega
  · next ho =>
    rw [List.filter_cons_of_neg (by exact fun he => ho (of_decide_eq_true he)), List.filter_nil, List.append_nil]
    rfl

/-- **An insertion keeps the histories linked** exactly if the call has read the active reflection of its thread. -/
theorem System.linked_reflected_iff {s : Store} (hs : s.Below) {req : ValidRequest} {p : PhaseOne} {threadId : Nat}
    {calledAt now : Int} (hnow : ∀ row ∈ s.index, row.createdAt ≤ now)
    (h : ∀ o, BackLinks.Linked IndexRow.memoryId IndexRow.previousReflectionId (s.listHistoryByThreadId o)) :
    (∀ o, BackLinks.Linked IndexRow.memoryId IndexRow.previousReflectionId
      ((s.reflected req p threadId calledAt now).listHistoryByThreadId o)) ↔
      p.previousReflectionId = (s.findActiveByThreadId req.originThreadId).map IndexRow.memoryId := by
  constructor
  · intro h'
    have ho := h' req.originThreadId
    rw [listHistory_reflected hs hnow, if_pos rfl] at ho
    exact ho.1
  · intro hp o
    rw [listHistory_reflected hs hnow]
    split
    · next ho =>
      subst ho
      exact ⟨hp, h req.originThreadId⟩
    · exact h o

theorem System.advance_linked_iff (hs : sys.store.Below) (h : sys.Linked) {i : Nat} {call : Call} {now : Int}
    (hi : sys.calls[i]? = some call) (ht : sys.Timely (.advance i now)) :
    (sys.advance i call now).Linked ↔ sys.Undisturbed (.advance i now) := by
  have hinserting : sys.inserting (.advance i now) = (some call).filter fun call => call.inserts sys.store := by
    rw [System.inserting, hi]
  unfold System.Undisturbed
  have hnow : ∀ c ∈ sys.inserting (.advance i now), ∀ row ∈ sys.store.index, row.createdAt ≤ now := ht
  rw [hinserting] at hnow ⊢
  have hadv := call.advance_spec now hs
  unfold System.advance
  generalize call.advance now sys.store = next at hadv ⊢
  cases hadv with
  | inserts p t n hstage hfound hfree =>
    have hins := (call.inserts_iff hstage).2 ⟨hfound, hfree⟩
    rw [Option.filter_some, if_pos hins] at hnow ⊢
    have hprevious : call.previousReflectionId = p.previousReflectionId := by
      unfold Call.previousReflectionId
      rw [hstage]
    refine imp_congr_right fun hd => (System.linked_reflected_iff hs (hnow call rfl) (h hd)).trans ?_
    rw [← hprevious]
    exact ⟨fun he c hc => Option.some.inj hc ▸ he, fun hc => hc call rfl⟩
  | aggregates p hstage _ =>
    have hins : call.inserts sys.store = false := by
      unfold Call.inserts
      rw [hstage]
    rw [Option.filter_some, if_neg (by simp [hins])]
    exact iff_of_true (h.congr rfl rfl) fun _ _ hc => by cases hc
  | waits stage hins _ =>
    rw [Option.filter_some, if_neg (by simp [hins])]
    exact iff_of_true (h.congr rfl rfl) fun _ _ hc => by cases hc

/-- **A step keeps the histories linked** exactly if it is undisturbed. -/
theorem Action.exec_linked_iff (hs : sys.store.Below) (h : sys.Linked) (a : Action) (ht : sys.Timely a) :
    (a.exec sys).Linked ↔ sys.Undisturbed a := by
  have hother : sys.inserting a = none → (a.exec sys).Linked → ((a.exec sys).Linked ↔ sys.Undisturbed a) :=
    fun hnone hl => iff_of_true hl fun _ call hc => by
      rw [hnone] at hc
      cases hc
  cases a with
  | advance i now =>
    simp only [Action.exec]
    split
    · next call hi => exact sys.advance_linked_iff hs h hi ht
    · next hi =>
      refine iff_of_true h fun _ call hc => ?_
      rw [System.inserting, hi] at hc
      cases hc
  | call req now =>
    refine hother rfl ?_
    simp only [Action.exec]
    split <;> exact h.congr rfl rfl
  | collide i =>
    refine hother rfl ?_
    simp only [Action.exec]
    split
    · split <;> exact h.congr rfl rfl
    · exact h
  | drop i =>
    refine hother rfl ?_
    simp only [Action.exec]
    split <;> exact h.congr rfl rfl
  | guardDelete memoryId =>
    refine hother rfl ?_
    simp only [Action.exec]
    split <;> exact h.congr rfl rfl
  | delete memoryId now =>
    refine hother rfl ?_
    simp only [Action.exec]
    split
    · rcases sys.delete_cases memoryId now with he | ⟨c, -, he⟩
      · rw [he]
        exact h
      · rw [he]
        exact fun hd => absurd hd (List.append_ne_nil_of_right_ne_nil _ (List.cons_ne_nil _ _))
    · exact h
  | rebuildToolOutcomeStats user => exact hother rfl (h.congr rfl rfl)
  | rebuildToolContributionStats user => exact hother rfl (h.congr rfl rfl)
  | remove removal now => exact absurd ht id

/-- The invariant holds of a deployment without reflections. -/
theorem System.coherent_start {c : Conversation.Store} (hc : c.Valid) : (System.start (.fresh c)).Coherent where
  kept :=
    { below := Store.below_fresh hc
      indexIds := List.nodup_nil
      origin := fun _ h => absurd h List.not_mem_nil
      user := fun _ h => absurd h List.not_mem_nil
      aggregate := fun _ h => absurd h List.not_mem_nil
      attached := fun _ h => absurd h List.not_mem_nil
      attachments := fun a ha => by
        obtain ⟨row, hrow⟩ := Option.isSome_iff_exists.1 (hc.attachedThread a ha)
        have hid : row.id = a.threadId := by simpa using List.find?_some hrow
        exact hid ▸ hc.threadId_lt row (List.mem_of_find?_eq_some hrow)
      keyed := fun _ h => absurd h List.not_mem_nil
      positions := fun _ h => absurd h List.not_mem_nil }
  recorded := ⟨List.nodup_nil, fun _ h => absurd h List.not_mem_nil, fun _ h => absurd h List.not_mem_nil,
    fun _ h => absurd h List.not_mem_nil⟩
  informed _ h := absurd h List.not_mem_nil

/-- What holds all along any run of finalize calls and deletions. -/
structure System.Answerable (sys : System) : Prop where
  unique : sys.Unique
  idempotent : sys.Idempotent
  answers : sys.Answers
  collected : sys.Collected

theorem System.Coherent.answerable (h : sys.Coherent) : sys.Answerable where
  unique := h.unique
  idempotent := h.idempotent
  answers i call e times hi he hl hkey hleft htimes := by
    refine h.run_answers hi he hl hkey (fun result hr => ?_) (Nat.le_trans ?_ htimes)
    · rw [hr] at hleft
      exact absurd hleft (Nat.lt_irrefl 0)
    · cases call.stage <;> simp [Stage.left]
  collected := h.collected

/-- **Finalize answers for each request once, and histories are single chains
exactly while no call is overtaken.** Over any interleaving of calls, deletions
and rebuilds with commit times that never decrease: there is at most one
reflection per request, a call for one that is there returns its id and changes
no row, and the reflections of a user under the same labels share a thread. As
long as nothing is deleted, all histories are single chains, if and only if at
each insertion what the call has read as the previous reflection is still the
active one. -/
theorem histories_single_chains_iff {c : Conversation.Store} (hc : c.Valid) (actions : List Action)
    (ht : Run.Allowed Action.exec System.Timely actions (System.start (.fresh c))) :
    (∀ n, ((System.start (.fresh c)).after (actions.take n)).Answerable) ∧
    ((∀ n, ((System.start (.fresh c)).after (actions.take n)).deleted = [] → ∀ originThreadId,
        ((System.start (.fresh c)).after (actions.take n)).store.SingleChain originThreadId) ↔
      Run.Allowed Action.exec System.Undisturbed actions (System.start (.fresh c))) := by
  have hcoherent : ∀ n, ((System.start (.fresh c)).after (actions.take n)).Coherent :=
    ht.invariant (fun sys a h ha => a.exec_coherent h ha.removes) (System.coherent_start hc)
  have hlinked : (∀ n, ((System.start (.fresh c)).after (actions.take n)).Linked) ↔
      Run.Allowed Action.exec System.Undisturbed actions (System.start (.fresh c)) :=
    Run.throughout_iff_assuming (J := fun sys => sys.store.Below) (fun _ a hs _ => a.exec_below hs)
      (fun _ a hs ht h => a.exec_linked_iff hs h ht) actions ht (Store.below_fresh hc) fun _ _ => trivial
  refine ⟨fun n => (hcoherent n).answerable, ?_⟩
  rw [← hlinked]
  refine forall_congr' fun n => imp_congr_right fun hd => forall_congr' fun o => ⟨fun h => h.linked, fun h => ?_⟩
  exact Store.singleChain_of_linked (hcoherent n).kept.indexIds h

end Chains

section Scenarios

open Scenario

/-- Three reflections of one thread, one after the other, a repeated call, and a deletion. -/
def oneAfterAnother : List Action :=
  finalize 0 (request "a" []) 10 ++ finalize 1 (request "b" []) 20 ++ finalize 2 (request "a" []) 30 ++
    finalize 3 (request "c" []) 40 ++ [.guardDelete 4, .delete 4 50]

/-- Two calls that read the history of their thread before either has inserted its reflection. -/
def overtaken : List Action :=
  [.call (request "a" []) 10, .call (request "b" []) 10, .advance 0 10, .advance 1 10] ++
    List.replicate 3 (.advance 0 20) ++ List.replicate 3 (.advance 1 30)

theorem oneAfterAnother_single : oneThread.Valid ∧
    (∀ n, ((@System.after sqlite (System.start (.fresh oneThread)) (oneAfterAnother.take n)).deleted = [] → ∀ o,
      (@System.after sqlite (System.start (.fresh oneThread)) (oneAfterAnother.take n)).store.SingleChain o)) ∧
    (@System.after sqlite (System.start (.fresh oneThread)) (oneAfterAnother.take 24)).store.chainFrom 5 = [5, 4, 3] :=
  ⟨oneThread_valid,
    (@histories_single_chains_iff sqlite _ oneThread_valid oneAfterAnother (by decide +kernel)).2.2 (by decide +kernel),
    by decide +kernel⟩

/-- The second call keeps the previous reflection it read, none, though the first has inserted one since. -/
theorem overtaken_forks : oneThread.Valid ∧
    @Run.Allowed _ _ (@Action.exec sqlite) (@System.Timely sqlite) overtaken (System.start (.fresh oneThread)) ∧
    (@System.after sqlite (System.start (.fresh oneThread)) overtaken).deleted = [] ∧
    ((@System.after sqlite (System.start (.fresh oneThread)) overtaken).store.listHistoryByThreadId 1).map
      (fun row => (row.memoryId, row.previousReflectionId)) = [(4, none), (3, none)] ∧
    ¬ (@System.after sqlite (System.start (.fresh oneThread)) overtaken).store.SingleChain 1 := by
  refine ⟨oneThread_valid, by decide +kernel, by decide +kernel, by decide +kernel, fun h => ?_⟩
  have hvisits := h.visits
  have hnot : ¬ ∀ active ∈ (@System.after sqlite (System.start (.fresh oneThread)) overtaken).store.findActiveByThreadId 1,
      (@System.after sqlite (System.start (.fresh oneThread)) overtaken).store.chainFrom active.memoryId =
        ((@System.after sqlite (System.start (.fresh oneThread)) overtaken).store.listHistoryByThreadId 1).map
          IndexRow.memoryId := by decide +kernel
  exact hnot hvisits

end Scenarios

end MemoryStore.Reflection
