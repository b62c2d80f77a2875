/-
One event for each transition. An adoption and a conflict retraction of the
reconciler each owe the outbox an event of their own, that says which parent was
adopted or which relation was retracted. The event id is made of the kind of
event and the subject alone, so a subject's second adoption, and its second
conflict, find their id taken and leave no event; and the event of a tie does
not say which relation it retracted.
-/
import MemoryStore.ThreadGroup.Events
import MemoryStore.ThreadGroup.OperatorRelations
import MemoryStore.ThreadGroup.Replay

namespace MemoryStore.ThreadGroup

open Tx Table

/-! ## Transitions -/

/-- What an automatic step did to the relations. -/
inductive Transition where
  | adopted (row : RelationRow)
  | retracted (row : RelationRow)
  deriving DecidableEq, Repr

/-- The transitions between two stores: relations that are new, and relations that were active and are retracted. -/
def Store.transitions (s s' : Store) : List Transition :=
  (s'.relations.filter fun r => !s.relations.any (·.id = r.id)).map .adopted ++
    (s.relations.filter fun r =>
      r.isActive && s'.relations.any fun r' => r'.id = r.id && r'.state = .retracted).map .retracted

section Transitions

variable {s s' : Store}

theorem transitions_same (hids : RelationIds s) (hr : s'.relations = s.relations) : s.transitions s' = [] := by
  have hnew : s.relations.filter (fun r => !s.relations.any (·.id = r.id)) = [] := by
    refine List.filter_eq_nil_iff.2 fun r hmem => ?_
    simpa using ⟨r, hmem, rfl⟩
  have hgone : s.relations.filter (fun r =>
      r.isActive && s.relations.any fun r' => r'.id = r.id && r'.state = .retracted) = [] := by
    refine List.filter_eq_nil_iff.2 fun r hmem => ?_
    simp only [RelationRow.isActive, Bool.and_eq_true, decide_eq_true_eq, List.any_eq_true, not_and, not_exists]
    rintro hact r' hmem' hid hret
    obtain rfl := hids.unique.eq hmem' rfl hmem rfl hid
    simp [hact] at hret
  rw [Store.transitions, hr, hnew, hgone]
  rfl

theorem transitions_retracted (hids : RelationIds s) {existing : RelationRow} (hmem : existing ∈ s.relations)
    (hact : existing.isActive = true) (hr : s'.relations = (s.endRelation existing.id .retracted).relations) :
    s.transitions s' = [.retracted existing] := by
  have hmem' : ∀ {r'}, r' ∈ s'.relations ↔ ∃ r ∈ s.relations,
      (if r.id = existing.id && r.isActive then { r with state := .retracted } else r) = r' := by
    rw [hr]
    exact mem_modifyWhere
  have hnew : s'.relations.filter (fun r => !s.relations.any (·.id = r.id)) = [] := by
    refine List.filter_eq_nil_iff.2 fun r' hr' => ?_
    obtain ⟨r, hr, rfl⟩ := hmem'.1 hr'
    simp only [Bool.not_eq_true', Bool.not_eq_false, List.any_eq_true, decide_eq_true_eq]
    exact ⟨r, hr, by split <;> rfl⟩
  have hnd : (s.relations.map RelationRow.id).Nodup := by simpa [UniqueWhere] using hids.unique
  have hgone : s.relations.filter (fun r =>
      r.isActive && s'.relations.any fun r' => r'.id = r.id && r'.state = .retracted) = [existing] := by
    rw [← filter_key_of_nodup hnd hmem]
    refine List.filter_congr fun r hold => ?_
    rw [Bool.eq_iff_iff, Bool.and_eq_true, List.any_eq_true, decide_eq_true_eq]
    constructor
    · rintro ⟨ha, r', hr', hret⟩
      simp only [Bool.and_eq_true, decide_eq_true_eq] at hret
      obtain ⟨r₀, hr₀, rfl⟩ := hmem'.1 hr'
      by_cases hid : r₀.id = existing.id
      · have : (if r₀.id = existing.id && r₀.isActive then { r₀ with state := .retracted } else r₀).id = r₀.id := by
          split <;> rfl
        exact (hret.1.symm.trans this).trans hid
      · simp only [hid, decide_false, Bool.false_and, Bool.false_eq_true, if_false] at hret
        obtain rfl := hids.unique.eq hr₀ rfl hold rfl hret.1
        simp [RelationRow.isActive, hret.2] at ha
    · intro hid
      have he : r = existing := hids.unique.eq hold rfl hmem rfl hid
      subst he
      exact ⟨hact, { r with state := .retracted }, hmem'.2 ⟨r, hmem, by simp [hact]⟩, by simp⟩
  rw [Store.transitions, hnew, hgone]
  rfl

theorem transitions_adopted (hids : RelationIds s) {row : RelationRow} (hid : s.nextId ≤ row.id)
    (hr : s'.relations = s.relations ++ [row]) : s.transitions s' = [.adopted row] := by
  have hne : ∀ r ∈ s.relations, r.id ≠ row.id := fun r hmem => by
    have := hids.fresh r hmem
    omega
  have hold : s.relations.filter (fun r => !s.relations.any (·.id = r.id)) = [] := by
    refine List.filter_eq_nil_iff.2 fun r hmem => ?_
    simpa using ⟨r, hmem, rfl⟩
  have hnew : (s.relations ++ [row]).filter (fun r => !s.relations.any (·.id = r.id)) = [row] := by
    rw [List.filter_append, hold, List.nil_append, List.filter_cons_of_pos, List.filter_nil]
    simpa using hne
  have hgone : s.relations.filter (fun r =>
      r.isActive && (s.relations ++ [row]).any fun r' => r'.id = r.id && r'.state = .retracted) = [] := by
    refine List.filter_eq_nil_iff.2 fun r hmem => ?_
    simp only [RelationRow.isActive, Bool.and_eq_true, decide_eq_true_eq, List.any_eq_true, not_and, not_exists]
    rintro hact r' hmem' hid' hret
    rcases List.mem_append.1 hmem' with hmem' | hmem'
    · obtain rfl := hids.unique.eq hmem' rfl hmem rfl hid'
      simp [hact] at hret
    · obtain rfl := List.mem_singleton.1 hmem'
      exact hne r hmem hid'.symm
  rw [Store.transitions, hr, hnew, hgone]
  rfl

end Transitions

/-- The retracted relation a payload names. -/
def EventPayload.retractedRelationId? : EventPayload → Option Nat
  | .conflictingParent retractedRelationId => some retractedRelationId
  | _ => none

section Events

variable [KeyHash]

/-- The id of a transition's event. -/
def Transition.eventId : Transition → String
  | .adopted row => eventIdFor .relationSelected row.childThreadCanonicalKey
  | .retracted row => eventIdFor .conflictDetected row.childThreadCanonicalKey

/-- An event of a transition of the operation, with that transition's own payload. -/
def Transition.announcedBy (operationId : String) (t : Transition) (e : EventRow) : Bool :=
  e.eventId = t.eventId && e.operationId = operationId &&
    match t with
    | .adopted row =>
      e.eventType = .relationSelected &&
        e.payload = .selected row.parentThreadCanonicalKey row.relationType row.selection.basis
    | .retracted row => e.eventType = .conflictDetected && e.payload.retractedRelationId? = some row.id

/-- Every transition owed has exactly one event, and no event is owed to two of them. -/
structure Announced (owed : List (String × Transition)) (events : List EventRow) : Prop where
  exactly : ∀ o ∈ owed, events.countP (o.2.announcedBy o.1) = 1
  own : owed.Pairwise fun o o' => ∀ e ∈ events, ¬ (o.2.announcedBy o.1 e = true ∧ o'.2.announcedBy o'.1 e = true)

/-- The operation an automatic step belongs to. -/
def Action.operationId : Action → String
  | .reconcile _ _ _ _ operationId _ _ | .late _ operationId _ => operationId
  | _ => ""

/-- The events appended between two stores. -/
def Store.eventsSince (s s' : Store) : List EventRow := s'.outbox.drop s.outbox.length

/-! ## Room for the event -/

/-- There is room for the event of a choice: a tie retracts nothing, and the id of the adoption or of
the conflict is not taken. -/
def Store.HasRoom (s : Store) (taken : String → Bool) (key : Key) : Choice → Prop
  | .nothing => True
  | .tie => s.findActiveByChild key = none
  | .parent winner =>
    match s.findActiveByChild key with
    | none => taken (eventIdFor .relationSelected key) = false
    | some existing => existing.Offers winner ∨ taken (eventIdFor .conflictDetected key) = false

instance (s : Store) (taken : String → Bool) (key : Key) : (choice : Choice) → Decidable (s.HasRoom taken key choice)
  | .nothing => inferInstanceAs (Decidable True)
  | .tie => inferInstanceAs (Decidable (s.findActiveByChild key = none))
  | .parent winner => by
    unfold Store.HasRoom
    dsimp only
    cases s.findActiveByChild key <;> infer_instance

/-- There is room for the event of an automatic step. The subject's transaction records its observations first. -/
def Action.HasRoom (s : Store) : Action → Prop
  | .reconcile threadId subject observations _ operationId _ _ =>
    ∀ identity, subject.key? = some identity →
      s.HasRoom (hasEvent (announceAll s.outbox (observationEvents observations operationId)))
        (s.subjectKey threadId identity) (s.forecast threadId identity observations)
  | .late observationId _ _ =>
    ∀ late, s.lateTarget observationId = some late →
      s.HasRoom (hasEvent s.outbox) late.key (s.choose late.key (late.offers.map OfferedCandidate.candidate))
  | _ => True

section Steps

variable {s s₁ s' : Store} {key : Key} {operationId : String} {choice : Choice}

/-- **What one automatic step owes and pays**: nothing; or the event of its one transition, which it
appends when there is room for it and not otherwise. -/
inductive Pays (operationId : String) (s s' : Store) (new : List EventRow) (room : Prop) : Prop where
  | nothing (ht : s.transitions s' = []) (hroom : room)
  | paid (t : Transition) (ht : s.transitions s' = [t]) (hroom : room)
      (e : EventRow) (he : e ∈ new) (hby : t.announcedBy operationId e = true)
  | dropped (t : Transition) (ht : s.transitions s' = [t]) (hroom : ¬ room)
      (hno : ∀ e ∈ new, t.announcedBy operationId e = false)

theorem Transition.announcedBy_id {t : Transition} {e : EventRow} (h : t.announcedBy operationId e = true) :
    e.eventId = t.eventId := by
  simp only [Transition.announcedBy, Bool.and_eq_true, decide_eq_true_eq] at h
  exact h.1.1

theorem Transition.id_mem {t : Transition} {e : EventRow} {new : List EventRow} (he : e ∈ new)
    (h : t.announcedBy operationId e = true) : t.eventId ∈ new.map EventRow.eventId :=
  List.mem_map.2 ⟨e, he, announcedBy_id h⟩

theorem not_announced_of_observation {t : Transition} {e : EventRow} (he : e.eventType = .observationRecorded) :
    t.announcedBy operationId e = false := by
  cases t <;> simp [Transition.announcedBy, he]

theorem Announces.pays {new : List EventRow} (hids : RelationIds s) (hr : s₁.relations = s.relations)
    (hn : s.nextId ≤ s₁.nextId) (hnew : Appended s.outbox new s₁.outbox)
    (hobs : ∀ e ∈ new, e.eventType = .observationRecorded) (h : Announces key operationId s₁ choice s') :
    ∃ new, Appended s.outbox new s'.outbox ∧
      Pays operationId s s' new (s.HasRoom (hasEvent s₁.outbox) key choice) := by
  have hfind : ∀ k, s₁.findActiveByChild k = s.findActiveByChild k := findActiveByChild_congr hr
  have hend : ∀ {existing : RelationRow}, s₁.findActiveByChild key = some existing →
      s'.relations = (s₁.endRelation existing.id .retracted).relations →
      s.transitions s' = [.retracted existing] := fun hex hr' => by
    obtain ⟨hmem, hact, -⟩ := findActiveByChild_mem ((hfind key).symm.trans hex)
    exact transitions_retracted hids hmem hact (by rw [hr', Store.endRelation, Store.endRelation, hr])
  cases h with
  | nothing _ hr' ho =>
    exact ⟨new, ho ▸ hnew, .nothing (transitions_same hids (hr'.trans hr)) trivial⟩
  | tie _ hr' ho =>
    refine ⟨_, ho ▸ hnew.trans (announce_appended _ _), ?_⟩
    cases hex : s₁.findActiveByChild key with
    | none =>
      have hsame : (s₁.retracted key).relations = s₁.relations := by simp [Store.retracted, hex]
      exact .nothing (transitions_same hids ((hr'.trans hsame).trans hr)) ((hfind key).symm.trans hex)
    | some existing =>
      have hret : s₁.retracted key = s₁.endRelation existing.id .retracted := by simp [Store.retracted, hex]
      refine .dropped _ (hend hex (hret ▸ hr')) (fun hroom => ?_) fun e he => ?_
      · rw [Store.HasRoom, ← hfind, hex] at hroom
        simp at hroom
      · rcases List.mem_append.1 he with he | he
        · exact not_announced_of_observation (hobs e he)
        · split at he
          · simp at he
          · obtain rfl := List.mem_singleton.1 he
            simp [Transition.announcedBy, tieEvent, EventPayload.retractedRelationId?]
  | same winner existing _ hex hsame hr' ho =>
    refine ⟨new, ho ▸ hnew, .nothing (transitions_same hids (hr'.trans hr)) ?_⟩
    rw [Store.HasRoom, ← hfind, hex]
    exact .inl hsame
  | conflicting winner existing _ hex hother hr' ho =>
    have ht := hend hex hr'
    have hchild : existing.childThreadCanonicalKey = key := (findActiveByChild_mem hex).2.2
    by_cases htaken : hasEvent s₁.outbox (eventIdFor .conflictDetected key) = true
    · refine ⟨new, by rw [ho, announce_of_hasEvent htaken]; exact hnew, .dropped _ ht (fun hroom => ?_) fun e he =>
        not_announced_of_observation (hobs e he)⟩
      rw [Store.HasRoom, ← hfind, hex] at hroom
      rcases hroom with hsame | hfree
      · exact hother hsame
      · rw [htaken] at hfree
        cases hfree
    · refine ⟨_, ho ▸ hnew.trans (announce_appended _ _), .paid _ ht ?_ (conflictEvent key operationId existing) ?_ ?_⟩
      · rw [Store.HasRoom, ← hfind, hex]
        exact .inr (by simpa using htaken)
      · simp [conflictEvent, htaken]
      · simp [Transition.announcedBy, conflictEvent, Transition.eventId, hchild, EventPayload.retractedRelationId?]
  | adopted winner row _ hnone hrow hr' ho =>
    obtain ⟨hid, hchild, -⟩ := hrow
    have ht : s.transitions s' = [.adopted row] := transitions_adopted hids (hid ▸ hn) (hr'.trans (by rw [hr]))
    by_cases htaken : hasEvent s₁.outbox (eventIdFor .relationSelected key) = true
    · refine ⟨new, by rw [ho, announce_of_hasEvent htaken]; exact hnew, .dropped _ ht (fun hroom => ?_) fun e he =>
        not_announced_of_observation (hobs e he)⟩
      rw [Store.HasRoom, ← hfind, hnone] at hroom
      simp [htaken] at hroom
    · refine ⟨_, ho ▸ hnew.trans (announce_appended _ _), .paid _ ht ?_ (selectionEvent key operationId row) ?_ ?_⟩
      · rw [Store.HasRoom, ← hfind, hnone]
        simpa using htaken
      · simp [selectionEvent, htaken]
      · simp [Transition.announcedBy, selectionEvent, Transition.eventId, hchild]

/-- What a specification says of the committed state holds of the state an action leaves. -/
theorem Action.exec_of_spec [PurgeDigest] {a : Action} {P : Store → Prop} {E : TxError → Prop}
    (hok : a.error? s = none) (h : wp a.tx.2 (fun _ s' => P s') E s) : P (a.exec s) := by
  unfold Action.error? at hok
  unfold Action.exec Tx.commit
  cases hrun : a.tx.2 s with
  | ok p => exact h.ok hrun
  | error e => simp [hrun] at hok

theorem Action.pays [PurgeDigest] (hs : Sound s) (hids : RelationIds s) {a : Action} (ha : a.automatic = true)
    (hok : a.error? s = none) : ∃ new, Appended s.outbox new (a.exec s).outbox ∧
      Pays a.operationId s (a.exec s) new (a.HasRoom s) := by
  cases a with
  | reconcile threadId subject observations owner operationId now importGuard =>
    have hann : SubjectAnnounces threadId subject observations operationId s _ :=
      Action.exec_of_spec hok (reconcileSubjectTx_announces hs)
    generalize (Action.reconcile threadId subject observations owner operationId now importGuard).exec s = s' at hann ⊢
    obtain ⟨new, hnew, hsub⟩ := announceAll_appended s.outbox (observationEvents observations operationId)
    have hobs : ∀ e ∈ new, e.eventType = .observationRecorded := fun e he => by
      obtain ⟨input, -, rfl⟩ := List.mem_map.1 (hsub he)
      rfl
    cases hann with
    | evidence _ hk hr ho =>
      refine ⟨new, ho ▸ hnew, .nothing (transitions_same hids hr) fun identity hk' => ?_⟩
      simp [hk] at hk'
    | subject identity s₁ _ hk hr hn ho hadopts =>
      obtain ⟨new', hnew', hpays⟩ := hadopts.pays hids hr hn (ho ▸ hnew) hobs
      have hroom : (Action.reconcile threadId subject observations owner operationId now importGuard).HasRoom s ↔
          s.HasRoom (hasEvent s₁.outbox) (s.subjectKey threadId identity) (s.forecast threadId identity observations) := by
        rw [ho]
        refine ⟨fun h => h identity hk, fun h identity' hk' => ?_⟩
        obtain rfl := Option.some.inj (hk.symm.trans hk')
        exact h
      exact ⟨new', hnew', by rwa [hroom]⟩
  | late observationId operationId now =>
    have hann : LateAnnounces observationId operationId s _ :=
      Action.exec_of_spec hok (reconcilePendingObservation_announces hs)
    generalize (Action.late observationId operationId now).exec s = s' at hann ⊢
    cases hann with
    | nothing hn =>
      refine ⟨[], .refl _, .nothing (transitions_same hids rfl) fun late hlate => ?_⟩
      simp [hn] at hlate
    | adopts late _ hlate hadopts =>
      obtain ⟨new', hnew', hpays⟩ := hadopts.pays hids rfl le_rfl (.refl _) (by simp)
      have hroom : (Action.late observationId operationId now).HasRoom s ↔ s.HasRoom (hasEvent s.outbox) late.key
          (s.choose late.key (late.offers.map OfferedCandidate.candidate)) := by
        refine ⟨fun h => h late hlate, fun h late' hlate' => ?_⟩
        obtain rfl := Option.some.inj (hlate.symm.trans hlate')
        exact h
      exact ⟨new', hnew', by rwa [hroom]⟩
  | _ => simp [Action.automatic] at ha

theorem Action.exec_of_error [PurgeDigest] {a : Action} {e : TxError} (he : a.error? s = some e) : a.exec s = s := by
  unfold Action.error? at he
  unfold Action.exec Tx.commit
  split at he
  · simp at he
  · next hrun => rw [hrun]

end Steps

/-! ## Runs -/

theorem Announced.of_appended {outbox new outbox' : List EventRow} {owed : List (String × Transition)}
    (h : Appended outbox new outbox') (hids : (owed.map fun o => o.2.eventId).Sublist (new.map EventRow.eventId))
    (hall : ∀ o ∈ owed, ∃ e ∈ new, o.2.announcedBy o.1 e = true) : Announced owed new := by
  constructor
  · intro o ho
    obtain ⟨e, he, hby⟩ := hall o ho
    have hone : new.filter (o.2.announcedBy o.1) = [e] := by
      rw [← filter_key_of_nodup h.nodup he]
      refine List.filter_congr fun e' he' => ?_
      rw [Bool.eq_iff_iff, decide_eq_true_eq]
      constructor
      · exact fun hby' => (Transition.announcedBy_id hby').trans (Transition.announcedBy_id hby).symm
      · intro hk
        rwa [List.inj_on_of_nodup_map h.nodup he' he hk]
    rw [List.countP_eq_length_filter, hone]
    rfl
  · have hnd : owed.Pairwise fun o o' => o.2.eventId ≠ o'.2.eventId := List.pairwise_map.1 (h.nodup.sublist hids)
    exact hnd.imp fun hne e _ ⟨hby, hby'⟩ =>
      hne ((Transition.announcedBy_id hby).symm.trans (Transition.announcedBy_id hby'))
section Runs

variable [PurgeDigest]

/-- The events a list of actions owes, in order, each with its operation. -/
def owed : List Action → Store → List (String × Transition)
  | [], _ => []
  | a :: as, s => (s.transitions (a.exec s)).map (a.operationId, ·) ++ owed as (a.exec s)

/-- **The run lemma.** A run with room for every event appends them all. -/
theorem run_pays : ∀ {actions : List Action} {s : Store}, Sound s → RelationIds s →
    (∀ a ∈ actions, a.automatic = true) →
    Run.Allowed Action.exec (fun s a => a.error? s = none → a.HasRoom s) actions s →
    ∃ new, Appended s.outbox new (Run.execAll Action.exec actions s).outbox ∧
      ((owed actions s).map fun o => o.2.eventId).Sublist (new.map EventRow.eventId) ∧
      ∀ o ∈ owed actions s, ∃ e ∈ new, o.2.announcedBy o.1 e = true
  | [], s, _, _, _, _ => ⟨[], .refl _, .slnil, by simp [owed]⟩
  | a :: actions, s, hs, hids, hauto, ⟨hroom, hallowed⟩ => by
    obtain ⟨new', hnew', hsub, hall⟩ := run_pays (a.exec_sound hs) (a.exec_relationIds hs hids)
      (fun b hb => hauto b (by simp [hb])) hallowed
    cases he : a.error? s with
    | some e =>
      have hsame := Action.exec_of_error he
      have ht : s.transitions (a.exec s) = [] := hsame.symm ▸ transitions_same hids rfl
      have howed : owed (a :: actions) s = owed actions (a.exec s) := by simp [owed, ht]
      rw [howed]
      exact ⟨new', (congrArg Store.outbox hsame) ▸ hnew', hsub, hall⟩
    | none =>
      obtain ⟨new, hnew, hpays⟩ := a.pays hs hids (hauto a (by simp)) he
      have htail : ∀ o ∈ owed actions (a.exec s), ∃ e ∈ new ++ new', o.2.announcedBy o.1 e = true := fun o ho => by
        obtain ⟨e, hmem, hby⟩ := hall o ho
        exact ⟨e, List.mem_append_right new hmem, hby⟩
      refine ⟨new ++ new', hnew.trans hnew', ?_⟩
      cases hpays with
      | nothing ht _ =>
        have howed : owed (a :: actions) s = owed actions (a.exec s) := by simp [owed, ht]
        rw [howed, List.map_append]
        exact ⟨hsub.trans (List.sublist_append_right ..), htail⟩
      | paid t ht _ e hmem hby =>
        have howed : owed (a :: actions) s = (a.operationId, t) :: owed actions (a.exec s) := by simp [owed, ht]
        rw [howed, List.map_append]
        refine ⟨List.Sublist.append (List.singleton_sublist.2 (Transition.id_mem hmem hby)) hsub, fun o ho => ?_⟩
        rcases List.mem_cons.1 ho with rfl | ho
        · exact ⟨e, List.mem_append_left new' hmem, hby⟩
        · exact htail o ho
      | dropped t ht hno _ => exact (hno (hroom he)).elim

/-- One step: its transition is announced exactly when there is room for the event. -/
theorem Action.announced_iff {s : Store} (hs : Sound s) (hids : RelationIds s) {a : Action} (ha : a.automatic = true)
    (hok : a.error? s = none) : Announced (owed [a] s) (s.eventsSince (a.exec s)) ↔ a.HasRoom s := by
  obtain ⟨new, hnew, hpays⟩ := a.pays hs hids ha hok
  rw [Store.eventsSince, hnew.drop]
  cases hpays with
  | nothing ht hroom =>
    simp only [hroom, iff_true, owed, ht]
    exact ⟨by simp, by simp⟩
  | paid t ht hroom e he hby =>
    simp only [hroom, iff_true, owed, ht]
    refine .of_appended hnew ?_ fun o ho => ?_
    · exact List.singleton_sublist.2 (Transition.id_mem he hby)
    · obtain rfl : o = (a.operationId, t) := by simpa using ho
      exact ⟨e, he, hby⟩
  | dropped t ht hroom hno =>
    simp only [hroom, iff_false, owed, ht]
    intro h
    have hone := h.exactly (a.operationId, t) (by simp)
    rw [List.countP_eq_zero.2 fun e he => by simp [hno e he]] at hone
    cases hone

end Runs

/-! ## Replays -/

/-- An automatic step finds a tie between the parents of a key. -/
def Action.TiesFor (s : Store) (key : Key) : Action → Prop
  | .reconcile threadId subject observations _ _ _ _ =>
    ∃ identity, subject.key? = some identity ∧ s.subjectKey threadId identity = key ∧
      s.forecast threadId identity observations = .tie
  | .late observationId _ _ =>
    ∃ late, s.lateTarget observationId = some late ∧ late.key = key ∧
      s.choose late.key (late.offers.map OfferedCandidate.candidate) = .tie
  | _ => False

/-- The ids of the events of an automatic step that make no transition of their own: its observations, and its tie. -/
def Action.Notes (s : Store) (id : String) : Action → Prop
  | .reconcile threadId subject observations owner operationId now importGuard =>
    hasEvent (observationEvents observations operationId) id = true ∨
      ∃ key, (Action.reconcile threadId subject observations owner operationId now importGuard).TiesFor s key ∧
        id = eventIdFor .conflictDetected key
  | .late observationId operationId now =>
    ∃ key, (Action.late observationId operationId now).TiesFor s key ∧ id = eventIdFor .conflictDetected key
  | _ => False

section Replays

variable {s s₁ s' : Store} {key : Key} {operationId : String} {choice : Choice}

/-- What is in the outbox stays, and a tie's event is in it. -/
theorem Announces.keeps_event (h : Announces key operationId s choice s') {id : String}
    (hid : hasEvent s.outbox id = true ∨ choice = .tie ∧ id = eventIdFor .conflictDetected key) :
    hasEvent s'.outbox id = true := by
  cases h with
  | tie _ _ ho =>
    rw [ho, hasEvent_announce]
    rcases hid with hid | ⟨-, rfl⟩
    · rw [hid, Bool.true_or]
    · simp [tieEvent]
  | nothing _ _ ho | same _ _ _ _ _ _ ho =>
    rw [ho]
    exact hid.resolve_right (by simp)
  | conflicting _ _ _ _ _ _ ho | adopted _ _ _ _ _ _ ho =>
    rw [ho, hasEvent_announce, hid.resolve_right (by simp), Bool.true_or]

/-- A choice that makes no transition appends nothing but the first event of a tie. -/
theorem Announces.outbox_eq (hids : RelationIds s) (hr : s₁.relations = s.relations) (hn : s.nextId ≤ s₁.nextId)
    (h : Announces key operationId s₁ choice s') (ht : s.transitions s' = [])
    (htie : choice = .tie → hasEvent s₁.outbox (eventIdFor .conflictDetected key) = true) :
    s'.outbox = s₁.outbox := by
  cases h with
  | nothing _ _ ho | same _ _ _ _ _ _ ho => exact ho
  | tie _ _ ho => rw [ho, announce_of_hasEvent (htie rfl)]
  | conflicting winner existing _ hex _ hr' _ =>
    obtain ⟨hmem, hact, -⟩ := findActiveByChild_mem ((findActiveByChild_congr hr key).symm.trans hex)
    have hended : s.transitions s' = [.retracted existing] :=
      transitions_retracted hids hmem hact (by rw [hr', Store.endRelation, Store.endRelation, hr])
    simp [ht] at hended
  | adopted winner row _ _ hrow hr' _ =>
    have hadopted : s.transitions s' = [.adopted row] :=
      transitions_adopted hids (hrow.1 ▸ hn) (hr'.trans (by rw [hr]))
    simp [ht] at hadopted

variable [PurgeDigest]

/-- After an automatic step the outbox holds what it held, and the events the step notes. -/
theorem Action.keeps_event (hs : Sound s) {a : Action} (ha : a.automatic = true) (hok : a.error? s = none) {id : String}
    (hid : hasEvent s.outbox id = true ∨ a.Notes s id) : hasEvent (a.exec s).outbox id = true := by
  cases a with
  | reconcile threadId subject observations owner operationId now importGuard =>
    have hann : SubjectAnnounces threadId subject observations operationId s _ :=
      Action.exec_of_spec hok (reconcileSubjectTx_announces hs)
    have hrecorded : hasEvent s.outbox id = true ∨ hasEvent (observationEvents observations operationId) id = true →
        hasEvent (announceAll s.outbox (observationEvents observations operationId)) id = true := by
      rw [hasEvent_announceAll, Bool.or_eq_true]
      exact fun h => h
    cases hann with
    | evidence _ hk _ ho =>
      rw [ho]
      refine hrecorded (hid.imp_right fun hn => hn.resolve_right ?_)
      rintro ⟨_, ⟨identity, hk', -⟩, -⟩
      simp [hk] at hk'
    | subject identity s₁ _ hk _ _ ho hadopts =>
      refine hadopts.keeps_event ?_
      rcases hid with hid | hid | ⟨_, ⟨identity', hk', rfl, htie⟩, rfl⟩
      · exact .inl (ho ▸ hrecorded (.inl hid))
      · exact .inl (ho ▸ hrecorded (.inr hid))
      · obtain rfl := Option.some.inj (hk.symm.trans hk')
        exact .inr ⟨htie, rfl⟩
  | late observationId operationId now =>
    have hann : LateAnnounces observationId operationId s _ :=
      Action.exec_of_spec hok (reconcilePendingObservation_announces hs)
    generalize (Action.late observationId operationId now).exec s = s' at hann ⊢
    cases hann with
    | nothing hn =>
      refine hid.resolve_right ?_
      rintro ⟨_, ⟨late, hlate, -⟩, -⟩
      simp [hn] at hlate
    | adopts late _ hlate hadopts =>
      refine hadopts.keeps_event (hid.imp_right ?_)
      rintro ⟨_, ⟨late', hlate', rfl, htie⟩, rfl⟩
      obtain rfl := Option.some.inj (hlate.symm.trans hlate')
      exact ⟨htie, rfl⟩
  | _ => simp [Action.automatic] at ha

/-- A step without a transition, whose notes are all in the outbox, appends nothing. -/
theorem Action.outbox_eq (hs : Sound s) (hids : RelationIds s) {a : Action} (ha : a.automatic = true)
    (ht : s.transitions (a.exec s) = []) (hnotes : ∀ id, a.Notes s id → hasEvent s.outbox id = true) :
    (a.exec s).outbox = s.outbox := by
  cases hok : a.error? s with
  | some e => rw [Action.exec_of_error hok]
  | none =>
    cases a with
    | reconcile threadId subject observations owner operationId now importGuard =>
      have hann : SubjectAnnounces threadId subject observations operationId s _ :=
        Action.exec_of_spec hok (reconcileSubjectTx_announces hs)
      have hrecorded : announceAll s.outbox (observationEvents observations operationId) = s.outbox :=
        announceAll_of_hasEvent fun e he => hnotes _ (.inl (hasEvent_iff.2 (List.mem_map_of_mem he)))
      generalize (Action.reconcile threadId subject observations owner operationId now importGuard).exec s = s' at hann ht ⊢
      cases hann with
      | evidence _ _ _ ho => rw [ho, hrecorded]
      | subject identity s₁ _ hk hr hn ho hadopts =>
        rw [hrecorded] at ho
        refine (hadopts.outbox_eq hids hr hn ht fun htie => ?_).trans ho
        rw [ho]
        exact hnotes _ (.inr ⟨_, ⟨identity, hk, rfl, htie⟩, rfl⟩)
    | late observationId operationId now =>
      have hann : LateAnnounces observationId operationId s _ :=
        Action.exec_of_spec hok (reconcilePendingObservation_announces hs)
      generalize (Action.late observationId operationId now).exec s = s' at hann ht ⊢
      cases hann with
      | nothing => rfl
      | adopts late _ hlate hadopts =>
        exact hadopts.outbox_eq hids rfl le_rfl ht fun htie => hnotes _ ⟨_, ⟨late, hlate, rfl, htie⟩, rfl⟩
    | _ => simp [Action.automatic] at ha

theorem run_keeps_event {id : String} : ∀ {actions : List Action} {s : Store}, Sound s →
    (∀ a ∈ actions, a.automatic = true) → hasEvent s.outbox id = true →
    hasEvent (Run.execAll Action.exec actions s).outbox id = true
  | [], _, _, _, h => h
  | a :: actions, s, hs, hauto, h => by
    have hstep : hasEvent (a.exec s).outbox id = true := by
      cases hok : a.error? s with
      | some e => rw [Action.exec_of_error hok]; exact h
      | none => exact a.keeps_event hs (hauto a (by simp)) hok (.inl h)
    exact run_keeps_event (s := a.exec s) (a.exec_sound hs) (fun b hb => hauto b (by simp [hb])) hstep

/-- **A replay appends nothing**, however much later: unless it makes a transition, or meets a tie the
step itself had not met. -/
theorem Action.replay_silent (hs : Sound s) (hids : RelationIds s) {a : Action} (ha : a.automatic = true)
    (hok : a.error? s = none) {actions : List Action} (hauto : ∀ b ∈ actions, b.automatic = true) {t : Store}
    (hrun : Run.execAll Action.exec actions (a.exec s) = t) (htie : ∀ k, a.TiesFor t k → a.TiesFor s k)
    (ht : t.transitions (a.exec t) = []) : (a.exec t).outbox = t.outbox := by
  have hst : Sound t ∧ RelationIds t := by
    have hr : Reaches s t := .head ⟨a, trivial, rfl⟩ (hrun ▸ Run.reaches_execAll (fun _ _ _ => trivial) _)
    exact Run.Reaches.invariant (I := fun s => Sound s ∧ RelationIds s)
      (fun s b hs _ => ⟨b.exec_sound hs.1, b.exec_relationIds hs.1 hs.2⟩) hr ⟨hs, hids⟩
  refine a.outbox_eq hst.1 hst.2 ha ht fun id hn => ?_
  refine hrun ▸ run_keeps_event (a.exec_sound hs) hauto (a.keeps_event hs ha hok (.inr ?_))
  cases a with
  | reconcile => exact hn.imp_right fun ⟨k, hk, he⟩ => ⟨k, htie k hk, he⟩
  | late => exact hn.imp fun k ⟨hk, he⟩ => ⟨htie k hk, he⟩
  | _ => exact hn

/-- The subject's transaction meets no new tie when it is taken again right after itself. -/
theorem reconcile_ties_again (hs : Sound s) {threadId : Nat} {subject : ObservedEndpoint}
    {observations : List ObservationInput} {owner : Int} {operationId : String} {now : Int} {importGuard : Bool}
    {a : Action} (ha : a = .reconcile threadId subject observations owner operationId now importGuard)
    (hok : a.error? s = none) {k : Key} (htie : a.TiesFor (a.exec s) k) : a.TiesFor s k := by
  subst ha
  have hrec : Reconciles threadId subject observations owner s _ :=
    Action.exec_of_spec hok (reconcileSubjectTx_spec hs)
  obtain ⟨identity, hk, hkey, htie⟩ := htie
  obtain ⟨hsame, hoffers⟩ := hrec.offers_again hs hk
  refine ⟨identity, hk, hsame.symm.trans hkey, ?_⟩
  rw [Store.forecast, choose_eq_tie] at htie ⊢
  rwa [← hoffers]

end Replays

end Events

section Runs

open Scenario

end Runs

end MemoryStore.ThreadGroup
