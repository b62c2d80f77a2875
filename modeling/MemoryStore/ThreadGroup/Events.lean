/-
What the reconciler writes to the outbox, next to what it does to the relations.
Everything else it touches is out of view here (`Silent`): candidates, derived
observations, groups and members come and go between an adoption and its event
without a trace in either table.
-/
import MemoryStore.ThreadGroup.Forecast

namespace MemoryStore.ThreadGroup

open Tx Forest

/-! ## Appending events -/

/-- Whether an event id is in a list of events. -/
def hasEvent (outbox : List EventRow) (eventId : String) : Bool := outbox.any fun e => e.eventId = eventId

/-- The outbox after `append_idempotent_tx`. -/
def announce (outbox : List EventRow) (event : EventRow) : List EventRow :=
  if hasEvent outbox event.eventId then outbox else outbox ++ [event]

/-- The outbox after a list of events. -/
def announceAll (outbox events : List EventRow) : List EventRow := events.foldl announce outbox

/-- The events one list of events added to another, each under an id of its own. -/
structure Appended (outbox new outbox' : List EventRow) : Prop where
  eq : outbox' = outbox ++ new
  fresh : ∀ e ∈ new, hasEvent outbox e.eventId = false
  nodup : (new.map EventRow.eventId).Nodup

section Append

variable {outbox outbox' : List EventRow} {event : EventRow} {id : String}

theorem hasEvent_append {new : List EventRow} :
    hasEvent (outbox ++ new) id = (hasEvent outbox id || hasEvent new id) := List.any_append

theorem hasEvent_iff : hasEvent outbox id = true ↔ id ∈ outbox.map EventRow.eventId := by simp [hasEvent]

theorem hasEvent_announce : hasEvent (announce outbox event) id = (hasEvent outbox id || decide (event.eventId = id)) := by
  unfold announce
  split
  · next h =>
    by_cases hid : event.eventId = id
    · simp [hid ▸ h]
    · simp [hid]
  · simp [hasEvent]

theorem announce_of_hasEvent (h : hasEvent outbox event.eventId = true) : announce outbox event = outbox := if_pos h

theorem Appended.refl (outbox : List EventRow) : Appended outbox [] outbox := ⟨by simp, by simp, by simp⟩

theorem Appended.drop {new : List EventRow} (h : Appended outbox new outbox') : outbox'.drop outbox.length = new := by
  rw [h.eq, List.drop_left]

/-- An event is appended, or there was one under its id. -/
theorem announce_appended (outbox : List EventRow) (event : EventRow) :
    Appended outbox (if hasEvent outbox event.eventId then [] else [event]) (announce outbox event) := by
  unfold announce
  split
  · exact .refl outbox
  · next h => exact ⟨rfl, by simpa using h, by simp⟩

theorem Appended.trans {outbox'' new new' : List EventRow} (h : Appended outbox new outbox')
    (h' : Appended outbox' new' outbox'') : Appended outbox (new ++ new') outbox'' := by
  have hfresh : ∀ e ∈ new', hasEvent outbox e.eventId = false ∧ hasEvent new e.eventId = false := fun e he => by
    have := h'.fresh e he
    rwa [h.eq, hasEvent_append, Bool.or_eq_false_iff] at this
  refine ⟨by rw [h'.eq, h.eq, List.append_assoc], fun e he => ?_, ?_⟩
  · rcases List.mem_append.1 he with he | he
    · exact h.fresh e he
    · exact (hfresh e he).1
  · rw [List.map_append, List.nodup_append']
    refine ⟨h.nodup, h'.nodup, fun id hid hid' => ?_⟩
    obtain ⟨e, he, rfl⟩ := List.mem_map.1 hid'
    have := hasEvent_iff.2 hid
    simp [(hfresh e he).2] at this

theorem announceAll_appended (outbox : List EventRow) : ∀ events : List EventRow,
    ∃ new, Appended outbox new (announceAll outbox events) ∧ new ⊆ events
  | [] => ⟨[], .refl outbox, by simp⟩
  | event :: events => by
    obtain ⟨new, hnew, hsub⟩ := announceAll_appended (announce outbox event) events
    refine ⟨_, (announce_appended outbox event).trans hnew, ?_⟩
    split
    · exact List.subset_cons_of_subset _ (by simpa using hsub)
    · exact List.cons_subset_cons _ hsub

theorem hasEvent_announceAll (outbox : List EventRow) : ∀ events : List EventRow,
    hasEvent (announceAll outbox events) id = (hasEvent outbox id || hasEvent events id)
  | [] => by simp [announceAll, hasEvent]
  | event :: events => by
    have ih : hasEvent (announceAll (announce outbox event) events) id =
        (hasEvent (announce outbox event) id || hasEvent events id) := hasEvent_announceAll _ events
    rw [show announceAll outbox (event :: events) = announceAll (announce outbox event) events from rfl, ih,
      hasEvent_announce, Bool.or_assoc]
    simp [hasEvent]

theorem announceAll_of_hasEvent : ∀ {events : List EventRow}, (∀ e ∈ events, hasEvent outbox e.eventId = true) →
    announceAll outbox events = outbox
  | [], _ => rfl
  | event :: events, h => by
    rw [show announceAll outbox (event :: events) = announceAll (announce outbox event) events from rfl,
      announce_of_hasEvent (h event (by simp))]
    exact announceAll_of_hasEvent fun e he => h e (by simp [he])

end Append

/-! ## What is out of view -/

/-- The store without observations, candidates, groups, members and audit rows. -/
def Store.silent (s : Store) : Store :=
  { s with observations := [], candidates := [], groups := [], members := [], audits := [], nextId := 0 }

/-- Relations, outbox and mapping read the same. -/
abbrev Silent : Store → Store → Prop := Keeps Store.silent

theorem silent_overlooks : Overlooks Store.silent := ⟨fun _ _ => rfl, fun _ _ => rfl, fun _ _ => rfl⟩

/-- A program that touches neither relations nor outbox nor mapping. -/
abbrev StaysSilent {α : Type} (m : StoreTx α) : Prop := Does Silent Benign m

section Silent

variable {s s' : Store}

theorem RegroupOnly.silent (h : RegroupOnly s s') : Silent s s' :=
  ⟨h.read (f := Store.silent) fun _ => rfl, h.nextId⟩

theorem Silent.relations (h : Silent s s') : s'.relations = s.relations := h.read Store.relations fun _ => rfl

theorem Silent.outbox (h : Silent s s') : s'.outbox = s.outbox := h.read Store.outbox fun _ => rfl

variable {subjectThreadId : Nat} {subject : ObservedEndpoint} {offers : List OfferedCandidate} {now : Int}

theorem insertObservation_silent {row : Nat → ObservationRow} : StaysSilent (insertObservation row) :=
  insertObservation_keeps silent_overlooks

theorem recordCandidate_silent {parent : Option Nat} {state : CandidateState} {observationId : Nat} :
    StaysSilent (recordCandidate subjectThreadId subject parent state observationId now) :=
  recordCandidate_keeps silent_overlooks

theorem recordWinners_silent {winners : List Candidate} :
    StaysSilent (recordWinners subjectThreadId subject offers winners now) := recordWinners_keeps silent_overlooks

theorem settlePending_silent {late : LateSubject} : StaysSilent (settlePending late subject offers now) :=
  settlePending_keeps silent_overlooks

theorem offerCandidate_silent {input : ObservationInput × Nat} :
    StaysSilent (offerCandidate subjectThreadId subject now input) := offerCandidate_keeps silent_overlooks

theorem resolvePending_silent {subjectKey : Key} {observationId : Nat} :
    StaysSilent (resolvePendingForSelectedObservation subject subjectKey observationId now) :=
  resolvePending_keeps silent_overlooks

theorem recordDerivedConflict_silent [KeyHash] {reason : String} :
    StaysSilent (recordDerivedConflict subject reason now) := recordDerivedConflict_keeps silent_overlooks

theorem appendIdempotent_announces {event : EventRow} (s : Store) :
    wp (appendIdempotent event) (fun _ s' => s'.relations = s.relations ∧ s'.outbox = announce s.outbox event)
      Benign s := by
  simp only [appendIdempotent, wp_writes, announce, hasEvent]
  split <;> rename_i h <;> simp [h]

end Silent

/-! ## Adopting a parent -/

variable [KeyHash]

/-- The event of a tie between equally ranked parents. -/
def tieEvent (key : Key) (operationId : String) : EventRow :=
  ⟨eventIdFor .conflictDetected key, .conflictDetected, operationId, .equalRankedParents⟩

/-- The event of a relation retracted for a parent that contradicts it. -/
def conflictEvent (key : Key) (operationId : String) (retracted : RelationRow) : EventRow :=
  ⟨eventIdFor .conflictDetected key, .conflictDetected, operationId, .conflictingParent retracted.id⟩

/-- The event of an adopted relation. -/
def selectionEvent (key : Key) (operationId : String) (row : RelationRow) : EventRow :=
  ⟨eventIdFor .relationSelected key, .relationSelected, operationId,
    .selected row.parentThreadCanonicalKey row.relationType row.selection.basis⟩

/-- An active relation is the one a candidate would have adopted. -/
def RelationRow.Offers (r : RelationRow) (winner : Candidate) : Prop :=
  r.parentThreadCanonicalKey = winner.parentKey ∧ r.relationType = winner.relationType

instance (r : RelationRow) (winner : Candidate) : Decidable (r.Offers winner) := by
  unfold RelationRow.Offers
  infer_instance

/-- **What each choice does to the relations and to the outbox.** -/
inductive Announces (key : Key) (operationId : String) (s : Store) : Choice → Store → Prop where
  | nothing (s' : Store) (hr : s'.relations = s.relations) (ho : s'.outbox = s.outbox) :
      Announces key operationId s .nothing s'
  | tie (s' : Store) (hr : s'.relations = (s.retracted key).relations)
      (ho : s'.outbox = announce s.outbox (tieEvent key operationId)) : Announces key operationId s .tie s'
  | same (winner : Candidate) (existing : RelationRow) (s' : Store) (hex : s.findActiveByChild key = some existing)
      (hsame : existing.Offers winner) (hr : s'.relations = s.relations) (ho : s'.outbox = s.outbox) :
      Announces key operationId s (.parent winner) s'
  | conflicting (winner : Candidate) (existing : RelationRow) (s' : Store)
      (hex : s.findActiveByChild key = some existing) (hother : ¬ existing.Offers winner)
      (hr : s'.relations = (s.endRelation existing.id .retracted).relations)
      (ho : s'.outbox = announce s.outbox (conflictEvent key operationId existing)) :
      Announces key operationId s (.parent winner) s'
  | adopted (winner : Candidate) (row : RelationRow) (s' : Store) (hn : s.findActiveByChild key = none)
      (hrow : row.id = s.nextId ∧ row.childThreadCanonicalKey = key ∧ row.Offers winner)
      (hr : s'.relations = s.relations ++ [row])
      (ho : s'.outbox = announce s.outbox (selectionEvent key operationId row)) :
      Announces key operationId s (.parent winner) s'

theorem Announces.silent {key : Key} {operationId : String} {choice : Choice} {s s' s'' : Store}
    (h : Announces key operationId s choice s') (h' : Silent s' s'') : Announces key operationId s choice s'' := by
  cases h with
  | nothing _ hr ho => exact .nothing s'' (h'.relations.trans hr) (h'.outbox.trans ho)
  | tie _ hr ho => exact .tie s'' (h'.relations.trans hr) (h'.outbox.trans ho)
  | same winner existing _ hex hsame hr ho =>
    exact .same winner existing s'' hex hsame (h'.relations.trans hr) (h'.outbox.trans ho)
  | conflicting winner existing _ hex hother hr ho =>
    exact .conflicting winner existing s'' hex hother (h'.relations.trans hr) (h'.outbox.trans ho)
  | adopted winner row _ hn hrow hr ho =>
    exact .adopted winner row s'' hn hrow (h'.relations.trans hr) (h'.outbox.trans ho)

/-- The outbox and the relations after the event of a transition. -/
theorem appendRelationEvent_announces {eventType : EventType} {key : Key} {operationId : String}
    {payload : EventPayload} (s : Store) :
    wp (appendRelationEvent eventType key operationId payload)
      (fun _ s' => s'.relations = s.relations ∧ s'.outbox = announce s.outbox
        ⟨eventIdFor (if eventType = .conflictDetected then .conflictDetected else .relationSelected) key, eventType,
          operationId, payload⟩) Benign s := appendIdempotent_announces s

theorem ensureMembership_silent {s : Store} (h : Sound s) (e : Edge) :
    wp (ensureMembership e.subjectThreadId e.subjectKey e.subject e.parentThreadId e.parentKey e.parent e.owner)
      (fun _ s' => Silent s s') Benign s :=
  (ensureMembership_spec h e).imp fun _ _ hens => (hens.reassigning h).2.1.silent

theorem applySelectedRelation_announces {s : Store} (h : Sound s) {subjectThreadId : Nat} {subjectKey : Key}
    {subject parent : ObservedEndpoint} {winner : Candidate} {observationId : Nat} {operationId : String} {now : Int}
    {owner : Int} (hno : ¬ Climbs s.activeParent winner.parentKey subjectKey) :
    wp (applySelectedRelation subjectThreadId subjectKey subject parent winner observationId operationId now owner)
      (fun _ s' => Announces subjectKey operationId s (.parent winner) s') Benign s := by
  simp only [applySelectedRelation, wp_bind, wp_get]
  split
  · next existing hex =>
    split
    · next hsame =>
      simp only [wp_bind, wp_pure]
      refine (ensureMembership_silent h
        (s.selectedEdge subjectThreadId subjectKey subject parent winner owner)).imp fun _ s' hs' => ?_
      exact .same winner existing s' hex (by simpa [RelationRow.Offers] using hsame) hs'.relations hs'.outbox
    · next hother =>
      simp only [setRelationState, wp_bind, wp_writes, wp_pure]
      refine (recordDerivedConflict_silent _).imp fun _ s₁ h₁ => ?_
      refine (recordCandidate_silent _).imp fun _ s₂ h₂ => ?_
      refine (appendRelationEvent_announces s₂).imp fun _ s₃ hout => ?_
      obtain ⟨hr, ho⟩ := hout
      refine .conflicting winner existing s₃ hex (by simpa [RelationRow.Offers] using hother) ?_ ?_
      · exact hr.trans (h₂.relations.trans h₁.relations)
      · exact ho.trans (congrArg (announce · _) (h₂.outbox.trans h₁.outbox))
  · next hn =>
    simp only [wp_bind]
    have hsel : wp (sourceSelection winner.evidence observationId) (fun _ s' => s' = s) Benign s := by
      unfold sourceSelection
      split <;> simp
    refine hsel.imp fun selection s₁ h₁ => ?_
    subst h₁
    refine endpointTriple_benign.imp fun parentIdentity s₁ h₁ => ?_
    subst h₁
    refine endpointTriple_benign.imp fun childIdentity s₁ h₁ => ?_
    subst h₁
    have hne : winner.parentKey ≠ subjectKey := fun he => hno (he ▸ .refl)
    set e := s₁.selectedEdge subjectThreadId subjectKey subject parent winner owner with he
    set row := adoptedRow e parentIdentity childIdentity winner.relationType selection s₁.nextId with hrow
    rw [wp_insertRelation hne hn]
    simp only [wp_pure]
    have hs₂ : Sound (s₁.relate row) := h.relate rfl hn hno
    refine (ensureMembership_silent hs₂ e).imp fun _ s₂ h₂ => ?_
    refine (appendRelationEvent_announces s₂).imp fun _ s₃ hout => ?_
    obtain ⟨hr, ho⟩ := hout
    refine .adopted winner row s₃ hn ⟨rfl, rfl, rfl, rfl⟩ ?_ ?_
    · exact hr.trans h₂.relations
    · exact ho.trans (congrArg (announce · _) h₂.outbox)

theorem adoptParent_announces {s : Store} (h : Sound s) {threadId : Nat} {key : Key} {subject : ObservedEndpoint}
    {offers : List OfferedCandidate} {operationId : String} {now owner : Int} :
    wp (adoptParent threadId key subject offers operationId now owner)
      (fun _ s' => Announces key operationId s (s.choose key (offers.map OfferedCandidate.candidate)) s') Benign s := by
  unfold adoptParent
  split
  · next hsel =>
    rw [show s.choose key (offers.map OfferedCandidate.candidate) = .nothing by simp [Store.choose, hsel]]
    exact .nothing s rfl rfl
  · next winners hsel =>
    rw [show s.choose key (offers.map OfferedCandidate.candidate) = .tie by simp [Store.choose, hsel]]
    simp only [wp_bind, wp_retractActiveRelation, wp_pure]
    refine (recordWinners_silent _).imp fun _ s₁ h₁ => ?_
    refine (appendRelationEvent_announces s₁).imp fun _ s₂ hout => ?_
    obtain ⟨hr, ho⟩ := hout
    have hout : (s.retracted key).outbox = s.outbox := by unfold Store.retracted; split <;> rfl
    refine .tie s₂ (hr.trans h₁.relations) (ho.trans ?_)
    rw [h₁.outbox, hout]
    rfl
  · next winner hsel =>
    simp only [wp_bind, wp_get]
    split
    · next hrefused =>
      rw [show s.choose key (offers.map OfferedCandidate.candidate) = .nothing by simp [Store.choose, hsel, hrefused]]
      simp only [wp_bind, wp_pure]
      refine (recordCandidate_silent _).imp fun _ s₁ h₁ => ?_
      exact .nothing s₁ h₁.relations h₁.outbox
    · next hrefused =>
      rw [show s.choose key (offers.map OfferedCandidate.candidate) = .parent winner by
        simp [Store.choose, hsel, hrefused]]
      have hno : ¬ Climbs s.activeParent winner.parentKey key := fun hc => hrefused (h.forest.refuses_iff.2 hc)
      obtain ⟨offer, hoffer⟩ := offerFor_isSome (mem_of_selected hsel)
      simp only [hoffer, wp_bind]
      refine (applySelectedRelation_announces h hno).imp fun out s₁ happ => ?_
      split
      · simp only [wp_bind, wp_get, wp_pure]
        exact (resolvePending_silent _).imp fun _ s₂ h₂ => happ.silent h₂
      · simp only [wp_bind, wp_get, wp_pure]
        exact happ

theorem adoptLateParent_announces {s : Store} (h : Sound s) {late : LateSubject} {subject : ObservedEndpoint}
    {operationId : String} {now : Int} :
    wp (adoptLateParent late subject operationId now)
      (fun _ s' => Announces late.key operationId s
        (s.choose late.key (late.offers.map OfferedCandidate.candidate)) s') Benign s := by
  unfold adoptLateParent
  split
  · next hsel =>
    rw [show s.choose late.key (late.offers.map OfferedCandidate.candidate) = .nothing by simp [Store.choose, hsel]]
    exact .nothing s rfl rfl
  · next winners hsel =>
    rw [show s.choose late.key (late.offers.map OfferedCandidate.candidate) = .tie by simp [Store.choose, hsel]]
    simp only [wp_bind, wp_retractActiveRelation]
    refine (recordWinners_silent _).imp fun _ s₁ h₁ => ?_
    refine (settlePending_silent _).imp fun _ s₂ h₂ => ?_
    refine (appendRelationEvent_announces s₂).imp fun _ s₃ ⟨hr, ho⟩ => ?_
    have hout : (s.retracted late.key).outbox = s.outbox := by unfold Store.retracted; split <;> rfl
    refine .tie s₃ (hr.trans (h₂.relations.trans h₁.relations)) (ho.trans ?_)
    rw [(h₂.outbox.trans h₁.outbox), hout]
    rfl
  · next winner hsel =>
    obtain ⟨offer, hoffer⟩ := offerFor_isSome (mem_of_selected hsel)
    simp only [hoffer, wp_bind, wp_get]
    split
    · next hrefused =>
      rw [show s.choose late.key (late.offers.map OfferedCandidate.candidate) = .nothing by
        simp [Store.choose, hsel, hrefused]]
      simp only [wp_bind]
      refine (recordCandidate_silent _).imp fun _ s₁ h₁ => ?_
      refine (settlePending_silent _).imp fun _ s₂ h₂ => ?_
      exact .nothing s₂ (h₂.relations.trans h₁.relations) (h₂.outbox.trans h₁.outbox)
    · next hrefused =>
      have hno : ¬ Climbs s.activeParent winner.parentKey late.key :=
        fun hc => hrefused (h.forest.refuses_iff.2 hc)
      rw [show s.choose late.key (late.offers.map OfferedCandidate.candidate) = .parent winner by
        simp [Store.choose, hsel, hrefused]]
      simp only [wp_bind]
      refine (applySelectedRelation_announces h hno).imp fun out s₁ happ => ?_
      split
      · exact ((Does.forEach (R := Silent) fun _ _ => Does.get.bind fun _ => recordCandidate_silent)
          _).imp fun _ s₂ h₂ => happ.silent h₂
      · simp only [wp_bind]
        refine (settlePending_silent _).imp fun _ s₂ h₂ => ?_
        exact (recordCandidate_silent _).imp fun _ s₃ h₃ => happ.silent (h₂.trans h₃)

/-! ## The transactions -/

/-- The events of the observations a call records. -/
def observationEvents (observations : List ObservationInput) (operationId : String) : List EventRow :=
  observations.map fun input =>
    { eventId := eventIdFor .observationRecorded (observationFingerprint input .adapter)
      eventType := .observationRecorded
      operationId
      payload := .observation .candidate input.adapterVersion input.evidenceKind }

theorem recordObservation_announces (input : ObservationInput) (state : ObservationState) (operationId : String)
    (s : Store) :
    wp (recordObservationAndEvent input state .candidate operationId)
      (fun _ s' => s'.outbox = announceAll s.outbox (observationEvents [input] operationId)) Benign s := by
  have hend : ∀ (s₁ : Store) (event : EventRow), s₁.outbox = s.outbox →
      wp (appendIdempotent event) (fun _ s' => s'.outbox = announce s.outbox event) Benign s₁ := fun s₁ event h₁ =>
    (appendIdempotent_announces s₁).imp fun _ _ h => h₁ ▸ h.2
  simp only [recordObservationAndEvent, wp_bind, wp_get, observationEvents, announceAll, List.map_cons,
    List.map_nil, List.foldl_cons, List.foldl_nil]
  split
  · exact hend s _ rfl
  · simp only [wp_bind, wp_pure]
    exact (insertObservation_silent s).imp fun _ s₁ h₁ => hend s₁ _ h₁.outbox

theorem recordObservations_announces (operationId : String) : ∀ (observations : List ObservationInput) (s : Store),
    wp (recordObservations observations operationId)
      (fun _ s' => s'.outbox = announceAll s.outbox (observationEvents observations operationId)) Benign s
  | [], _ => rfl
  | input :: observations, s => by
    simp only [recordObservations, Tx.collect, wp_bind, wp_pure]
    refine (recordObservation_announces input _ operationId s).imp fun _ s₁ h₁ => ?_
    refine (recordObservations_announces operationId observations s₁).imp fun _ s₂ h₂ => ?_
    exact h₂.trans (by rw [h₁]; rfl)

/-- **What the subject's transaction does to the relations and to the outbox.** -/
inductive SubjectAnnounces (threadId : Nat) (subject : ObservedEndpoint) (observations : List ObservationInput)
    (operationId : String) (s : Store) : Store → Prop where
  | evidence (s' : Store) (hk : subject.key? = none) (hr : s'.relations = s.relations)
      (ho : s'.outbox = announceAll s.outbox (observationEvents observations operationId)) :
      SubjectAnnounces threadId subject observations operationId s s'
  | subject (identity : SourceIdentityKey) (s₁ s' : Store) (hk : subject.key? = some identity)
      (hr : s₁.relations = s.relations) (hn : s.nextId ≤ s₁.nextId)
      (ho : s₁.outbox = announceAll s.outbox (observationEvents observations operationId))
      (hadopts : Announces (s.subjectKey threadId identity) operationId s₁
        (s.forecast threadId identity observations) s') :
      SubjectAnnounces threadId subject observations operationId s s'

theorem reconcileSubjectTx_announces {s : Store} (h : Sound s) {threadId : Nat} {subject : ObservedEndpoint}
    {observations : List ObservationInput} {owner : Int} {operationId : String} {now : Int} {importGuard : Bool} :
    wp (reconcileSubjectTx threadId subject observations owner operationId now importGuard)
      (fun _ s' => SubjectAnnounces threadId subject observations operationId s s') Benign s := by
  have hbody : wp (reconcileSubjectTx threadId subject observations owner operationId now false)
      (fun _ s' => SubjectAnnounces threadId subject observations operationId s s') Benign s := by
    simp only [reconcileSubjectTx, Bool.false_eq_true, if_false]
    split
    · next hk =>
      simp only [wp_bind, wp_pure]
      refine ((recordObservations_evidence s).and (recordObservations_announces operationId observations s)).mono
        (fun _ s' hout => .evidence s' hk hout.1.relations hout.2) fun _ he => he.1
    · next identity hk =>
      simp only [wp_bind]
      refine (assignSubjectKey_does s).self.imp fun key s₁ hassigned => ?_
      have hassigned : KeyAssigned threadId identity key s s₁ := hassigned
      have hmap := hassigned.mapping
      refine ((recordObservations_spec observations operationId s₁).and
        (recordObservations_announces operationId observations s₁)).mono (fun ids s₂ hrecorded => ?_)
        fun _ he => he.1
      obtain ⟨⟨h₂, hids⟩, ho⟩ := hrecorded
      have hout : wp (Tx.collect (observations.zip ids) (offerCandidate threadId subject now))
          (fun _ s' => Silent s₂ s') Benign s₂ := (Does.collect fun _ _ => offerCandidate_silent) s₂
      refine ((offerCandidates_spec threadId subject now (observations.zip ids) s₂).and hout).mono
        (fun offers s₃ hoffered => ?_) fun _ he => he.1
      obtain ⟨⟨h₃, hof⟩, hsil⟩ := hoffered
      have hs₃ : Sound s₃ := (hmap.tables h).evidence (h₂.trans h₃)
      rw [h₂.offersFrom] at hof
      have hchoice := forecast_eq hassigned (h₂.trans h₃) hids
      rw [hof]
      refine (adoptParent_announces hs₃).imp fun out s₄ hadopts => ?_
      rw [hchoice, hassigned.eq.1] at hadopts
      have hend : ∀ s', Silent s₄ s' → SubjectAnnounces threadId subject observations operationId s s' := fun s' h' =>
        .subject identity s₃ s' hk ((h₃.relations.trans h₂.relations).trans hmap.relations)
          (hmap.keeps.nextId.trans (h₂.trans h₃).nextId)
          (hsil.outbox.trans (ho.trans (congrArg (announceAll · _) (hmap.keeps.read Store.outbox fun _ => rfl))))
          (hadopts.silent h')
      split
      · simp only [wp_bind, wp_pure]
        exact (ensureSingleton_spec threadId key subject owner).imp fun _ s' hhoused => hend s' hhoused.regroups.silent
      · exact hend s₄ (refl_of _ s₄)
  cases importGuard with
  | false => exact hbody
  | true =>
    have hrun : reconcileSubjectTx threadId subject observations owner operationId now true =
        (checkImportGuard threadId subject observations >>= fun _ =>
          reconcileSubjectTx threadId subject observations owner operationId now false) := rfl
    rw [hrun, wp_bind]
    exact (checkImportGuard_spec ..).imp fun _ s₁ h₁ => h₁ ▸ hbody

/-- What late discovery of an observation is about to work on. -/
def Store.lateTarget (s : Store) (observationId : Nat) : Option LateSubject :=
  match s.findObservation observationId with
  | none => none
  | some trigger =>
    match trigger.subject.key?, trigger.candidateParent.bind SourceIdentity.key? with
    | some subject, some parent => s.lateSubject observationId subject parent
    | _, _ => none

/-- What late discovery of one observation does to the relations and to the outbox. -/
inductive LateAnnounces (observationId : Nat) (operationId : String) (s : Store) : Store → Prop where
  | nothing (hn : s.lateTarget observationId = none) : LateAnnounces observationId operationId s s
  | adopts (late : LateSubject) (s' : Store) (hlate : s.lateTarget observationId = some late)
      (hadopts : Announces late.key operationId s
        (s.choose late.key (late.offers.map OfferedCandidate.candidate)) s') :
      LateAnnounces observationId operationId s s'

theorem reconcilePendingObservation_announces {s : Store} (h : Sound s) {observationId : Nat} {operationId : String}
    {now : Int} :
    wp (reconcilePendingObservation observationId operationId now)
      (fun _ s' => LateAnnounces observationId operationId s s') Benign s := by
  simp only [reconcilePendingObservation, wp_bind, wp_get]
  split
  · next hnone => exact .nothing (by simp [Store.lateTarget, hnone])
  · next trigger htrigger =>
    split
    · next subject parent hsubject hparent =>
      have htarget : s.lateTarget observationId = s.lateSubject observationId subject parent := by
        simp [Store.lateTarget, htrigger, hsubject, hparent]
      split
      · next hlate => exact .nothing (htarget.trans hlate)
      · next late hlate =>
        exact (adoptLateParent_announces h).imp fun _ s' hadopts => .adopts late s' (htarget.trans hlate) hadopts
    · next hother =>
      refine .nothing ?_
      unfold Store.lateTarget
      rw [htrigger]
      dsimp only
      split
      · next subject parent hsubject hparent => exact (hother subject parent hsubject hparent).elim
      · rfl

end MemoryStore.ThreadGroup
