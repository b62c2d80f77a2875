/-
The read-only preview of an import (`preview_import` of
`app/src/app/thread_group/reconcile.rs`), and what `reconcile_subject` then
reports. The preview resolves the evidence's parents on its own, before the
subject has its key and its mapping, and it knows of fewer obstacles: a parent's
deletion marker, a missing key, a placeholder, a cycle and another active parent
are checked by the reconciler alone.
-/
import MemoryStore.ThreadGroup.Replay
import MemoryStore.ThreadGroup.Scenario

namespace MemoryStore.ThreadGroup

open Tx Table Forest

/-- `ImportPreview`. -/
structure ImportPreview where
  suppressed : Bool
  wouldRevive : Bool
  plannedObservations : Nat
  plannedRelations : Nat
  pending : Nat
  conflict : Bool
  deriving DecidableEq, Repr

/-- What the preview makes of one input. -/
inductive PreviewedParent where
  | nothing
  | pending
  | candidate (c : Candidate)
  deriving DecidableEq, Repr

def PreviewedParent.isPending : PreviewedParent → Bool
  | .pending => true
  | _ => false

def PreviewedParent.candidate? : PreviewedParent → Option Candidate
  | .candidate c => some c
  | _ => none

/-- The resolution of one input in `preview_import`. -/
def Store.previewParent (s : Store) (input : ObservationInput) : PreviewedParent :=
  match input.candidateParent with
  | none => .nothing
  | some parent =>
    match promotableSourceCandidate input.sourceConfidence input.relationKind input.polarity with
    | none => .nothing
    | some (confidence, relationType) =>
      match parent.key? with
      | none => .pending
      | some parentKey =>
        match s.findResolved parentKey with
        | none => .pending
        | some resolved =>
          match s.findKeyByThreadId resolved.threadId with
          | none => .nothing
          | some parentKeyRow => .candidate ⟨parentKeyRow.key, relationType, .source confidence⟩

/-- The suppression decision of a preview. -/
def Store.suppresses (s : Store) (subject : ObservedEndpoint) (explicitOverride : Bool) : Bool :=
  decideSuppression ((subject.key?.bind s.findMarker).map ThreadDeletionMarkerRow.forbidReimport) explicitOverride =
    .suppress

/-- The evidence a preview looks at: none while the import is suppressed. -/
def Store.previewed (s : Store) (subject : ObservedEndpoint) (observations : List ObservationInput)
    (explicitOverride : Bool) : List PreviewedParent :=
  if s.suppresses subject explicitOverride then [] else observations.map s.previewParent

/-- The candidates of a preview. -/
def Store.previewCandidates (s : Store) (subject : ObservedEndpoint) (observations : List ObservationInput)
    (explicitOverride : Bool) : List Candidate :=
  (s.previewed subject observations explicitOverride).filterMap PreviewedParent.candidate?

/-- What the preview makes of an offer. -/
def ParentOffer.previewed : ParentOffer → PreviewedParent
  | .nothing => .nothing
  | .pending _ => .pending
  | .offered offer => .candidate offer.candidate

theorem ParentOffer.previewed_isPending (offer : ParentOffer) : offer.previewed.isPending = offer.isPending := by
  cases offer <;> rfl

theorem ParentOffer.previewed_candidate? (offer : ParentOffer) :
    offer.previewed.candidate? = offer.candidate?.map OfferedCandidate.candidate := by cases offer <;> rfl

section Import

variable [KeyHash]

/-- The key whose placeholder an import would revive: the marker's, or the one the identity's thread has, or the
identity's own. -/
def Store.previewSubjectKey (s : Store) (subject : ObservedEndpoint) : Option Key :=
  match (subject.key?.bind s.findMarker).bind ThreadDeletionMarkerRow.threadCanonicalKey with
  | some key => some key
  | none =>
    match subject.key? with
    | none => none
    | some identityKey =>
      match s.findResolved identityKey with
      | some identity => (s.findKeyByThreadId identity.threadId).map ThreadCanonicalKeyRow.key
      | none => sourceThreadCanonicalKey subject

/-- `preview_import`. -/
def Store.previewImport (s : Store) (subject : ObservedEndpoint) (observations : List ObservationInput)
    (explicitOverride : Bool) : ImportPreview :=
  let previewed := s.previewed subject observations explicitOverride
  let (plannedRelations, conflict) :=
    match selectParentCandidate (previewed.filterMap PreviewedParent.candidate?) with
    | .selected _ => (1, false)
    | .conflict _ => (0, true)
    | .noSelection => (0, false)
  { suppressed := s.suppresses subject explicitOverride
    wouldRevive := ((s.previewSubjectKey subject).bind s.findCurrent).any (·.state.isDeleted)
    plannedObservations := observations.length
    plannedRelations
    pending := previewed.countP PreviewedParent.isPending
    conflict }

/-! ## What a reconcile reports -/

/-- The relation and the conflict a reconcile reports, by the choice it makes and the parent there is. -/
def Store.Reports (s : Store) (key : Key) : Choice → Option Nat → Bool → Prop
  | .nothing, relation, conflict => relation = none ∧ conflict = false
  | .tie, relation, conflict => relation = none ∧ conflict = true
  | .parent winner, relation, conflict =>
    match s.findActiveByChild key with
    | none => relation.isSome = true ∧ conflict = false
    | some existing =>
      if existing.parentThreadCanonicalKey = winner.parentKey ∧ existing.relationType = winner.relationType then
        relation.isSome = true ∧ conflict = false
      else relation = none ∧ conflict = true

theorem Applied.reports {e : Edge} {winner : Candidate} {s s' : Store} {out : Option Nat}
    (h : Applied e winner s out s') : s.Reports e.subjectKey (.parent winner) out out.isNone := by
  unfold Store.Reports
  cases h with
  | same existing _ hex hsame => simp [hex, hsame]
  | conflicting existing _ hex hother => simp only [hex, if_neg hother]; simp
  | adopted _ _ _ _ _ hn => simp [hn]

theorem adoptParent_reports {s : Store} (h : Sound s) {threadId : Nat} {key : Key} {subject : ObservedEndpoint}
    {offers : List OfferedCandidate} {operationId : String} {now owner : Int} :
    wp (adoptParent threadId key subject offers operationId now owner)
      (fun out _ => s.Reports key (s.choose key (offers.map OfferedCandidate.candidate)) out.1 out.2.1) Benign s := by
  unfold adoptParent
  split
  · next hsel =>
    have hchoose : s.choose key (offers.map OfferedCandidate.candidate) = .nothing := by simp [Store.choose, hsel]
    exact hchoose ▸ ⟨rfl, rfl⟩
  · next winners hsel =>
    have hchoose : s.choose key (offers.map OfferedCandidate.candidate) = .tie := choose_eq_tie.2 ⟨winners, hsel⟩
    simp only [wp_bind, wp_pure, wp_retractActiveRelation, hchoose]
    exact (recordWinners_evidence _).imp fun _ _ _ => (appendRelationEvent_evidence _).imp fun _ _ _ => ⟨rfl, rfl⟩
  · next winner hsel =>
    simp only [wp_bind, wp_get]
    split
    · next hrefused =>
      have hchoose : s.choose key (offers.map OfferedCandidate.candidate) = .nothing := by
        simp [Store.choose, hsel, hrefused]
      simp only [wp_bind, wp_pure, hchoose]
      exact (recordCandidate_evidence _).imp fun _ _ _ => ⟨rfl, rfl⟩
    · next hok =>
      have hno : ¬ Climbs s.activeParent winner.parentKey key := fun hc => hok (h.forest.refuses_iff.2 hc)
      have hchoose : s.choose key (offers.map OfferedCandidate.candidate) = .parent winner :=
        h.forest.choose_eq_parent.2 ⟨hsel, hno⟩
      simp only [hchoose]
      split
      · exact benign_bail _
      · next offer _ =>
        simp only [wp_bind]
        refine (applySelectedRelation_spec h hno).imp fun out s₁ happ => ?_
        split
        · simp only [wp_bind, wp_get, wp_pure]
          exact (resolvePending_evidence _).imp fun _ _ _ => happ.reports
        · exact happ.reports

/-- The evidence that waits for its parent once the subject is mapped. -/
def Store.waiting (s : Store) (threadId : Nat) (identity : SourceIdentityKey) (input : ObservationInput) : Bool :=
  ((s.mapped threadId identity).offerOf input 0).isPending

theorem offerOf_isPending (s : Store) (input : ObservationInput) (id : Nat) :
    (s.offerOf input id).isPending = (s.offerOf input 0).isPending := by
  simp only [Store.offerOf]
  repeat' split
  all_goals rfl

theorem countP_offers (s : Store) : ∀ {observations : List ObservationInput} {ids : List Nat},
    ids.length = observations.length →
      ((observations.zip ids).map fun input => s.offerOf input.1 input.2).countP ParentOffer.isPending =
        observations.countP fun input => (s.offerOf input 0).isPending
  | [], _, _ => rfl
  | input :: observations, [], h => by simp at h
  | input :: observations, id :: ids, h => by
    rw [List.zip_cons_cons, List.map_cons, List.countP_cons, List.countP_cons, offerOf_isPending,
      countP_offers s (by simpa using h)]

/-- **What a reconcile reports**, read off the store before it. -/
theorem reconcileSubjectTx_reports {s : Store} (h : Sound s) {threadId : Nat} {subject : ObservedEndpoint}
    {identity : SourceIdentityKey} (hk : subject.key? = some identity) {observations : List ObservationInput}
    {owner : Int} {operationId : String} {now : Int} :
    wp (reconcileSubjectTx threadId subject observations owner operationId now false)
      (fun out _ => out.1.pending = observations.countP (s.waiting threadId identity) ∧
        s.Reports (s.subjectKey threadId identity) (s.forecast threadId identity observations)
          out.1.relationSelected out.1.conflict) Benign s := by
  simp only [reconcileSubjectTx, Bool.false_eq_true, if_false]
  split
  · next hnone => simp [hnone] at hk
  · next identity' hk' =>
    obtain rfl : identity = identity' := Option.some.inj (hk.symm.trans hk')
    simp only [wp_bind]
    refine (assignSubjectKey_does s).self.imp fun key s₁ hassigned => ?_
    have hassigned : KeyAssigned threadId identity key s s₁ := hassigned
    refine (recordObservations_spec observations operationId s₁).imp fun ids s₂ ⟨h₂, hids⟩ => ?_
    refine (offerCandidates_offers threadId subject now (observations.zip ids) s₂).imp fun offers s₃ ⟨h₃, ho⟩ => ?_
    have hs₃ : Sound s₃ := ((KeyAssigned.mapping hassigned).tables h).evidence (h₂.trans h₃)
    have hoffers : offers.filterMap ParentOffer.candidate? = s₁.offersFrom (observations.zip ids) := by
      rw [← h₂.offersFrom, ho, List.filterMap_map]
      rfl
    have hpending : offers.countP ParentOffer.isPending = observations.countP (s.waiting threadId identity) := by
      rw [ho, countP_offers s₂ hids]
      unfold Store.waiting
      rw [← hassigned.eq.2]
      exact List.countP_congr fun input _ => by
        rw [h₂.read (fun s => s.offerOf input 0) fun _ => rfl]
    have hrel : s₃.relations = s.relations := (EvidenceOnly.relations (h₂.trans h₃)).trans hassigned.mapping.relations
    refine (adoptParent_reports hs₃).imp fun out s₄ hreports => ?_
    rw [hoffers, forecast_eq hassigned (h₂.trans h₃) hids] at hreports
    have hresult : s.Reports (s.subjectKey threadId identity) (s.forecast threadId identity observations) out.1
        out.2.1 := by
      rw [← hassigned.eq.1]
      unfold Store.Reports at hreports ⊢
      rwa [findActiveByChild_congr hrel] at hreports
    split
    · simp only [wp_bind, wp_pure]
      exact (ensureSingleton_spec threadId key subject owner).imp fun _ _ _ => ⟨hpending, hresult⟩
    · exact ⟨hpending, hresult⟩

/-! ## Agreement -/

/-- The counts and the flag a preview and a report have in common. -/
def ImportPreview.Agrees (preview : ImportPreview) (outcome : ReconciliationOutcome) : Prop :=
  preview.plannedRelations = (if outcome.relationSelected.isSome then 1 else 0) ∧
    preview.pending = outcome.pending ∧ preview.conflict = outcome.conflict

instance ImportPreview.decidableAgrees (preview : ImportPreview) (outcome : ReconciliationOutcome) :
    Decidable (preview.Agrees outcome) := by
  unfold ImportPreview.Agrees; infer_instance

/-- The evidence that waits for its parent in the preview. -/
def Store.previewWaits (s : Store) (subject : ObservedEndpoint) (explicitOverride : Bool) (input : ObservationInput) :
    Bool := !s.suppresses subject explicitOverride && (s.previewParent input).isPending

/-- The subject has an active parent, and it is not this one. -/
def Store.Contradicts (s : Store) (key : Key) (winner : Candidate) : Prop :=
  ∃ existing, s.findActiveByChild key = some existing ∧
    ¬ (existing.parentThreadCanonicalKey = winner.parentKey ∧ existing.relationType = winner.relationType)

/-- The parent the reconciler settles on, next to what the preview selects: a selected parent is one the reconciler
applies and no active parent contradicts; a conflict is a tie, or an active parent that is contradicted; and where
nothing is selected, nothing is applied. -/
def Store.SelectionForeseen (s : Store) (key : Key) (selection : CandidateSelection) (choice : Choice) : Prop :=
  match selection with
  | .noSelection => choice = .nothing
  | .conflict _ => choice = .tie ∨ ∃ winner, choice = .parent winner ∧ s.Contradicts key winner
  | .selected _ => ∃ winner, choice = .parent winner ∧ ¬ s.Contradicts key winner

/-- **Foreseen.** As much evidence waits in the preview alone as in the reconcile alone, and the parent the preview
selects among its candidates is what the reconciler settles on. -/
structure Store.Foreseen (s : Store) (threadId : Nat) (identity : SourceIdentityKey) (subject : ObservedEndpoint)
    (observations : List ObservationInput) (explicitOverride : Bool) : Prop where
  waits : observations.countP (fun input => s.previewWaits subject explicitOverride input && !s.waiting threadId identity input) =
    observations.countP (fun input => s.waiting threadId identity input && !s.previewWaits subject explicitOverride input)
  parent : s.SelectionForeseen (s.subjectKey threadId identity)
    (selectParentCandidate (s.previewCandidates subject observations explicitOverride))
    (s.forecast threadId identity observations)

theorem countP_sub {α : Type} (p q : α → Bool) : ∀ l : List α,
    l.countP p + l.countP (fun a => q a && !p a) = l.countP q + l.countP (fun a => p a && !q a)
  | [] => rfl
  | a :: l => by
    have ih := countP_sub p q l
    simp only [List.countP_cons]
    cases p a <;> cases q a <;> simp <;> omega

theorem previewImport_pending (s : Store) (subject : ObservedEndpoint) (observations : List ObservationInput)
    (explicitOverride : Bool) : (s.previewImport subject observations explicitOverride).pending =
      observations.countP (s.previewWaits subject explicitOverride) := by
  have hcount : (s.previewed subject observations explicitOverride).countP PreviewedParent.isPending =
      observations.countP (s.previewWaits subject explicitOverride) := by
    unfold Store.previewed Store.previewWaits
    cases s.suppresses subject explicitOverride with
    | true => simp
    | false => simp [List.countP_map, Function.comp_def]
  simpa only [Store.previewImport] using hcount

/-- What a preview says of the parent it selects. -/
theorem previewImport_selection (s : Store) (subject : ObservedEndpoint) (observations : List ObservationInput)
    (explicitOverride : Bool) :
    ((s.previewImport subject observations explicitOverride).plannedRelations,
      (s.previewImport subject observations explicitOverride).conflict) =
      match selectParentCandidate (s.previewCandidates subject observations explicitOverride) with
      | .selected _ => (1, false)
      | .conflict _ => (0, true)
      | .noSelection => (0, false) := rfl

/-- The flags agree exactly when the selection is foreseen. -/
theorem selectionForeseen_iff {s : Store} {key : Key} {choice : Choice} {selection : CandidateSelection}
    {relation : Option Nat} {conflict : Bool} (hr : s.Reports key choice relation conflict) {planned : Nat}
    {conflicting : Bool}
    (hp : (planned, conflicting) = match selection with
      | .selected _ => (1, false)
      | .conflict _ => (0, true)
      | .noSelection => (0, false)) :
    (planned = (if relation.isSome then 1 else 0) ∧ conflicting = conflict) ↔
      s.SelectionForeseen key selection choice := by
  have hcases : (choice = .nothing ∧ relation = none ∧ conflict = false) ∨
      (choice = .tie ∧ relation = none ∧ conflict = true) ∨
      ∃ winner, choice = .parent winner ∧
        ((s.Contradicts key winner ∧ relation = none ∧ conflict = true) ∨
          (¬ s.Contradicts key winner ∧ relation.isSome = true ∧ conflict = false)) := by
    cases choice with
    | nothing => exact .inl ⟨rfl, hr⟩
    | tie => exact .inr (.inl ⟨rfl, hr⟩)
    | parent winner =>
      refine .inr (.inr ⟨winner, rfl, ?_⟩)
      unfold Store.Reports at hr
      unfold Store.Contradicts
      cases hex : s.findActiveByChild key with
      | none => simp only [hex] at hr; exact .inr ⟨by simp, hr⟩
      | some existing =>
        simp only [hex] at hr
        split at hr
        · next hsame => exact .inr ⟨by simp [hsame], hr⟩
        · next hother => exact .inl ⟨⟨existing, rfl, hother⟩, hr⟩
  unfold Store.SelectionForeseen
  rcases hcases with ⟨rfl, rfl, rfl⟩ | ⟨rfl, rfl, rfl⟩ | ⟨winner, rfl, ⟨hc, rfl, rfl⟩ | ⟨hc, hsome, rfl⟩⟩ <;>
    cases selection <;> simp_all

/-! ## Plain imports -/

section Mapped

variable (s : Store) (threadId : Nat) (identity : SourceIdentityKey)

theorem mapped_findMarker (k : SourceIdentityKey) : (s.mapped threadId identity).findMarker k = s.findMarker k := by
  unfold Store.mapped Store.mapSource
  split <;> split <;> rfl

theorem mapped_findResolved_of_ne {k : SourceIdentityKey} (hk : k ≠ identity) :
    (s.mapped threadId identity).findResolved k = s.findResolved k := by
  have hsource : ∀ t : Store, (t.mapSource threadId identity).findResolved k = t.findResolved k := fun t => by
    unfold Store.mapSource Store.findResolved
    split
    · simp only
      rw [find?_modifyWhere_key SourceThreadIdentityRow.identity
        (f := fun row : SourceThreadIdentityRow => { row with threadId }) (fun _ _ => rfl)]
      cases hfind : t.sourceIdentities.find? (fun row => row.identity = k) with
      | none => rfl
      | some row =>
        have hid : row.identity = k := by simpa using List.find?_some hfind
        simp [hid, hk]
    · simp [List.find?_append, Ne.symm hk]
  unfold Store.mapped
  split
  · exact hsource s
  · exact (hsource _).trans rfl

theorem mapped_findKey_of_ne {t : Nat} (ht : t ≠ threadId) :
    (s.mapped threadId identity).findKeyByThreadId t = s.findKeyByThreadId t := by
  have hsource : ∀ s' : Store, (s'.mapSource threadId identity).findKeyByThreadId t = s'.findKeyByThreadId t :=
    fun s' => by
      unfold Store.mapSource
      split <;> rfl
  unfold Store.mapped
  split
  · exact hsource s
  · refine (hsource _).trans ?_
    simp [Store.findKeyByThreadId, List.find?_append, Ne.symm ht]

end Mapped

/-- A parent an import finds the way it is: another identity than the subject's, in another thread if in any, and
then without a deletion marker, with a key, and not a placeholder. -/
structure Store.PlainParent (s : Store) (threadId : Nat) (identity parent : SourceIdentityKey) : Prop where
  other : parent ≠ identity
  resolved : ∀ row, s.findResolved parent = some row → row.threadId ≠ threadId ∧ s.findMarker parent = none ∧
    ∃ key, s.findKeyByThreadId row.threadId = some key ∧ (s.findCurrent key.key).any (·.state.isDeleted) = false

/-- An import that nothing holds up: it is not suppressed, the parents of its evidence are found the way they are, and
the parent selected is neither the subject nor below it, and contradicts no active parent. -/
structure Store.PlainImport (s : Store) (threadId : Nat) (identity : SourceIdentityKey) (subject : ObservedEndpoint)
    (observations : List ObservationInput) (explicitOverride : Bool) : Prop where
  allowed : s.suppresses subject explicitOverride = false
  parents : ∀ input ∈ observations,
    (promotableSourceCandidate input.sourceConfidence input.relationKind input.polarity).isSome = true →
    ∀ parent ∈ input.candidateParent, ∀ key ∈ parent.key?, s.PlainParent threadId identity key
  selected : ∀ winner, selectParentCandidate (s.previewCandidates subject observations explicitOverride) =
      .selected winner → winner.parentKey ≠ s.subjectKey threadId identity ∧
    s.ancestorContains winner.parentKey (s.subjectKey threadId identity) = false ∧
    ¬ s.Contradicts (s.subjectKey threadId identity) winner

/-- A plain parent is offered as it was previewed. -/
theorem Store.PlainImport.previewParent {s : Store} {threadId : Nat} {identity : SourceIdentityKey}
    {input : ObservationInput}
    (h : (promotableSourceCandidate input.sourceConfidence input.relationKind input.polarity).isSome = true →
      ∀ parent ∈ input.candidateParent, ∀ key ∈ parent.key?, s.PlainParent threadId identity key) :
    s.previewParent input = ((s.mapped threadId identity).offerOf input 0).previewed := by
  unfold Store.previewParent Store.offerOf
  cases hparent : input.candidateParent with
  | none => rfl
  | some parent =>
    cases hprom : promotableSourceCandidate input.sourceConfidence input.relationKind input.polarity with
    | none => rfl
    | some promoted =>
      obtain ⟨confidence, relationType⟩ := promoted
      cases hkey : parent.key? with
      | none => simp only [hkey]; rfl
      | some key =>
        have hplain := h (by simp [hprom]) parent hparent key hkey
        simp only [hkey, mapped_findResolved_of_ne s threadId identity hplain.other, mapped_findMarker]
        cases hres : s.findResolved key with
        | none => rfl
        | some row =>
          obtain ⟨hne, hmarker, keyRow, hkeyRow, hlive⟩ := hplain.resolved row hres
          simp [mapped_findKey_of_ne s threadId identity hne, hmarker, hkeyRow, mapped_findCurrent, hlive,
            ParentOffer.previewed]

/-- **A plain import is foreseen.** -/
theorem Store.PlainImport.foreseen {s : Store} {threadId : Nat} {identity : SourceIdentityKey}
    {subject : ObservedEndpoint} {observations : List ObservationInput} {explicitOverride : Bool}
    (h : s.PlainImport threadId identity subject observations explicitOverride) :
    s.Foreseen threadId identity subject observations explicitOverride := by
  have hparent : ∀ input ∈ observations,
      s.previewParent input = ((s.mapped threadId identity).offerOf input 0).previewed := fun input hinput =>
    PlainImport.previewParent (h.parents input hinput)
  have hwaits : ∀ input ∈ observations,
      s.previewWaits subject explicitOverride input = s.waiting threadId identity input := fun input hinput => by
    simp [Store.previewWaits, h.allowed, hparent input hinput, ParentOffer.previewed_isPending, Store.waiting]
  have hcandidates : s.previewCandidates subject observations explicitOverride =
      (s.mapped threadId identity).candidatesFrom observations := by
    simp only [Store.previewCandidates, Store.previewed, h.allowed, Bool.false_eq_true, if_false, List.filterMap_map,
      Store.candidatesFrom]
    exact List.filterMap_congr fun input hinput => by
      rw [Function.comp_apply, hparent input hinput, ParentOffer.previewed_candidate?]
  refine ⟨?_, ?_⟩
  · exact List.countP_congr fun input hinput => by rw [hwaits input hinput]
  · have hsel := h.selected
    rw [hcandidates] at hsel ⊢
    unfold Store.SelectionForeseen Store.forecast Store.choose
    cases hs : selectParentCandidate ((s.mapped threadId identity).candidatesFrom observations) with
    | noSelection => rfl
    | conflict winners => exact .inl rfl
    | selected winner =>
      obtain ⟨hne, hanc, hno⟩ := hsel winner hs
      exact ⟨winner, by simp [hne, hanc], hno⟩

end Import

end MemoryStore.ThreadGroup
