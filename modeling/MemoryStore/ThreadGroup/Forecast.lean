/-
What the subject's transaction is going to decide, read off the store before
it: the key the subject gets, the candidates its evidence offers once its
identity is mapped to its thread, and the parent chosen among them.
-/
import MemoryStore.ThreadGroup.Stability

namespace MemoryStore.ThreadGroup

open Tx Forest

/-- What becomes of a list of candidates: no parent, a tie, or one parent to apply. -/
inductive Choice where
  | nothing
  | tie
  | parent (winner : Candidate)
  deriving DecidableEq, Repr

/-- The choice among the candidates of a key: a selected parent that is the key
itself, or descends from it, is refused. -/
def Store.choose (s : Store) (key : Key) (candidates : List Candidate) : Choice :=
  match selectParentCandidate candidates with
  | .noSelection => .nothing
  | .conflict _ => .tie
  | .selected winner =>
    if winner.parentKey = key || s.ancestorContains winner.parentKey key then .nothing else .parent winner

/-- The candidates of a list of inputs. -/
def Store.candidatesFrom (s : Store) (observations : List ObservationInput) : List Candidate :=
  observations.filterMap fun input => (s.offerOf input 0).candidate?.map OfferedCandidate.candidate

/-- The store once an identity is mapped to a thread. -/
def Store.mapSource (s : Store) (threadId : Nat) (identity : SourceIdentityKey) : Store :=
  if (s.findResolved identity).isSome then
    { s with
        sourceIdentities := Table.modifyWhere (fun row => row.identity = identity)
          (fun row => { row with threadId }) s.sourceIdentities }
  else { s with sourceIdentities := s.sourceIdentities ++ [⟨identity, threadId⟩] }

theorem offerOf_candidate? (s : Store) (input : ObservationInput) (id : Nat) :
    (s.offerOf input id).candidate?.map OfferedCandidate.candidate =
      (s.offerOf input 0).candidate?.map OfferedCandidate.candidate := by
  simp only [Store.offerOf]
  split
  · rfl
  · split
    · rfl
    · split
      · rfl
      · split
        · rfl
        · split
          · rfl
          · split
            · rfl
            · split <;> rfl

/-- The ids under which evidence is stored do not matter to the candidates. -/
theorem offersFrom_candidates (s : Store) : ∀ {observations : List ObservationInput} {ids : List Nat},
    ids.length = observations.length →
      (s.offersFrom (observations.zip ids)).map OfferedCandidate.candidate = s.candidatesFrom observations
  | [], _, _ => rfl
  | input :: observations, [], h => by simp at h
  | input :: observations, id :: ids, h => by
    have ih : (s.offersFrom (observations.zip ids)).map OfferedCandidate.candidate = s.candidatesFrom observations :=
      offersFrom_candidates s (by simpa using h)
    have hc := offerOf_candidate? s input id
    simp only [Store.offersFrom, Store.candidatesFrom, List.zip_cons_cons, List.filterMap_cons] at ih ⊢
    cases ho : (s.offerOf input id).candidate? with
    | none =>
      rw [ho, Option.map_none] at hc
      simpa [← hc] using ih
    | some offer =>
      rw [ho, Option.map_some] at hc
      simpa [← hc] using ih

theorem findActiveByChild_congr {s s' : Store} (h : s'.relations = s.relations) (k : Key) :
    s'.findActiveByChild k = s.findActiveByChild k := by
  unfold Store.findActiveByChild
  rw [h]

variable [KeyHash]

/-- The key of a subject: the one its thread has, or the one of its identity. -/
def Store.subjectKey (s : Store) (threadId : Nat) (identity : SourceIdentityKey) : Key :=
  match s.findKeyByThreadId threadId with
  | some row => row.key
  | none => identity.canonicalKey

/-- The store once the subject has its key and its identity is mapped to its thread. -/
def Store.mapped (s : Store) (threadId : Nat) (identity : SourceIdentityKey) : Store :=
  match s.findKeyByThreadId threadId with
  | some _ => s.mapSource threadId identity
  | none =>
    Store.mapSource { s with
      canonicalKeys := s.canonicalKeys ++ [⟨threadId, identity.userId, identity.canonicalKey, .sourceIdentity⟩] }
      threadId identity

theorem KeyAssigned.eq {threadId : Nat} {identity : SourceIdentityKey} {key : Key} {s s' : Store}
    (h : KeyAssigned threadId identity key s s') : key = s.subjectKey threadId identity ∧ s' = s.mapped threadId identity := by
  have hspec : wp (assignSubjectKey threadId identity)
      (fun key s' => key = s.subjectKey threadId identity ∧ s' = s.mapped threadId identity) (fun _ => True) s := by
    simp only [assignSubjectKey, wp_bind, wp_get, Store.subjectKey, Store.mapped]
    split
    · next row hrow => simp [upsertResolved, Store.mapSource, hrow]
    · next hrow =>
      simp only [assignKey, wp_bind, wp_get, wp_ensure, wp_writes, wp_pure, upsertResolved, Store.mapSource, hrow]
      simp
  exact hspec.ok h

/-- What the subject's transaction is going to decide about the subject's parent. -/
def Store.forecast (s : Store) (threadId : Nat) (identity : SourceIdentityKey)
    (observations : List ObservationInput) : Choice :=
  s.choose (s.subjectKey threadId identity) ((s.mapped threadId identity).candidatesFrom observations)

section Adopts

variable {s s' : Store} {threadId : Nat} {key : Key} {subject : ObservedEndpoint} {offers : List OfferedCandidate}
  {owner : Int}

theorem RelationForest.choose_eq_parent (h : RelationForest s) {candidates : List Candidate} {winner : Candidate} :
    s.choose key candidates = .parent winner ↔
      selectParentCandidate candidates = .selected winner ∧ ¬ Climbs s.activeParent winner.parentKey key := by
  unfold Store.choose
  cases hsel : selectParentCandidate candidates with
  | noSelection => simp
  | conflict => simp
  | selected w =>
    by_cases hc : Climbs s.activeParent w.parentKey key
    · have := h.refuses_iff.2 hc
      simp only [this, if_true, reduceCtorEq, CandidateSelection.selected.injEq, false_iff, not_and, not_not]
      rintro rfl
      exact hc
    · have : ¬ (decide (w.parentKey = key) || s.ancestorContains w.parentKey key) = true := fun hr =>
        hc (h.refuses_iff.1 hr)
      simp only [this, Bool.false_eq_true, if_false, Choice.parent.injEq, CandidateSelection.selected.injEq]
      constructor
      · rintro rfl
        exact ⟨rfl, hc⟩
      · rintro ⟨he, -⟩
        exact he

theorem choose_eq_tie {candidates : List Candidate} :
    s.choose key candidates = .tie ↔ ∃ winners, selectParentCandidate candidates = .conflict winners := by
  unfold Store.choose
  cases selectParentCandidate candidates with
  | noSelection => simp
  | conflict => simp
  | selected w =>
    dsimp only
    split <;> simp

/-- **What adopting a parent does, by the choice**: nothing to the tables, a retraction, or an application. -/
theorem Adopts.by_choice (h : Adopts threadId key subject offers owner s s') (hf : RelationForest s) :
    (s.choose key (offers.map OfferedCandidate.candidate) = .nothing ∧ EvidenceOnly s s') ∨
    (s.choose key (offers.map OfferedCandidate.candidate) = .tie ∧ EvidenceOnly (s.retracted key) s') ∨
    ∃ winner offer out s₁, s.choose key (offers.map OfferedCandidate.candidate) = .parent winner ∧
      offerFor offers winner = some offer ∧
      Applied (s.selectedEdge threadId key subject offer.parent winner owner) winner s out s₁ ∧ EvidenceOnly s₁ s' := by
  cases h with
  | unselected h => exact .inl ⟨by simp [Store.choose, h], refl_of _ s⟩
  | tied winners _ h hev => exact .inr (.inl ⟨choose_eq_tie.2 ⟨winners, h⟩, hev⟩)
  | refused winner _ h hc hev =>
    refine .inl ⟨?_, hev⟩
    have := hf.refuses_iff.2 hc
    simp [Store.choose, h, this]
  | applied winner offer out s₁ _ h hno hoffer happ hev =>
    exact .inr (.inr ⟨winner, offer, out, s₁, hf.choose_eq_parent.2 ⟨h, hno⟩, hoffer, happ, hev⟩)

end Adopts

/-- The choice made inside the transaction is the one forecast before it. -/
theorem forecast_eq {s s₁ s₂ : Store} {threadId : Nat} {identity : SourceIdentityKey} {key : Key}
    {observations : List ObservationInput} {ids : List Nat} (hassigned : KeyAssigned threadId identity key s s₁)
    (hev : EvidenceOnly s₁ s₂) (hids : ids.length = observations.length) :
    s₂.choose key ((s₁.offersFrom (observations.zip ids)).map OfferedCandidate.candidate) =
      s.forecast threadId identity observations := by
  obtain ⟨hkey, hs₁⟩ := hassigned.eq
  have hrel : s₂.relations = s.relations := hev.relations.trans hassigned.mapping.relations
  have hanc : ∀ start, s₂.ancestorContains start key = s.ancestorContains start key := fun start => by
    have hpar : s₂.activeParent = s.activeParent := funext fun k => by
      simp [Store.activeParent, findActiveByChild_congr hrel]
    simp [Store.ancestorContains, Store.ancestorWalk, Store.walkSteps, hrel, hpar]
  rw [offersFrom_candidates s₁ hids, Store.forecast, ← hkey, ← hs₁, Store.choose, Store.choose]
  simp only [hanc]

end MemoryStore.ThreadGroup
