/-
The candidate associations over runs: one at most for each subject and
observation, and a state that only moves on. The steps of the reconciler share
one lemma about what they can do to the associations (`Evolves`); of the other
steps only a decision writes to them.
-/
import MemoryStore.ThreadGroup.ActionOutcome
import MemoryStore.ThreadGroup.Scenario

namespace MemoryStore.ThreadGroup

open Tx Table

/-! ## States -/

/-- The moves of the reconciler: a pending association becomes a candidate or a conflict, a candidate a conflict. -/
inductive CandidateState.Advances : CandidateState → CandidateState → Prop where
  | stays (state : CandidateState) : Advances state state
  | resolved : Advances .pending .candidate
  | refused : Advances .pending .conflict
  | contested : Advances .candidate .conflict

namespace CandidateState.Advances

variable {a b c : CandidateState}

theorem trans (h : a.Advances b) (h' : b.Advances c) : a.Advances c := by
  cases h with
  | stays => exact h'
  | resolved => cases h' with
    | stays => exact .resolved
    | contested => exact .refused
  | refused => cases h' with
    | stays => exact .refused
  | contested => cases h' with
    | stays => exact .contested

theorem antisymm (h : a.Advances b) (h' : b.Advances a) : a = b := by
  cases h <;> cases h'
  rfl

end CandidateState.Advances

/-! ## Rows -/

namespace CandidateAssociationRow

/-- What an association is about. -/
def association (row : CandidateAssociationRow) : ObservedEndpoint × Option Nat :=
  (row.subject, row.selectedObservationId)

/-- The same association later on. It is untouched unless it was pending or has moved. -/
structure Follows (row row' : CandidateAssociationRow) : Prop where
  id : row'.id = row.id
  association : row'.association = row.association
  subjectThreadId : row'.subjectThreadId = row.subjectThreadId
  state : row.state.Advances row'.state
  untouched : row.state ≠ .pending → row'.state = row.state → row' = row

variable {row row' row'' : CandidateAssociationRow}

theorem Follows.refl (row : CandidateAssociationRow) : row.Follows row :=
  ⟨rfl, rfl, rfl, .stays _, fun _ _ => rfl⟩

theorem Follows.trans (h : row.Follows row') (h' : row'.Follows row'') : row.Follows row'' where
  id := h'.id.trans h.id
  association := h'.association.trans h.association
  subjectThreadId := h'.subjectThreadId.trans h.subjectThreadId
  state := h.state.trans h'.state
  untouched hpending hsame := by
    have hback : row'.state.Advances row.state := hsame ▸ h'.state
    have hmid : row'.state = row.state := hback.antisymm h.state
    have hrow := h.untouched hpending hmid
    rw [← hrow]
    exact h'.untouched (by rw [hmid]; exact hpending) (by rw [hsame, hmid])

/-- A settled association is what it was. -/
theorem Follows.settled (h : row.Follows row') (hstate : row.state.settled = true) : row' = row := by
  refine h.untouched (fun hp => by simp [hp, CandidateState.settled] at hstate) ?_
  have hadvances := h.state
  generalize row'.state = state', row.state = state at hadvances hstate
  cases hadvances with
  | stays => rfl
  | _ => simp [CandidateState.settled] at hstate

end CandidateAssociationRow

/-! ## Stores -/

/-- One association at most for each subject and observation. -/
def Store.OneEach (s : Store) : Prop := (s.candidates.map CandidateAssociationRow.association).Nodup

/-- Associations with their keys: that, and ids drawn once. -/
structure Store.Associated (s : Store) : Prop where
  each : s.OneEach
  ids : (s.candidates.map CandidateAssociationRow.id).Nodup
  id_lt : ∀ row ∈ s.candidates, row.id < s.nextId

/-- **What a step of the reconciler does to the associations**: it moves them on, and adds some for subjects and
observations that had none. -/
structure Store.Evolves (s s' : Store) : Prop where
  kept : ∀ row ∈ s.candidates, ∃ row' ∈ s'.candidates, row.Follows row'
  old : ∀ row' ∈ s'.candidates, (∃ row ∈ s.candidates, row.Follows row') ∨
    ∀ row ∈ s.candidates, row.association ≠ row'.association
  keys : s.Associated → s'.Associated

section Evolves

variable {s s' s'' : Store}

theorem Store.Evolves.of_same (h : s'.candidates = s.candidates) (hn : s.nextId ≤ s'.nextId) : s.Evolves s' where
  kept row hrow := ⟨row, h ▸ hrow, .refl row⟩
  old row' hrow' := .inl ⟨row', h ▸ hrow', .refl row'⟩
  keys hs := ⟨by rw [Store.OneEach, h]; exact hs.each, by rw [h]; exact hs.ids,
    fun row hrow => (hs.id_lt row (h ▸ hrow)).trans_le hn⟩

theorem Store.Evolves.trans (h : s.Evolves s') (h' : s'.Evolves s'') : s.Evolves s'' where
  kept row hrow := by
    obtain ⟨row', hrow', hf⟩ := h.kept row hrow
    obtain ⟨row'', hrow'', hf'⟩ := h'.kept row' hrow'
    exact ⟨row'', hrow'', hf.trans hf'⟩
  old row'' hrow'' := by
    rcases h'.old row'' hrow'' with ⟨row', hrow', hf'⟩ | hnew
    · rcases h.old row' hrow' with ⟨row, hrow, hf⟩ | hnew
      · exact .inl ⟨row, hrow, hf.trans hf'⟩
      · exact .inr fun row hrow => by rw [hf'.association]; exact hnew row hrow
    · refine .inr fun row hrow => ?_
      obtain ⟨row', hrow', hf⟩ := h.kept row hrow
      rw [← hf.association]
      exact hnew row' hrow'
  keys hs := h'.keys (h.keys hs)

instance : Std.Refl Store.Evolves := ⟨fun _ => .of_same rfl le_rfl⟩

instance : IsTrans Store Store.Evolves := ⟨fun _ _ _ => .trans⟩

/-- A program that only evolves the associations. -/
abbrev Evolving {α : Type} (m : StoreTx α) : Prop := Does Store.Evolves (fun _ => True) m

theorem generateId_evolving : Evolving generateId := fun s => .of_same rfl (Nat.le_succ s.nextId)

/-! ## Associations -/

/-- An update of rows that keeps what they are about. -/
theorem Store.Associated.modify_mem (hs : s.Associated) {p : CandidateAssociationRow → Bool}
    {f : CandidateAssociationRow → CandidateAssociationRow}
    (h : ∀ row ∈ s.candidates, p row = true → (f row).id = row.id ∧ (f row).association = row.association) :
    ({ s with candidates := modifyWhere p f s.candidates } : Store).Associated where
  each := by
    have hmap : (modifyWhere p f s.candidates).map CandidateAssociationRow.association =
        s.candidates.map CandidateAssociationRow.association := by
      unfold modifyWhere
      rw [List.map_map]
      refine List.map_congr_left fun row hrow => ?_
      by_cases hp : p row = true <;> simp [hp, (h row hrow · |>.2)]
    unfold Store.OneEach
    rw [hmap]
    exact hs.each
  ids := by
    have hmap : (modifyWhere p f s.candidates).map CandidateAssociationRow.id =
        s.candidates.map CandidateAssociationRow.id := by
      unfold modifyWhere
      rw [List.map_map]
      refine List.map_congr_left fun row hrow => ?_
      by_cases hp : p row = true <;> simp [hp, (h row hrow · |>.1)]
    rw [hmap]
    exact hs.ids
  id_lt row' hrow' := by
    obtain ⟨row, hrow, rfl⟩ := mem_modifyWhere.1 hrow'
    split
    · next hp => exact (h row hrow hp).1 ▸ hs.id_lt row hrow
    · exact hs.id_lt row hrow

/-- An update that moves associations on. -/
theorem Store.Evolves.modify {p : CandidateAssociationRow → Bool} {f : CandidateAssociationRow → CandidateAssociationRow}
    (h : ∀ row, p row = true → row.Follows (f row)) :
    s.Evolves { s with candidates := modifyWhere p f s.candidates } where
  kept row hrow := by
    refine ⟨_, mem_modifyWhere.2 ⟨row, hrow, rfl⟩, ?_⟩
    split
    · next hp => exact h row hp
    · exact .refl row
  old row' hrow' := by
    obtain ⟨row, hrow, rfl⟩ := mem_modifyWhere.1 hrow'
    refine .inl ⟨row, hrow, ?_⟩
    split
    · next hp => exact h row hp
    · exact .refl row
  keys hs := hs.modify_mem fun row _ hp => ⟨(h row hp).id, (h row hp).association⟩

/-- An association inserted where there was none. -/
theorem Store.Evolves.insert {row : CandidateAssociationRow} (hid : row.id = s.nextId)
    (hnew : ∀ other ∈ s.candidates, other.association ≠ row.association) :
    s.Evolves { s with candidates := s.candidates ++ [row], nextId := s.nextId + 1 } where
  kept other hother := ⟨other, List.mem_append_left _ hother, .refl other⟩
  old row' hrow' := by
    rcases List.mem_append.1 hrow' with hrow' | hrow'
    · exact .inl ⟨row', hrow', .refl row'⟩
    · exact .inr (List.mem_singleton.1 hrow' ▸ hnew)
  keys hs :=
    { each := by
        unfold Store.OneEach
        rw [List.map_append]
        refine List.nodup_append.2 ⟨hs.each, List.nodup_singleton _, fun a ha b hb he => ?_⟩
        obtain ⟨other, hother, rfl⟩ := List.mem_map.1 ha
        exact hnew other hother (he.trans (List.mem_singleton.1 hb))
      ids := by
        rw [List.map_append]
        refine List.nodup_append.2 ⟨hs.ids, List.nodup_singleton _, fun a ha b hb he => ?_⟩
        obtain ⟨other, hother, rfl⟩ := List.mem_map.1 ha
        have hlt := hs.id_lt other hother
        have hb' : b = row.id := List.mem_singleton.1 hb
        omega
      id_lt := fun row' hrow' => by
        show row'.id < s.nextId + 1
        rcases List.mem_append.1 hrow' with hrow' | hrow'
        · have hlt := hs.id_lt row' hrow'
          omega
        · obtain rfl := List.mem_singleton.1 hrow'
          omega }

variable {subjectThreadId : Nat} {subject : ObservedEndpoint} {now : Int}

theorem follows_of_mayBecome {row : CandidateAssociationRow} {state : CandidateState} {parent : Option Nat}
    (hstate : CandidateState.Advances .pending state) (h : mayBecome row.state state = true) :
    row.Follows { row with state, candidateParentThreadId := parent, updatedAt := now } := by
  unfold mayBecome at h
  rw [Bool.or_eq_true, Bool.and_eq_true, decide_eq_true_eq, decide_eq_true_eq, decide_eq_true_eq] at h
  rcases h with h | ⟨rfl, h⟩
  · exact ⟨rfl, rfl, rfl, h.symm ▸ hstate, fun hpending => absurd h hpending⟩
  · refine ⟨rfl, rfl, rfl, h.symm ▸ .contested, fun _ hsame => ?_⟩
    rw [h] at hsame
    simp at hsame

theorem updateCandidateState_evolving {id : Nat} {expected state : CandidateState} {parent : Option Nat}
    (hstate : CandidateState.Advances .pending state) (h : mayBecome expected state = true) :
    Evolving (updateCandidateState id expected state parent now) :=
  Does.get.bind fun _ => (Does.writes fun _ => .modify fun row hp => by
    rw [Bool.and_eq_true, decide_eq_true_eq, decide_eq_true_eq] at hp
    exact follows_of_mayBecome hstate (by rw [hp.2]; exact h)).bind fun _ => Does.pure _

/-- **Recording an association** moves the one there is, or inserts it. -/
theorem recordCandidate_evolving {parent : Option Nat} {state : CandidateState} {observationId : Nat}
    (hstate : CandidateState.Advances .pending state) :
    Evolving (recordCandidate subjectThreadId subject parent state observationId now) := by
  intro s
  unfold recordCandidate
  simp only [wp_bind, wp_get]
  split
  · next hnone =>
    simp only [insertCandidate, generateId, wp_bind, wp_reads, wp_writes, wp_pure]
    refine .insert rfl fun other hother he => ?_
    simp only [CandidateAssociationRow.association, Prod.mk.injEq] at he
    rw [List.isEmpty_iff, List.filter_eq_nil_iff] at hnone
    refine hnone other ?_ (by simpa using he.2)
    rw [Store.listCandidatesBySubject, List.mem_insertionSort, List.mem_filter]
    exact ⟨hother, by simpa using he.1⟩
  · refine Does.forEach (fun existing _ => Does.ite (fun _ => Does.pure ()) fun _ => Does.ite (fun hmay => ?_) fun _ =>
      Does.pure ()) s
    exact (updateCandidateState_evolving hstate hmay).bind fun _ => Does.pure ()

theorem recordWinners_evolving {offers : List OfferedCandidate} {winners : List Candidate} :
    Evolving (recordWinners subjectThreadId subject offers winners now) :=
  Does.forEach fun winner _ => by
    split
    · exact Does.pure ()
    · exact Does.get.bind fun _ => recordCandidate_evolving .refused

theorem settlePending_evolving {late : LateSubject} {offers : List OfferedCandidate} :
    Evolving (settlePending late subject offers now) :=
  Does.forEach fun _ _ => Does.ite (fun _ => Does.get.bind fun _ => recordCandidate_evolving .resolved) fun _ =>
    Does.pure ()

theorem offerCandidate_evolving {input : ObservationInput × Nat} :
    Evolving (offerCandidate subjectThreadId subject now input) :=
  Does.get.bind fun s => by
    dsimp only
    split
    · exact (recordCandidate_evolving (.stays _)).bind fun _ => Does.pure _
    · exact Does.pure _

theorem resolvePending_evolving {subjectKey : Key} {observationId : Nat} :
    Evolving (resolvePendingForSelectedObservation subject subjectKey observationId now) :=
  Does.get.bind fun s => by
    split
    · exact Does.pure ()
    · refine Does.ite (fun _ => Does.pure ()) fun _ => ?_
      split
      · refine Does.forEach fun _ _ => Does.ite (fun _ => ?_) fun _ => Does.pure ()
        exact (updateCandidateState_evolving .resolved rfl).bind fun _ => Does.ensure trivial
      · exact Does.pure ()

/-! ## Groups, members and relations -/

theorem endpointTriple_evolving {table : String} {endpoint : ObservedEndpoint} :
    Evolving (endpointTriple table endpoint) := by
  unfold endpointTriple
  split
  · exact Does.pure _
  · exact Does.fail trivial

theorem insertMember_evolving {row : MemberRow} : Evolving (insertMember row) :=
  Does.get.bind fun _ => (Does.ensure trivial).bind fun _ => Does.writes fun _ => .of_same rfl le_rfl

theorem redirectCurrent_evolving {key : Key} {groupId : Nat} : Evolving (redirectCurrent key groupId) :=
  Does.get.bind fun _ => (Does.writes fun _ => .of_same rfl le_rfl).bind fun _ => Does.pure _

theorem redirectGroup_evolving {id target : Nat} : Evolving (redirectGroup id target) :=
  Does.get.bind fun _ => (Does.ensure trivial).bind fun _ =>
    (Does.writes fun _ => .of_same rfl le_rfl).bind fun _ => Does.pure _

theorem repointRedirectFrom_evolving {id fromTarget target : Nat} :
    Evolving (repointRedirectFrom id fromTarget target) :=
  Does.get.bind fun _ => (Does.ensure trivial).bind fun _ =>
    (Does.writes fun _ => .of_same rfl le_rfl).bind fun _ => Does.pure _

theorem redirectEmptiedGroup_evolving {oldGroup targetGroupId : Nat} :
    Evolving (redirectEmptiedGroup oldGroup targetGroupId) :=
  Does.get.bind fun s => Does.ite (fun _ => Does.pure ()) fun _ => by
    split
    · exact Does.fail trivial
    · refine (Does.ensure trivial).bind fun _ => Does.ite (fun _ => Does.pure ()) fun _ => ?_
      split
      · exact Does.fail trivial
      · exact (Does.ensure trivial).bind fun _ => redirectGroup_evolving.bind fun _ =>
          (Does.ensure trivial).bind fun _ => Does.forEach fun _ _ =>
            repointRedirectFrom_evolving.bind fun _ => Does.ensure trivial

theorem storeAutomaticMember_evolving {deletedAt : Option Int} {threadId : Option Nat} {key anchorKey : Key}
    {endpoint : ObservedEndpoint} {targetGroupId : Nat} :
    Evolving (storeAutomaticMember deletedAt threadId key endpoint targetGroupId anchorKey) := by
  unfold storeAutomaticMember
  dsimp only
  split
  · exact endpointTriple_evolving.bind fun _ => insertMember_evolving
  · exact endpointTriple_evolving.bind fun _ => insertMember_evolving
  · exact Does.pure ()

theorem placeMember_evolving {threadId : Option Nat} {key anchorKey : Key} {endpoint : ObservedEndpoint}
    {targetGroupId : Nat} : Evolving (placeMember threadId key endpoint targetGroupId anchorKey) :=
  Does.get.bind fun s => by
    split
    · exact storeAutomaticMember_evolving
    · refine Does.ite (fun _ => Does.pure ()) fun _ => Does.ite (fun _ => Does.pure ()) fun _ => ?_
      exact redirectCurrent_evolving.bind fun _ => (Does.ensure trivial).bind fun _ =>
        redirectEmptiedGroup_evolving.bind fun _ => storeAutomaticMember_evolving

theorem reassignChildren_evolving {targetGroupId : Nat} : ∀ {relations : List RelationRow} {queue enqueued : List Key},
    Evolving (reassignChildren targetGroupId relations queue enqueued)
  | [], _, _ => Does.pure _
  | _ :: _, _, _ => Does.ite (fun _ => reassignChildren_evolving) fun _ => Does.get.bind fun _ =>
      Does.ite (fun _ => reassignChildren_evolving) fun _ =>
        placeMember_evolving.bind fun _ => reassignChildren_evolving

theorem reassignLoop_evolving {targetGroupId : Nat} : ∀ {steps : Nat} {queue enqueued : List Key},
    Evolving (reassignLoop targetGroupId steps queue enqueued)
  | 0, [], _ => Does.pure ()
  | _ + 1, [], _ => Does.pure ()
  | 0, _ :: _, _ => Does.fail trivial
  | _ + 1, _ :: _, _ => Does.get.bind fun _ => reassignChildren_evolving.bind fun _ => reassignLoop_evolving

theorem setRelationState_evolving {id : Nat} {state : RelationState} : Evolving (setRelationState id state) :=
  Does.writes fun _ => .of_same rfl le_rfl

theorem retractActiveRelation_evolving {key : Key} : Evolving (retractActiveRelation key) :=
  Does.get.bind fun s => by
    split
    · exact Does.pure ()
    · exact setRelationState_evolving

theorem insertRelation_evolving {row : Nat → RelationRow} : Evolving (insertRelation row) :=
  generateId_evolving.bind fun _ => Does.get.bind fun _ => (Does.ensure trivial).bind fun _ =>
    (Does.ensure trivial).bind fun _ => (Does.writes fun _ => .of_same rfl le_rfl).bind fun _ => Does.pure _

theorem insertObservation_evolving {row : Nat → ObservationRow} : Evolving (insertObservation row) :=
  generateId_evolving.bind fun _ => Does.get.bind fun _ => (Does.ensure trivial).bind fun _ =>
    (Does.ensure trivial).bind fun _ => (Does.writes fun _ => .of_same rfl le_rfl).bind fun _ => Does.pure _

theorem appendIdempotent_evolving {event : EventRow} : Evolving (appendIdempotent event) :=
  Does.writes fun s => by
    split
    · exact refl_of _ _
    · exact .of_same rfl le_rfl

theorem assignKey_evolving {threadId : Nat} {userId : Int} {key : Key} {origin : CanonicalKeyOrigin} :
    Evolving (assignKey threadId userId key origin) :=
  Does.get.bind fun _ => (Does.ensure trivial).bind fun _ => (Does.ensure trivial).bind fun _ =>
    Does.writes fun _ => .of_same rfl le_rfl

theorem upsertResolved_evolving {identity : SourceIdentityKey} {threadId : Nat} :
    Evolving (upsertResolved identity threadId) :=
  Does.writes fun s => by
    split
    · exact .of_same rfl le_rfl
    · exact .of_same rfl le_rfl

theorem sourceSelection_evolving {evidence : CandidateEvidence} {observationId : Nat} :
    Evolving (sourceSelection evidence observationId) := by
  unfold sourceSelection
  split
  · exact Does.pure _
  · exact Does.pure _
  · exact Does.fail trivial

theorem checkImportGuard_evolving {observations : List ObservationInput} :
    Evolving (checkImportGuard subjectThreadId subject observations) :=
  Does.get.bind fun s => by
    split
    · exact Does.fail trivial
    · refine (Does.ensure trivial).bind fun _ => ?_
      split
      · exact Does.ensure trivial
      · exact (Does.ensure trivial).bind fun _ => Does.ensure trivial

section Adoption

variable [KeyHash]

theorem findOrCreateReconcilerGroup_evolving {rootKey : Key} {owner : Option Int} :
    Evolving (findOrCreateReconcilerGroup rootKey owner) :=
  Does.get.bind fun s => by
    split
    · exact Does.pure _
    · split
      · exact Does.fail trivial
      · exact generateId_evolving.bind fun _ => Does.get.bind fun _ => (Does.ensure trivial).bind fun _ =>
          (Does.writes fun _ => .of_same rfl le_rfl).bind fun _ => Does.pure _

theorem anchorAt_evolving {key : Key} {threadId : Option Nat} {endpoint : ObservedEndpoint} {owner : Option Int} :
    Evolving (anchorAt key threadId endpoint owner) :=
  findOrCreateReconcilerGroup_evolving.bind fun _ => Does.get.bind fun _ =>
    Does.ite (fun _ => placeMember_evolving.bind fun _ => Does.pure _) fun _ => Does.pure _

theorem resolveAnchorGroup_evolving {parentThreadId : Option Nat} {parentKey : Key} {parent : ObservedEndpoint}
    {owner : Option Int} : Evolving (resolveAnchorGroup parentThreadId parentKey parent owner) :=
  Does.get.bind fun s => by
    split
    · exact Does.pure _
    · exact anchorAt_evolving
    · exact anchorAt_evolving
    · exact Does.fail trivial

theorem ensureMembership_evolving {threadId : Nat} {key parentKey : Key} {endpoint parent : ObservedEndpoint}
    {parentThreadId : Option Nat} {owner : Option Int} :
    Evolving (ensureMembership threadId key endpoint parentThreadId parentKey parent owner) :=
  Does.get.bind fun _ => Does.ite (fun _ => Does.pure ()) fun _ => resolveAnchorGroup_evolving.bind fun _ =>
    placeMember_evolving.bind fun _ => Does.get.bind fun _ => reassignLoop_evolving

theorem recordDerivedConflict_evolving {reason : String} : Evolving (recordDerivedConflict subject reason now) :=
  Does.get.bind fun _ => Does.ite (fun _ => insertObservation_evolving.bind fun _ => Does.pure ()) fun _ =>
    Does.pure ()

theorem applySelectedRelation_evolving {key : Key} {parent : ObservedEndpoint} {winner : Candidate}
    {observationId : Nat} {operationId : String} {owner : Int} :
    Evolving (applySelectedRelation subjectThreadId key subject parent winner observationId operationId now owner) :=
  Does.get.bind fun s => by
    dsimp only
    split
    · refine Does.ite (fun _ => ensureMembership_evolving.bind fun _ => Does.pure _) fun _ => ?_
      exact setRelationState_evolving.bind fun _ => recordDerivedConflict_evolving.bind fun _ =>
        (recordCandidate_evolving .refused).bind fun _ => appendIdempotent_evolving.bind fun _ => Does.pure _
    · exact sourceSelection_evolving.bind fun _ => endpointTriple_evolving.bind fun _ =>
        endpointTriple_evolving.bind fun _ => insertRelation_evolving.bind fun _ =>
          ensureMembership_evolving.bind fun _ => appendIdempotent_evolving.bind fun _ => Does.pure _

theorem adoptParent_evolving {key : Key} {offers : List OfferedCandidate} {operationId : String} {owner : Int} :
    Evolving (adoptParent subjectThreadId key subject offers operationId now owner) := by
  unfold adoptParent
  split
  · exact Does.pure _
  · exact retractActiveRelation_evolving.bind fun _ => recordWinners_evolving.bind fun _ =>
      appendIdempotent_evolving.bind fun _ => Does.pure _
  · refine Does.get.bind fun s => Does.ite (fun _ => (recordCandidate_evolving .refused).bind fun _ => Does.pure _)
      fun _ => ?_
    split
    · exact Does.fail trivial
    · exact applySelectedRelation_evolving.bind fun _ =>
        Does.ite (fun _ => resolvePending_evolving.bind fun _ => Does.get.bind fun _ => Does.pure _) fun _ =>
          Does.get.bind fun _ => Does.pure _

theorem ensureSingleton_evolving {key : Key} {owner : Int} :
    Evolving (ensureSingleton subjectThreadId key subject owner) :=
  Does.get.bind fun _ => Does.ite (fun _ => Does.pure _) fun _ => findOrCreateReconcilerGroup_evolving.bind fun _ =>
    endpointTriple_evolving.bind fun _ => insertMember_evolving.bind fun _ => Does.pure _

theorem assignSubjectKey_evolving {identity : SourceIdentityKey} :
    Evolving (assignSubjectKey subjectThreadId identity) :=
  Does.get.bind fun s => by
    split
    · exact upsertResolved_evolving.bind fun _ => Does.pure _
    · exact assignKey_evolving.bind fun _ => upsertResolved_evolving.bind fun _ => Does.pure _

theorem recordObservations_evolving {observations : List ObservationInput} {operationId : String} :
    Evolving (recordObservations observations operationId) :=
  Does.collect fun _ _ => Does.get.bind fun s => by
    split
    · exact appendIdempotent_evolving.bind fun _ => Does.pure _
    · exact insertObservation_evolving.bind fun _ => appendIdempotent_evolving.bind fun _ => Does.pure _

theorem reconcileSubjectTx_evolving {observations : List ObservationInput} {owner : Int} {operationId : String}
    {importGuard : Bool} :
    Evolving (reconcileSubjectTx subjectThreadId subject observations owner operationId now importGuard) := by
  refine Does.ite (fun _ => checkImportGuard_evolving.bind fun _ => ?_) fun _ => ?_
  all_goals
    split
    · exact recordObservations_evolving.bind fun _ => Does.pure _
    · refine assignSubjectKey_evolving.bind fun _ => recordObservations_evolving.bind fun _ =>
        (Does.collect fun _ _ => offerCandidate_evolving).bind fun _ => adoptParent_evolving.bind fun _ => ?_
      exact Does.ite (fun _ => ensureSingleton_evolving.bind fun _ => Does.get.bind fun _ => Does.pure _) fun _ =>
        (Does.pure _).bind fun _ => Does.get.bind fun _ => Does.pure _

theorem adoptLateParent_evolving {late : LateSubject} {operationId : String} :
    Evolving (adoptLateParent late subject operationId now) := by
  unfold adoptLateParent
  split
  · exact Does.pure ()
  · exact retractActiveRelation_evolving.bind fun _ => recordWinners_evolving.bind fun _ =>
      settlePending_evolving.bind fun _ => appendIdempotent_evolving
  · split
    · exact Does.pure ()
    · refine Does.get.bind fun s => Does.ite (fun _ => ?_) fun _ => ?_
      · exact (recordCandidate_evolving .refused).bind fun _ => settlePending_evolving
      · refine applySelectedRelation_evolving.bind fun _ => Does.ite (fun _ => ?_) fun _ => ?_
        · exact Does.forEach fun _ _ => Does.get.bind fun _ => recordCandidate_evolving .refused
        · exact settlePending_evolving.bind fun _ => recordCandidate_evolving .resolved

/-- Late discovery only moves associations on, and adds none twice. -/
theorem reconcilePendingObservation_evolving {observationId : Nat} {operationId : String} :
    Evolving (reconcilePendingObservation observationId operationId now) :=
  Does.get.bind fun s => by
    split
    · exact Does.pure ()
    · split
      · split
        · exact Does.pure ()
        · exact adoptLateParent_evolving
      · exact Does.pure ()

end Adoption

/-! ## The other steps -/

theorem deleteThreadsTx_evolving {targets : List Nat} {forbidReimport : Bool} :
    Evolving (deleteThreadsTx targets forbidReimport now) := by
  have hmarkers : ∀ (rows : List SourceThreadIdentityRow) (key : Option Key) (threadId : Nat), Evolving (do
      Tx.forEach rows fun row => do
        putMarker ⟨row.identity, forbidReimport, key⟩
        deleteIdentity row.identity
      deleteKey threadId : StoreTx Unit) := by
    intro rows key threadId
    refine (Does.forEach fun row _ => (Does.writes fun s => ?_).bind fun _ =>
      Does.writes fun _ => .of_same rfl le_rfl).bind fun _ => Does.writes fun _ => .of_same rfl le_rfl
    split <;> exact .of_same rfl le_rfl
  refine Does.get.bind fun s => Does.forEach fun threadId _ => ?_
  refine ((Does.writes fun _ => .of_same rfl le_rfl).bind fun _ => (Does.writes fun _ => .of_same rfl le_rfl).bind fun _ =>
    Does.writes fun _ => .of_same rfl le_rfl).bind fun _ => ?_
  split
  · exact (Does.writes fun _ => .of_same rfl le_rfl).bind fun _ => hmarkers _ _ _
  · exact hmarkers _ _ _

theorem repointInbound_evolving {groupId target : Nat} : Evolving (repointInbound groupId target) :=
  Does.get.bind fun _ => Does.forEach fun _ _ => Does.bind
    (Does.get.bind fun _ => (Does.ensure trivial).bind fun _ =>
      (Does.writes fun _ => .of_same rfl le_rfl).bind fun _ => Does.pure _)
    fun _ => Does.pure ()

theorem purgeMarkers_evolving {groupId : Nat} {members : List MemberRow} : Evolving (purgeMarkers groupId members) :=
  Does.forEach fun member _ => by
    split
    · exact Does.pure ()
    · exact Does.get.bind fun _ => Does.ite (fun _ => Does.pure ()) fun _ => Does.ite (fun _ => Does.pure ()) fun _ =>
        Does.writes fun _ => .of_same rfl le_rfl

theorem purgeGroup_evolving [PurgeDigest] {groupId : Nat} {expectedDigest : String} :
    Evolving (purgeGroup groupId expectedDigest) :=
  Does.get.bind fun s => by
    have hend : Evolving (do
        let deleted ← deleteGroup groupId
        Tx.ensure deleted (.bail s!"group {groupId} disappeared during purge") : StoreTx Unit) :=
      Does.bind (Does.get.bind fun _ => (Does.writes fun _ => .of_same rfl le_rfl).bind fun _ => Does.pure _) fun _ =>
        Does.ensure trivial
    split
    · exact Does.fail trivial
    · refine (Does.ensure trivial).bind fun _ => (Does.ensure trivial).bind fun _ => (Does.ensure trivial).bind fun _ =>
        (Does.forEach fun _ _ => Does.writes fun _ => .of_same rfl le_rfl).bind fun _ =>
          (Does.writes fun _ => .of_same rfl le_rfl).bind fun _ =>
            (Does.writes fun _ => .of_same rfl le_rfl).bind fun _ => purgeMarkers_evolving.bind fun _ => ?_
      split
      · exact repointInbound_evolving.bind fun _ => hend
      · exact hend

theorem retractDecision_evolving {subject : Option (Nat × Key)} : Evolving (retractDecision subject) :=
  Does.get.bind fun s => by
    split
    · exact Does.pure ()
    · split
      · exact Does.pure ()
      · exact Does.ite (fun _ => setRelationState_evolving) fun _ => Does.pure ()

theorem confirmedParentEndpoint_evolving {parentThreadId : Nat} : Evolving (confirmedParentEndpoint parentThreadId) :=
  Does.get.bind fun s => by
    split
    · exact Does.pure _
    · split
      · exact Does.fail trivial
      · exact Does.pure _

theorem checkDecisionSubject_same {candidate : CandidateAssociationRow} {s : Store} (decision : OperatorDecision)
    (subject : Option (Nat × Key)) :
    wp (checkDecisionSubject decision candidate subject) (fun _ s' => s' = s) (fun _ => True) s := by
  unfold checkDecisionSubject
  split
  · rfl
  all_goals
    simp only [wp_bind, wp_ensure]
    refine ⟨fun _ => ?_, fun _ => trivial⟩
    split
    · trivial
    · simp

section Decisions

variable [KeyHash] {candidate : CandidateAssociationRow} {decisionId : Nat} {owner : Option Int}

theorem confirmParent_evolving {key : Key} :
    Evolving (confirmParent candidate subjectThreadId key decisionId owner) :=
  Does.get.bind fun s => by
    split
    · exact Does.fail trivial
    · split
      · exact Does.fail trivial
      · refine (Does.ensure trivial).bind fun _ => confirmedParentEndpoint_evolving.bind fun _ => ?_
        dsimp only
        split
        · exact Does.pure _
        · split
          · exact setRelationState_evolving.bind fun _ => insertRelation_evolving.bind fun _ =>
              ensureMembership_evolving.bind fun _ => Does.pure _
          · exact insertRelation_evolving.bind fun _ => ensureMembership_evolving.bind fun _ => Does.pure _

theorem applyDecision_evolving {decision : OperatorDecision} {subject : Option (Nat × Key)} :
    Evolving (applyDecision decision candidate subject decisionId owner) := by
  unfold applyDecision
  split
  · split
    · exact Does.fail trivial
    · exact confirmParent_evolving.bind fun _ => Does.pure _
  · exact Does.pure _
  · exact retractDecision_evolving.bind fun _ => Does.pure _

/-- **A decision keeps the keys**: it gives its association another state, for the observation it had. -/
theorem recordOperatorDecision_keys {candidateAssociationId : Nat} {decision : OperatorDecision} {reason : String}
    (hs : s.Associated) :
    wp (recordOperatorDecision candidateAssociationId decision reason now) (fun _ s' => s'.Associated)
      (fun _ => True) s := by
  unfold recordOperatorDecision
  simp only [wp_bind, wp_ensure, wp_get]
  refine ⟨fun _ => ?_, fun _ => trivial⟩
  split
  · trivial
  · next candidate hfind =>
    have hmem : candidate ∈ s.candidates ∧ candidate.id = candidateAssociationId :=
      (find?_eq_some_of_nodup hs.ids).1 hfind
    simp only [wp_bind]
    refine (checkDecisionSubject_same ..).imp fun _ s₀ h₀ => ?_
    subst h₀
    split
    · exact hs
    · simp only [wp_bind, wp_pure]
      have hinsert : Evolving (insertDecision candidateAssociationId decision reason now) :=
        generateId_evolving.bind fun _ => (Does.writes fun _ => .of_same rfl le_rfl).bind fun _ => Does.pure _
      refine (hinsert s₀).imp fun decisionId s₁ h₁ => ?_
      refine (applyDecision_evolving s₁).imp fun out s₂ h₂ => ?_
      obtain ⟨row, hrow, hfollows⟩ := (h₁.trans h₂).kept candidate hmem.1
      have hs₂ := (h₁.trans h₂).keys hs
      -- The rows with the id are this one, and its observation is the one the decision writes.
      have hsame : ∀ other ∈ s₂.candidates, other.id = candidateAssociationId →
          other.selectedObservationId = candidate.selectedObservationId := by
        intro other hother hid
        have hrows : other = row := List.inj_on_of_nodup_map hs₂.ids hother hrow (by rw [hid, hfollows.id, hmem.2])
        rw [hrows]
        exact (Prod.mk.inj hfollows.association).2
      rw [updateSelection, wp_writes]
      exact hs₂.modify_mem fun other hother hp => by
        rw [Bool.and_eq_true, decide_eq_true_eq] at hp
        exact ⟨rfl, Prod.ext rfl (hsame other hother hp.1).symm⟩

end Decisions

/-! ## Runs -/

theorem MappingOnly.evolves (h : MappingOnly s s') : s.Evolves s' :=
  .of_same (h.keeps.read Store.candidates fun _ => rfl) h.keeps.nextId

theorem OperatorStep.evolves (h : OperatorStep s s') : s.Evolves s' :=
  .of_same (h.keeps.read Store.candidates fun _ => rfl) h.keeps.nextId

theorem Batches.evolves (h : Batches s s') : s.Evolves s' := by
  cases h with
  | maps _ h => exact h.evolves
  | revives key threadId _ s₁ _ h₁ _ _ h₂ =>
    have hrevived : s₁.Evolves (s₁.revived key threadId) := .of_same rfl le_rfl
    exact h₁.evolves.trans (hrevived.trans h₂.evolves)

theorem evolves_of_commit {α : Type} {m : StoreTx α} (hm : Evolving m) (s : Store) : s.Evolves (m.commit s) := by
  rcases (hm s).commit with he | ⟨_, h⟩
  · rw [he]
    exact refl_of _ s
  · exact h

section Steps

variable [KeyHash] [PurgeDigest]

/-- **A step of the reconciler moves associations on.** -/
theorem Action.automatic_evolves {a : Action} (ha : a.automatic = true) (s : Store) : s.Evolves (a.exec s) := by
  cases a with
  | reconcile => exact evolves_of_commit reconcileSubjectTx_evolving s
  | late => exact evolves_of_commit reconcilePendingObservation_evolving s
  | _ => simp [Action.automatic] at ha

/-- Every step keeps the keys. -/
theorem Action.exec_associated (hsound : Sound s) (hs : s.Associated) (a : Action) : (a.exec s).Associated := by
  rcases a.exec_cases hsound with he | ho
  · exact he.symm ▸ hs
  · cases a with
    | reconcile | late => exact (Action.automatic_evolves rfl s).keys hs
    | decide candidateAssociationId decision reason now =>
      rcases (recordOperatorDecision_keys hs).commit with he | ⟨_, h⟩
      · exact (show (Action.decide candidateAssociationId decision reason now).exec s = s from he).symm ▸ hs
      · exact h
    | createThread | ensureKey => exact (MappingOnly.evolves ho).keys hs
    | batch => exact (Batches.evolves ho).keys hs
    | delete => exact (evolves_of_commit deleteThreadsTx_evolving s).keys hs
    | merge | split | attach => exact (OperatorStep.evolves ho).keys hs
    | purge => exact (evolves_of_commit purgeGroup_evolving s).keys hs

theorem Reachable.associated (h : Reachable s) : s.Associated :=
  (Run.Reaches.invariant (I := fun s => Sound s ∧ s.Associated)
    (fun _ a hs _ => ⟨a.exec_sound hs.1, a.exec_associated hs.1 hs.2⟩) h
    ⟨Sound.empty, by simp [Store.OneEach, Store.empty], by simp [Store.empty], by simp [Store.empty]⟩).2

/-- A run of the reconciler moves associations on. -/
theorem automatic_evolves (h : ReachesWhen (fun _ a => a.automatic = true) s s') : s.Evolves s' :=
  h.invariant (I := fun s' => s.Evolves s') (fun _ _ hs ha => hs.trans (Action.automatic_evolves ha _)) (refl_of _ s)

end Steps

end Evolves

end MemoryStore.ThreadGroup
