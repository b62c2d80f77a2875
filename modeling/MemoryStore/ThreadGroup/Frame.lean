/-
What the programs leave alone. Two kinds of program make up every operation:
those that only keep evidence (observations, candidates, decisions, audit and
outbox rows), and those that only regroup (groups and members). Each kind is
one frame, `Keeps view`: the store reads the same through the view.

The frames come with the errors their programs can end with. `Benign` is every
error but two: the index on active relations of one child, and a loop that ran
out of steps. That no operation ends with either is proved where the invariants
that rule them out are.
-/
import MemoryStore.ThreadGroup.Decision
import MemoryStore.ThreadGroup.Operator
import MemoryStore.ThreadGroup.Lifecycle
import MemoryStore.ThreadGroup.Import

namespace MemoryStore.ThreadGroup

open Tx

/-- An error other than a second active parent, and other than running out of steps. -/
structure Benign (e : TxError) : Prop where
  index : e ≠ .unique .activeChildCanonicalKey
  steps : e ≠ .outOfSteps

@[simp] theorem benign_bail (message : String) : Benign (.bail message) := ⟨by simp, by simp⟩

@[simp] theorem benign_check (table : String) : Benign (.check table) := ⟨by simp, by simp⟩

theorem benign_unique {index : UniqueIndex} (h : index ≠ .activeChildCanonicalKey) : Benign (.unique index) :=
  ⟨by simpa using h, by simp⟩

/-! ## Frames -/

/-- The store reads the same through a view, and ids only grow. -/
structure Keeps (view : Store → Store) (s s' : Store) : Prop where
  same : view s' = view s
  nextId : s.nextId ≤ s'.nextId

variable {view : Store → Store} {s s' s'' : Store}

instance : Std.Refl (Keeps view) := ⟨fun _ => ⟨rfl, le_rfl⟩⟩

instance : IsTrans Store (Keeps view) :=
  ⟨fun _ _ _ h h' => ⟨h'.same.trans h.same, h.nextId.trans h'.nextId⟩⟩

theorem Keeps.trans (h : Keeps view s s') (h' : Keeps view s' s'') : Keeps view s s'' := trans_of (Keeps view) h h'

/-- A query that only looks through the view answers the same. -/
theorem Keeps.read {α : Type} (h : Keeps view s s') (f : Store → α) (hf : ∀ s, f s = f (view s)) : f s' = f s := by
  rw [hf s', h.same, ← hf s]

/-- The store without its evidence. -/
def Store.graph (s : Store) : Store :=
  { s with observations := [], candidates := [], decisions := [], audits := [], outbox := [], nextId := 0 }

/-- The store without its groups: who is in which group, and what was done about it. -/
def Store.ungrouped (s : Store) : Store :=
  { s with groups := [], members := [], audits := [], nextId := 0 }

/-- Only evidence was added or changed. -/
abbrev EvidenceOnly : Store → Store → Prop := Keeps Store.graph

/-- Only groups and members were changed. -/
abbrev RegroupOnly : Store → Store → Prop := Keeps Store.ungrouped

theorem EvidenceOnly.relations (h : EvidenceOnly s s') : s'.relations = s.relations :=
  h.read Store.relations fun _ => rfl

theorem EvidenceOnly.groups (h : EvidenceOnly s s') : s'.groups = s.groups := h.read Store.groups fun _ => rfl

theorem EvidenceOnly.members (h : EvidenceOnly s s') : s'.members = s.members := h.read Store.members fun _ => rfl

theorem RegroupOnly.relations (h : RegroupOnly s s') : s'.relations = s.relations :=
  h.read Store.relations fun _ => rfl

/-! ## Bookkeeping -/

/-- A view that shows neither the id counter nor observations nor candidate associations. -/
structure Overlooks (view : Store → Store) : Prop where
  nextId : ∀ s n, view { s with nextId := n } = view s
  observations : ∀ s rows, view { s with observations := rows } = view s
  candidates : ∀ s rows, view { s with candidates := rows } = view s

theorem generateId_keeps (hv : Overlooks view) : Does (Keeps view) Benign generateId :=
  fun s => ⟨hv.nextId s _, Nat.le_succ _⟩

theorem insertObservation_keeps (hv : Overlooks view) {row : Nat → ObservationRow} :
    Does (Keeps view) Benign (insertObservation row) :=
  (generateId_keeps hv).bind fun _ => Does.get.bind fun _ =>
    (Does.ensure (benign_check _)).bind fun _ => (Does.ensure (benign_unique (by decide))).bind fun _ =>
      (Does.writes fun s => ⟨hv.observations s _, le_rfl⟩).bind fun _ => Does.pure _

theorem insertCandidate_keeps (hv : Overlooks view) {row : Nat → CandidateAssociationRow} :
    Does (Keeps view) Benign (insertCandidate row) :=
  (generateId_keeps hv).bind fun _ => Does.writes fun s => ⟨hv.candidates s _, le_rfl⟩

theorem updateCandidateState_keeps (hv : Overlooks view) {id : Nat} {expected state : CandidateState}
    {parent : Option Nat} {now : Int} : Does (Keeps view) Benign (updateCandidateState id expected state parent now) :=
  Does.get.bind fun _ => (Does.writes fun s => ⟨hv.candidates s _, le_rfl⟩).bind fun _ => Does.pure _

theorem recordCandidate_keeps (hv : Overlooks view) {subjectThreadId : Nat} {subject : ObservedEndpoint}
    {parent : Option Nat} {state : CandidateState} {observationId : Nat} {now : Int} :
    Does (Keeps view) Benign (recordCandidate subjectThreadId subject parent state observationId now) :=
  Does.get.bind fun _ => Does.ite (fun _ => insertCandidate_keeps hv) fun _ =>
    Does.forEach fun _ _ => Does.ite (fun _ => Does.pure ()) fun _ =>
      Does.ite (fun _ => (updateCandidateState_keeps hv).bind fun _ => Does.pure ()) fun _ => Does.pure ()

theorem recordWinners_keeps (hv : Overlooks view) {subjectThreadId : Nat} {subject : ObservedEndpoint}
    {offers : List OfferedCandidate} {winners : List Candidate} {now : Int} :
    Does (Keeps view) Benign (recordWinners subjectThreadId subject offers winners now) :=
  Does.forEach fun winner _ => by
    cases offerFor offers winner with
    | none => exact Does.pure ()
    | some offer => exact Does.get.bind fun _ => recordCandidate_keeps hv

theorem settlePending_keeps (hv : Overlooks view) {late : LateSubject} {subject : ObservedEndpoint}
    {offers : List OfferedCandidate} {now : Int} :
    Does (Keeps view) Benign (settlePending late subject offers now) :=
  Does.forEach fun _ _ => Does.ite (fun _ => Does.get.bind fun _ => recordCandidate_keeps hv) fun _ => Does.pure ()

theorem offerCandidate_keeps (hv : Overlooks view) {subjectThreadId : Nat} {subject : ObservedEndpoint} {now : Int}
    {input : ObservationInput × Nat} : Does (Keeps view) Benign (offerCandidate subjectThreadId subject now input) :=
  Does.get.bind fun s => by
    dsimp only
    split
    · exact (recordCandidate_keeps hv).bind fun _ => Does.pure _
    · exact Does.pure _

theorem resolvePending_keeps (hv : Overlooks view) {subject : ObservedEndpoint} {subjectKey : Key}
    {observationId : Nat} {now : Int} :
    Does (Keeps view) Benign (resolvePendingForSelectedObservation subject subjectKey observationId now) :=
  Does.get.bind fun s => by
    split
    · exact Does.pure ()
    · split
      · exact Does.pure ()
      · split
        · exact Does.forEach fun _ _ => Does.ite
            (fun _ => (updateCandidateState_keeps hv).bind fun _ => Does.ensure (benign_bail _)) fun _ => Does.pure ()
        · exact Does.pure ()

theorem recordDerivedConflict_keeps [KeyHash] (hv : Overlooks view) {subject : ObservedEndpoint} {reason : String}
    {now : Int} : Does (Keeps view) Benign (recordDerivedConflict subject reason now) :=
  Does.get.bind fun _ => Does.ite (fun _ => (insertObservation_keeps hv).bind fun _ => Does.pure ()) fun _ =>
    Does.pure ()

/-! ## Evidence -/

theorem graph_overlooks : Overlooks Store.graph := ⟨fun _ _ => rfl, fun _ _ => rfl, fun _ _ => rfl⟩

/-- A program that only keeps evidence. -/
abbrev KeepsEvidence {α : Type} (m : StoreTx α) : Prop := Does EvidenceOnly Benign m

theorem generateId_evidence : KeepsEvidence generateId := generateId_keeps graph_overlooks

theorem insertObservation_evidence {row : Nat → ObservationRow} : KeepsEvidence (insertObservation row) :=
  insertObservation_keeps graph_overlooks

theorem updateSelection_evidence {id : Nat} {expected state : CandidateState} {selected : Option Nat} {now : Int} :
    KeepsEvidence (updateSelection id expected state selected now) :=
  Does.writes fun _ => ⟨rfl, le_rfl⟩

theorem insertDecision_evidence {candidateId : Nat} {decision : OperatorDecision} {reason : String} {now : Int} :
    KeepsEvidence (insertDecision candidateId decision reason now) :=
  generateId_evidence.bind fun _ => (Does.writes fun _ => ⟨rfl, le_rfl⟩).bind fun _ => Does.pure _

theorem appendIdempotent_evidence {event : EventRow} : KeepsEvidence (appendIdempotent event) :=
  Does.writes fun s => by split <;> exact ⟨rfl, le_rfl⟩

theorem recordCandidate_evidence {subjectThreadId : Nat} {subject : ObservedEndpoint} {parent : Option Nat}
    {state : CandidateState} {observationId : Nat} {now : Int} :
    KeepsEvidence (recordCandidate subjectThreadId subject parent state observationId now) :=
  recordCandidate_keeps graph_overlooks

theorem recordWinners_evidence {subjectThreadId : Nat} {subject : ObservedEndpoint} {offers : List OfferedCandidate}
    {winners : List Candidate} {now : Int} :
    KeepsEvidence (recordWinners subjectThreadId subject offers winners now) := recordWinners_keeps graph_overlooks

theorem settlePending_evidence {late : LateSubject} {subject : ObservedEndpoint} {offers : List OfferedCandidate}
    {now : Int} : KeepsEvidence (settlePending late subject offers now) := settlePending_keeps graph_overlooks

theorem resolvePending_evidence {subject : ObservedEndpoint} {subjectKey : Key} {observationId : Nat} {now : Int} :
    KeepsEvidence (resolvePendingForSelectedObservation subject subjectKey observationId now) :=
  resolvePending_keeps graph_overlooks

variable [KeyHash]

theorem recordObservationAndEvent_evidence {input : ObservationInput} {state eventState : ObservationState}
    {operationId : String} : KeepsEvidence (recordObservationAndEvent input state eventState operationId) :=
  Does.get.bind fun s => by
    dsimp only
    split
    · exact (Does.pure _).bind fun _ => appendIdempotent_evidence.bind fun _ => Does.pure _
    · exact insertObservation_evidence.bind fun _ => appendIdempotent_evidence.bind fun _ => Does.pure _

theorem recordObservations_evidence {observations : List ObservationInput} {operationId : String} :
    KeepsEvidence (recordObservations observations operationId) :=
  Does.collect fun _ _ => recordObservationAndEvent_evidence

theorem appendRelationEvent_evidence {eventType : EventType} {subjectKey : Key} {operationId : String}
    {payload : EventPayload} : KeepsEvidence (appendRelationEvent eventType subjectKey operationId payload) :=
  appendIdempotent_evidence

theorem recordDerivedConflict_evidence {subject : ObservedEndpoint} {reason : String} {now : Int} :
    KeepsEvidence (recordDerivedConflict subject reason now) := recordDerivedConflict_keeps graph_overlooks

end MemoryStore.ThreadGroup
