/-
Observation contracts and recording (`app/src/app/thread_group/observation.rs`).
-/
import MemoryStore.ThreadGroup.Repository

namespace MemoryStore.ThreadGroup

/-- `ObservationInput`, without the import run, which is only stored. -/
structure ObservationInput where
  subject : ObservedEndpoint
  candidateParent : Option ObservedEndpoint
  relationKind : Option RelationType
  evidenceKind : EvidenceKind
  polarity : Polarity
  sourceConfidence : Option SourceConfidence
  adapterVersion : String
  sourceRecordRef : String
  observedAt : Int
  deriving DecidableEq, Repr

def RelationType.asStr : RelationType → String
  | .delegated => "delegated"
  | .fork => "fork"
  | .continuation => "continuation"

def ObservationOrigin.asStr : ObservationOrigin → String
  | .adapter => "adapter"
  | .reconciler => "reconciler"

def EvidenceKind.asStr : EvidenceKind → String
  | .sourceEvent => "source_event"
  | .sourceField => "source_field"
  | .negativeOrConflict => "negative_or_conflict"
  | .derivedRejection => "derived_rejection"
  | .derivedConflict => "derived_conflict"

def Polarity.asStr : Polarity → String
  | .supports => "supports"
  | .negates => "negates"
  | .conflicts => "conflicts"

def SourceConfidence.asStr : SourceConfidence → String
  | .exact => "exact"
  | .strong => "strong"
  | .heuristic => "heuristic"
  | .unsupported => "unsupported"

/-- `EVIDENCE_FINGERPRINT_VERSION`. -/
def evidenceFingerprintVersion : String := "thread-group-evidence-v1"

/-- `SuppressionDecision`. -/
inductive SuppressionDecision where
  | allow | suppress | override
  deriving DecidableEq, Repr

/-- `decide_suppression`. -/
def decideSuppression (markerForbidReimport : Option Bool) (explicitOverride : Bool) : SuppressionDecision :=
  match markerForbidReimport, explicitOverride with
  | none, _ => .allow
  | some false, _ => .allow
  | some true, true => .override
  | some true, false => .suppress

variable [KeyHash]

/-- `observation_fingerprint`. -/
def observationFingerprint (input : ObservationInput) (origin : ObservationOrigin) : String :=
  evidenceFingerprint evidenceFingerprintVersion origin.asStr input.adapterVersion input.subject
    input.candidateParent ((input.relationKind.map RelationType.asStr).getD "") input.evidenceKind.asStr
    input.polarity.asStr ((input.sourceConfidence.map SourceConfidence.asStr).getD "") input.sourceRecordRef

/-- `new_observation`, once its id is drawn. -/
def newObservation (input : ObservationInput) (origin : ObservationOrigin) (state : ObservationState)
    (id : Nat) : ObservationRow :=
  { id
    subject := input.subject
    candidateParent := input.candidateParent
    relationKind := input.relationKind
    origin
    evidenceKind := input.evidenceKind
    polarity := input.polarity
    sourceConfidence := input.sourceConfidence
    evidenceFingerprint := observationFingerprint input origin
    state
    observedAt := input.observedAt }

/-- `observation_identity` of the row an input becomes. -/
def ObservationInput.observationIdentity (input : ObservationInput) (origin : ObservationOrigin) :
    ObservationIdentity :=
  ⟨input.subject, input.candidateParent, input.evidenceKind, observationFingerprint input origin⟩

/-- `event_id_for`. -/
def eventIdFor (eventType : EventType) (dedupKey : String) : String :=
  hashFields [some eventType.asStr, some dedupKey]

/-- `record_observation_and_event`: the id of the row with this evidence, old or new. -/
def recordObservationAndEvent (input : ObservationInput) (state eventState : ObservationState)
    (operationId : String) : StoreTx Nat := do
  let s ← Tx.get
  let observationId ← match s.findObservationByIdentity (input.observationIdentity .adapter) with
    | some existing => pure existing.id
    | none => insertObservation (newObservation input .adapter state)
  appendIdempotent
    { eventId := eventIdFor .observationRecorded (observationFingerprint input .adapter)
      eventType := .observationRecorded
      operationId
      payload := .observation eventState input.adapterVersion input.evidenceKind }
  pure observationId

end MemoryStore.ThreadGroup
