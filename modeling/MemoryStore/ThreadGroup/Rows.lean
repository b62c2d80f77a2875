/-
The ThreadGroup tables (`infra/src/infra/thread_group/rows.rs` and
`infra/sql/sqlite/005_thread_group_schema.sql`).

Row types carry the CHECK constraints of the schema where a type can: a group's
redirect target sits inside its status, a member's thread id inside its state,
a source identity is one optional triple, and a relation's selected evidence is
one value instead of four paired columns. What is left of the schema, the
unique indexes and the constraints between rows' own columns, is checked by the
inserts in `Repository`.

Ids are drawn from one counter, as a Snowflake generator never repeats one.
Columns nothing modelled reads (creation and update times other than a
candidate's, import runs, audit actors) are left out.
-/
import MemoryStore.ThreadGroup.Key

namespace MemoryStore.ThreadGroup

/-- A 64-hex canonical key. -/
abbrev Key := String

/-- `grouping_authority`: of a group, and, as `provenance`, of a member. -/
inductive GroupingAuthority where
  | reconciler | operator
  deriving DecidableEq, Repr

/-- `thread_group.status` with `redirect_to_group_id`, which is set exactly while redirected. -/
inductive GroupStatus where
  | active
  | redirected (redirectToGroupId : Nat)
  | split
  deriving DecidableEq, Repr

structure GroupRow where
  id : Nat
  userId : Int
  groupCanonicalKey : Key
  title : Option String
  status : GroupStatus
  groupingAuthority : GroupingAuthority
  deriving DecidableEq, Repr

/-- A source identity triple next to a user id: all three columns or none. -/
structure SourceTriple where
  source : String
  identityScope : String
  nativeId : String
  deriving DecidableEq, Repr

/-- `thread_group_member.state` with `thread_id` and `deleted_at`: an active row
references a thread, a deleted one is a placeholder, a redirected one is history. -/
inductive MemberState where
  | active (threadId : Nat)
  | deleted (deletedAt : Int)
  | redirected (threadId : Option Nat) (deletedAt : Option Int)
  deriving DecidableEq, Repr

/-- `state IN ('active', 'deleted')`. -/
def MemberState.current : MemberState → Bool
  | .active _ | .deleted _ => true
  | .redirected .. => false

/-- `state = 'active'`. -/
def MemberState.isActive : MemberState → Bool
  | .active _ => true
  | _ => false

/-- `state = 'deleted'`. -/
def MemberState.isDeleted : MemberState → Bool
  | .deleted _ => true
  | _ => false

inductive MemberRole where
  | root | member
  deriving DecidableEq, Repr

structure MemberRow where
  groupId : Nat
  threadCanonicalKey : Key
  userId : Int
  identity : Option SourceTriple
  role : MemberRole
  state : MemberState
  provenance : GroupingAuthority
  deriving DecidableEq, Repr

/-- `RelationType`, in the order the derived `Ord` gives it. -/
inductive RelationType where
  | delegated | fork | continuation
  deriving DecidableEq, Repr

inductive RelationState where
  | active | retracted | superseded
  deriving DecidableEq, Repr

/-- `SourceConfidence`. -/
inductive SourceConfidence where
  | exact | strong | heuristic | unsupported
  deriving DecidableEq, Repr

/-- What a relation was selected by: `selection_basis`, `source_confidence`,
`selected_observation_id` and `selected_operator_decision_id`, paired as the schema pairs them. -/
inductive Selection where
  | sourceExact (observationId : Nat)
  | sourceStrong (observationId : Nat)
  | operatorConfirmation (decisionId : Nat)
  deriving DecidableEq, Repr

/-- `selection_basis`. -/
inductive SelectionBasis where
  | sourceExact | sourceStrong | operatorConfirmation
  deriving DecidableEq, Repr

def Selection.basis : Selection → SelectionBasis
  | .sourceExact _ => .sourceExact
  | .sourceStrong _ => .sourceStrong
  | .operatorConfirmation _ => .operatorConfirmation

/-- `selected_observation_id`. -/
def Selection.observationId? : Selection → Option Nat
  | .sourceExact id | .sourceStrong id => some id
  | .operatorConfirmation _ => none

/-- `selected_operator_decision_id.is_some()`. -/
def Selection.byOperator : Selection → Bool
  | .operatorConfirmation _ => true
  | _ => false

structure RelationRow where
  id : Nat
  parentThreadId : Option Nat
  childThreadId : Option Nat
  parentThreadCanonicalKey : Key
  childThreadCanonicalKey : Key
  parentUserId : Int
  parentIdentity : Option SourceTriple
  childUserId : Int
  childIdentity : Option SourceTriple
  relationType : RelationType
  state : RelationState
  selection : Selection
  deriving DecidableEq, Repr

inductive ObservationOrigin where
  | adapter | reconciler
  deriving DecidableEq, Repr

inductive EvidenceKind where
  | sourceEvent | sourceField | negativeOrConflict | derivedRejection | derivedConflict
  deriving DecidableEq, Repr

inductive Polarity where
  | supports | negates | conflicts
  deriving DecidableEq, Repr

inductive ObservationState where
  | pending | candidate | selected | conflict | superseded | unsupported
  deriving DecidableEq, Repr

structure ObservationRow where
  id : Nat
  subject : ObservedEndpoint
  candidateParent : Option ObservedEndpoint
  relationKind : Option RelationType
  origin : ObservationOrigin
  evidenceKind : EvidenceKind
  polarity : Polarity
  sourceConfidence : Option SourceConfidence
  evidenceFingerprint : String
  state : ObservationState
  observedAt : Int
  deriving DecidableEq, Repr

inductive CandidateState where
  | pending | candidate | ambiguous | conflict | unsupported | superseded
  deriving DecidableEq, Repr

structure CandidateAssociationRow where
  id : Nat
  subjectThreadId : Option Nat
  subject : ObservedEndpoint
  candidateParentThreadId : Option Nat
  state : CandidateState
  selectedObservationId : Option Nat
  updatedAt : Int
  deriving DecidableEq, Repr

structure SourceThreadIdentityRow where
  identity : SourceIdentityKey
  threadId : Nat
  deriving DecidableEq, Repr

inductive CanonicalKeyOrigin where
  | sourceIdentity | creationUuid | backfillMapping
  deriving DecidableEq, Repr

structure ThreadCanonicalKeyRow where
  threadId : Nat
  userId : Int
  key : Key
  origin : CanonicalKeyOrigin
  deriving DecidableEq, Repr

structure ThreadDeletionMarkerRow where
  identity : SourceIdentityKey
  forbidReimport : Bool
  threadCanonicalKey : Option Key
  deriving DecidableEq, Repr

inductive OperatorDecision where
  | confirm | reject | retract
  deriving DecidableEq, Repr

structure OperatorDecisionRow where
  id : Nat
  candidateAssociationId : Nat
  decision : OperatorDecision
  reason : String
  createdAt : Int
  deriving DecidableEq, Repr

/-- `thread_group_audit`: a merge names its target, a split its partition and successors. -/
inductive AuditKind where
  | merge (targetGroupId : Nat)
  | split (canonicalPartition : List (List Key)) (successorGroupIds : List Nat)
  deriving DecidableEq, Repr

structure AuditRow where
  id : Nat
  sourceGroupId : Nat
  kind : AuditKind
  deriving DecidableEq, Repr

/-- The event types the reconciler appends. -/
inductive EventType where
  | observationRecorded | relationSelected | conflictDetected
  deriving DecidableEq, Repr

def EventType.asStr : EventType → String
  | .observationRecorded => "thread_group_observation_recorded"
  | .relationSelected => "thread_group_relation_selected"
  | .conflictDetected => "thread_group_conflict_detected"

/-- The JSON payload of an event. -/
inductive EventPayload where
  | observation (state : ObservationState) (adapterVersion : String) (evidenceKind : EvidenceKind)
  | selected (parentThreadCanonicalKey : Key) (relationType : RelationType) (selectionBasis : SelectionBasis)
  | equalRankedParents
  | conflictingParent (retractedRelationId : Nat)
  deriving DecidableEq, Repr

structure EventRow where
  eventId : String
  eventType : EventType
  operationId : String
  payload : EventPayload
  deriving DecidableEq, Repr

/-- A row of `thread`, as far as ThreadGroup code reads it. -/
structure ThreadRow where
  id : Nat
  userId : Int
  channel : Option String
  deriving DecidableEq, Repr

/-- The database, and the id generator's next value. -/
structure Store where
  threads : List ThreadRow
  canonicalKeys : List ThreadCanonicalKeyRow
  sourceIdentities : List SourceThreadIdentityRow
  markers : List ThreadDeletionMarkerRow
  groups : List GroupRow
  members : List MemberRow
  relations : List RelationRow
  observations : List ObservationRow
  candidates : List CandidateAssociationRow
  decisions : List OperatorDecisionRow
  audits : List AuditRow
  outbox : List EventRow
  nextId : Nat
  deriving DecidableEq, Repr

/-- The freshly migrated database. -/
def Store.empty : Store :=
  { threads := [], canonicalKeys := [], sourceIdentities := [], markers := [], groups := [], members := [],
    relations := [], observations := [], candidates := [], decisions := [], audits := [], outbox := [],
    nextId := 1 }

end MemoryStore.ThreadGroup
