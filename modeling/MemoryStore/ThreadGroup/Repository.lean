/-
The ThreadGroup repositories (`infra/src/infra/thread_group/*.rs`): one
definition per SQL statement the services use. A query is a function of the
store; a write is a transaction, which fails where a unique index or a CHECK of
the schema rejects it.

The queries that read the pool instead of the open transaction are the same
functions: all writers serialise on the group membership lock, and no service
reads through the pool what its own transaction has already changed.
-/
import MemoryStore.Lib.Table
import MemoryStore.Lib.Tx
import MemoryStore.ThreadGroup.Rows

namespace MemoryStore.ThreadGroup

open Table

/-- The unique indexes an insert can run into. -/
inductive UniqueIndex where
  | activeGroupCanonicalKey
  | currentMemberCanonicalKey
  | activeChildCanonicalKey
  | canonicalKeyThread
  | canonicalKey
  | observationIdentity
  | mergeSourceGroup
  | splitSourceGroup
  deriving DecidableEq, Repr

/-- Why a transaction rolls back: a unique index, a CHECK of a table, an error
the service raises itself, or a loop that ran out of the steps given to it. -/
inductive TxError where
  | unique (index : UniqueIndex)
  | check (table : String)
  | bail (message : String)
  | outOfSteps
  deriving DecidableEq, Repr

/-- A transaction on the store. -/
abbrev StoreTx := Tx TxError Store

/-- `generate_id`. -/
def generateId : StoreTx Nat := do
  let id ← Tx.reads Store.nextId
  Tx.writes fun s => { s with nextId := s.nextId + 1 }
  pure id

/-! ## Threads, canonical keys, source identities, deletion markers -/

/-- `find_row_for_update_tx`. -/
def Store.findThread (s : Store) (threadId : Nat) : Option ThreadRow :=
  s.threads.find? (fun row => row.id = threadId)

/-- `find_by_channel_and_user_id_tx`. -/
def Store.findByChannelAndUserId (s : Store) (channel : String) (userId : Int) : List ThreadRow :=
  s.threads.filter fun row => row.channel = some channel && row.userId = userId

/-- `find_by_thread_id_tx` of the canonical keys. -/
def Store.findKeyByThreadId (s : Store) (threadId : Nat) : Option ThreadCanonicalKeyRow :=
  s.canonicalKeys.find? (fun row => row.threadId = threadId)

/-- `find_by_key`. -/
def Store.findByKey (s : Store) (key : Key) : Option ThreadCanonicalKeyRow :=
  s.canonicalKeys.find? (fun row => row.key = key)

/-- `assign_tx`. -/
def assignKey (threadId : Nat) (userId : Int) (key : Key) (origin : CanonicalKeyOrigin) : StoreTx Unit := do
  let s ← Tx.get
  Tx.ensure (s.findKeyByThreadId threadId).isNone (.unique .canonicalKeyThread)
  Tx.ensure (s.findByKey key).isNone (.unique .canonicalKey)
  Tx.writes fun s => { s with canonicalKeys := s.canonicalKeys ++ [⟨threadId, userId, key, origin⟩] }

/-- `delete_tx` of the canonical keys. -/
def deleteKey (threadId : Nat) : StoreTx Unit :=
  Tx.writes fun s => { s with canonicalKeys := s.canonicalKeys.filter (fun row => row.threadId ≠ threadId) }

/-- `find_resolved_tx`. -/
def Store.findResolved (s : Store) (identity : SourceIdentityKey) : Option SourceThreadIdentityRow :=
  s.sourceIdentities.find? (fun row => row.identity = identity)

/-- `list_by_thread_id_tx`, in the order of the identity columns. -/
def Store.listIdentitiesByThreadId (s : Store) (threadId : Nat) : List SourceThreadIdentityRow :=
  (s.sourceIdentities.filter fun row => row.threadId = threadId).insertionSort fun a b =>
    a.identity.userId < b.identity.userId ∨ a.identity.userId = b.identity.userId ∧
      (a.identity.source < b.identity.source ∨ a.identity.source = b.identity.source ∧
        (a.identity.identityScope < b.identity.identityScope ∨
          a.identity.identityScope = b.identity.identityScope ∧ a.identity.nativeId ≤ b.identity.nativeId))

/-- `upsert_resolved_tx`. -/
def upsertResolved (identity : SourceIdentityKey) (threadId : Nat) : StoreTx Unit :=
  Tx.writes fun s =>
    if (s.findResolved identity).isSome then
      { s with
          sourceIdentities := modifyWhere (fun row => row.identity = identity)
            (fun row => { row with threadId }) s.sourceIdentities }
    else { s with sourceIdentities := s.sourceIdentities ++ [⟨identity, threadId⟩] }

/-- `delete_tx` of the source identities. -/
def deleteIdentity (identity : SourceIdentityKey) : StoreTx Unit :=
  Tx.writes fun s => { s with sourceIdentities := s.sourceIdentities.filter (fun row => row.identity ≠ identity) }

/-- `find_tx` of the deletion markers. -/
def Store.findMarker (s : Store) (identity : SourceIdentityKey) : Option ThreadDeletionMarkerRow :=
  s.markers.find? (fun row => row.identity = identity)

/-- `put_tx`: a re-delete replaces the marker, and keeps a key it does not bring itself. -/
def putMarker (marker : ThreadDeletionMarkerRow) : StoreTx Unit :=
  Tx.writes fun s =>
    if (s.findMarker marker.identity).isSome then
      { s with
          markers := modifyWhere (fun row => row.identity = marker.identity)
            (fun row => { marker with
              threadCanonicalKey := marker.threadCanonicalKey.or row.threadCanonicalKey }) s.markers }
    else { s with markers := s.markers ++ [marker] }

/-- `consume_tx`. -/
def consumeMarker (identity : SourceIdentityKey) : StoreTx Unit :=
  Tx.writes fun s => { s with markers := s.markers.filter (fun row => row.identity ≠ identity) }

/-! ## Groups -/

/-- `status = 'active'`. -/
def GroupRow.isActive (g : GroupRow) : Bool := g.status = .active

/-- `status = 'redirected' AND redirect_to_group_id = ?`. -/
def GroupRow.redirectsTo (g : GroupRow) (target : Nat) : Bool := g.status = .redirected target

/-- `find_by_id_tx` of the groups. -/
def Store.findGroup (s : Store) (id : Nat) : Option GroupRow :=
  s.groups.find? (fun g => g.id = id)

/-- `find_active_by_canonical_key_tx`. -/
def Store.findActiveByCanonicalKey (s : Store) (key : Key) : Option GroupRow :=
  s.groups.find? (fun g => g.groupCanonicalKey = key && g.isActive)

/-- `list_redirecting_to_tx`. -/
def Store.listRedirectingTo (s : Store) (target : Nat) : List GroupRow :=
  (s.groups.filter (·.redirectsTo target)).insertionSort fun a b => a.id ≤ b.id

/-- `create_tx` of the groups, always for an active group. -/
def createGroup (userId : Int) (groupCanonicalKey : Key) (title : Option String)
    (groupingAuthority : GroupingAuthority) : StoreTx Nat := do
  let id ← generateId
  let s ← Tx.get
  Tx.ensure (s.findActiveByCanonicalKey groupCanonicalKey).isNone (.unique .activeGroupCanonicalKey)
  Tx.writes fun s =>
    { s with groups := s.groups ++ [⟨id, userId, groupCanonicalKey, title, .active, groupingAuthority⟩] }
  pure id

/-- `redirect_tx`: an active group only, and never to itself. -/
def redirectGroup (id target : Nat) : StoreTx Bool := do
  let s ← Tx.get
  let applies := s.groups.any fun g => g.id = id && g.isActive
  Tx.ensure (!applies || id ≠ target) (.check "thread_group")
  Tx.writes fun s =>
    { s with
        groups := modifyWhere (fun g => g.id = id && g.isActive)
          (fun g => { g with status := .redirected target }) s.groups }
  pure applies

/-- `status = 'redirected'`. -/
def GroupRow.isRedirected (g : GroupRow) : Bool :=
  match g.status with
  | .redirected _ => true
  | _ => false

/-- `repoint_redirect_tx`. -/
def repointRedirect (id target : Nat) : StoreTx Bool := do
  let s ← Tx.get
  let applies := s.groups.any fun g => g.id = id && g.isRedirected
  Tx.ensure (!applies || id ≠ target) (.check "thread_group")
  Tx.writes fun s =>
    { s with
        groups := modifyWhere (fun g => g.id = id && g.isRedirected)
          (fun g => { g with status := .redirected target }) s.groups }
  pure applies

/-- `repoint_redirect_from_tx`. -/
def repointRedirectFrom (id fromTarget target : Nat) : StoreTx Bool := do
  let s ← Tx.get
  let applies := s.groups.any fun g => g.id = id && g.redirectsTo fromTarget
  Tx.ensure (!applies || id ≠ target) (.check "thread_group")
  Tx.writes fun s =>
    { s with
        groups := modifyWhere (fun g => g.id = id && g.redirectsTo fromTarget)
          (fun g => { g with status := .redirected target }) s.groups }
  pure applies

/-- `mark_split_tx`. -/
def markSplit (id : Nat) : StoreTx Unit :=
  Tx.writes fun s =>
    { s with
        groups := modifyWhere (fun g => g.id = id && g.isActive) (fun g => { g with status := .split }) s.groups }

/-- `set_grouping_authority_tx`. -/
def setGroupingAuthority (id : Nat) (authority : GroupingAuthority) : StoreTx Unit :=
  Tx.writes fun s =>
    { s with
        groups := modifyWhere (fun g => g.id = id) (fun g => { g with groupingAuthority := authority }) s.groups }

/-- `delete_tx` of the groups. -/
def deleteGroup (id : Nat) : StoreTx Bool := do
  let s ← Tx.get
  Tx.writes fun s => { s with groups := s.groups.filter (fun g => g.id ≠ id) }
  pure (s.findGroup id).isSome

/-! ## Members -/

/-- `state IN ('active', 'deleted')`. -/
def MemberRow.current (m : MemberRow) : Bool := m.state.current

/-- `find_current_by_thread_canonical_key_tx`. -/
def Store.findCurrent (s : Store) (key : Key) : Option MemberRow :=
  s.members.find? (fun m => m.threadCanonicalKey = key && m.current)

/-- `list_current_by_group_id_tx`. -/
def Store.listCurrentByGroupId (s : Store) (groupId : Nat) : List MemberRow :=
  (s.members.filter fun m => m.groupId = groupId && m.current).insertionSort
    fun a b => a.threadCanonicalKey ≤ b.threadCanonicalKey

/-- `list_all_by_group_id`; the order of the states of one key does not matter to its reader. -/
def Store.listAllByGroupId (s : Store) (groupId : Nat) : List MemberRow :=
  (s.members.filter fun m => m.groupId = groupId).insertionSort
    fun a b => a.threadCanonicalKey ≤ b.threadCanonicalKey

/-- `count_current_by_group_id_tx`. -/
def Store.countCurrentByGroupId (s : Store) (groupId : Nat) : Nat :=
  s.members.countP fun m => m.groupId = groupId && m.current

/-- `exists_source_identity_outside_group_tx`. -/
def Store.existsSourceIdentityOutsideGroup (s : Store) (userId : Int) (identity : SourceTriple)
    (excludeGroupId : Nat) : Bool :=
  s.members.any fun m => m.userId = userId && m.identity = some identity && m.groupId ≠ excludeGroupId

/-- The all-or-nothing triple of an endpoint: an unknown scope leaves the
identity columns half filled, which the CHECK of the table rejects. -/
def endpointTriple (table : String) (endpoint : ObservedEndpoint) : StoreTx SourceTriple :=
  match endpoint.identityScope with
  | .known scope => pure ⟨endpoint.source, scope, endpoint.nativeId⟩
  | .unknown => Tx.fail (.check table)

/-- `insert_tx` of the members. -/
def insertMember (row : MemberRow) : StoreTx Unit := do
  let s ← Tx.get
  Tx.ensure (!row.current || (s.findCurrent row.threadCanonicalKey).isNone) (.unique .currentMemberCanonicalKey)
  Tx.writes fun s => { s with members := s.members ++ [row] }

/-- What redirecting leaves of a state: the thread id and the deletion time stay in the row. -/
def MemberState.redirect : MemberState → MemberState
  | .active threadId => .redirected (some threadId) none
  | .deleted deletedAt => .redirected none (some deletedAt)
  | .redirected threadId deletedAt => .redirected threadId deletedAt

/-- `redirect_current_tx`. -/
def redirectCurrent (key : Key) (expectedGroupId : Nat) : StoreTx Bool := do
  let s ← Tx.get
  Tx.writes fun s =>
    { s with
        members := modifyWhere (fun m => m.threadCanonicalKey = key && m.groupId = expectedGroupId && m.current)
          (fun m => { m with state := m.state.redirect }) s.members }
  pure (s.members.any fun m => m.threadCanonicalKey = key && m.groupId = expectedGroupId && m.current)

/-- `mark_current_deleted_tx`. -/
def markCurrentDeleted (key : Key) (deletedAt : Int) : StoreTx Unit :=
  Tx.writes fun s =>
    { s with
        members := modifyWhere (fun m => m.threadCanonicalKey = key && m.state.isActive)
          (fun m => { m with state := .deleted deletedAt }) s.members }

/-- `revive_current_tx`. -/
def reviveCurrent (key : Key) (threadId : Nat) : StoreTx Unit :=
  Tx.writes fun s =>
    { s with
        members := modifyWhere (fun m => m.threadCanonicalKey = key && m.state.isDeleted)
          (fun m => { m with state := .active threadId }) s.members }

/-- `set_role_provenance_tx`. -/
def setRoleProvenance (key : Key) (role : MemberRole) (provenance : GroupingAuthority) : StoreTx Unit :=
  Tx.writes fun s =>
    { s with
        members := modifyWhere (fun m => m.threadCanonicalKey = key && m.current)
          (fun m => { m with role, provenance }) s.members }

/-- `delete_by_group_id_tx` of the members. -/
def deleteMembersByGroupId (groupId : Nat) : StoreTx Unit :=
  Tx.writes fun s => { s with members := s.members.filter (fun m => m.groupId ≠ groupId) }

/-! ## Relations -/

/-- `state = 'active'`. -/
def RelationRow.isActive (r : RelationRow) : Bool := r.state = .active

/-- `find_active_by_child_canonical_key_tx`. -/
def Store.findActiveByChild (s : Store) (key : Key) : Option RelationRow :=
  s.relations.find? (fun r => r.childThreadCanonicalKey = key && r.isActive)

/-- `list_by_parent_canonical_key_tx` over the active relations. -/
def Store.listActiveByParent (s : Store) (key : Key) : List RelationRow :=
  (s.relations.filter fun r => r.parentThreadCanonicalKey = key && r.isActive).insertionSort
    fun a b => a.id ≤ b.id

/-- `insert_tx` of the relations: the id is drawn here, the row is otherwise given. -/
def insertRelation (row : Nat → RelationRow) : StoreTx Nat := do
  let id ← generateId
  let s ← Tx.get
  Tx.ensure ((row id).parentThreadCanonicalKey ≠ (row id).childThreadCanonicalKey) (.check "thread_relation")
  Tx.ensure (!(row id).isActive || (s.findActiveByChild (row id).childThreadCanonicalKey).isNone)
    (.unique .activeChildCanonicalKey)
  Tx.writes fun s => { s with relations := s.relations ++ [row id] }
  pure id

/-- `set_state_tx` from the active state. -/
def setRelationState (id : Nat) (state : RelationState) : StoreTx Unit :=
  Tx.writes fun s =>
    { s with
        relations := modifyWhere (fun r => r.id = id && r.isActive) (fun r => { r with state }) s.relations }

/-- `delete_by_id_tx` of the relations. -/
def deleteRelation (id : Nat) : StoreTx Unit :=
  Tx.writes fun s => { s with relations := s.relations.filter (fun r => r.id ≠ id) }

/-- `detach_parent_thread_id_tx`. -/
def detachParentThreadId (threadId : Nat) : StoreTx Unit :=
  Tx.writes fun s =>
    { s with
        relations := modifyWhere (fun r => r.parentThreadId = some threadId)
          (fun r => { r with parentThreadId := none }) s.relations }

/-- `detach_child_thread_id_tx`. -/
def detachChildThreadId (threadId : Nat) : StoreTx Unit :=
  Tx.writes fun s =>
    { s with
        relations := modifyWhere (fun r => r.childThreadId = some threadId)
          (fun r => { r with childThreadId := none }) s.relations }

/-- `reconnect_parent_thread_id_tx`. -/
def reconnectParentThreadId (key : Key) (threadId : Nat) : StoreTx Unit :=
  Tx.writes fun s =>
    { s with
        relations := modifyWhere (fun r => r.parentThreadCanonicalKey = key && r.parentThreadId = none)
          (fun r => { r with parentThreadId := some threadId }) s.relations }

/-- `reconnect_child_thread_id_tx`. -/
def reconnectChildThreadId (key : Key) (threadId : Nat) : StoreTx Unit :=
  Tx.writes fun s =>
    { s with
        relations := modifyWhere (fun r => r.childThreadCanonicalKey = key && r.childThreadId = none)
          (fun r => { r with childThreadId := some threadId }) s.relations }

/-! ## Observations and candidate associations -/

/-- `ObservationIdentity`: the columns of the idempotency key. -/
structure ObservationIdentity where
  subject : ObservedEndpoint
  candidateParent : Option ObservedEndpoint
  evidenceKind : EvidenceKind
  evidenceFingerprint : String
  deriving DecidableEq, Repr

/-- `observation_identity`. -/
def ObservationRow.observationIdentity (o : ObservationRow) : ObservationIdentity :=
  ⟨o.subject, o.candidateParent, o.evidenceKind, o.evidenceFingerprint⟩

/-- `find_by_identity_tx`. -/
def Store.findObservationByIdentity (s : Store) (identity : ObservationIdentity) : Option ObservationRow :=
  s.observations.find? (fun o => o.observationIdentity = identity)

/-- `find_by_id` of the observations. -/
def Store.findObservation (s : Store) (id : Nat) : Option ObservationRow :=
  s.observations.find? (fun o => o.id = id)

/-- The CHECKs of `thread_observation`: adapter rows carry source evidence with a
confidence, reconciler rows derived evidence without one. -/
def ObservationRow.wellFormed (o : ObservationRow) : Bool :=
  match o.origin, o.evidenceKind with
  | .adapter, .sourceEvent | .adapter, .sourceField | .adapter, .negativeOrConflict => o.sourceConfidence.isSome
  | .reconciler, .derivedRejection | .reconciler, .derivedConflict => o.sourceConfidence.isNone
  | _, _ => false

/-- `insert_tx` of the observations. The unique key has a nullable column, the
parent's user id, so rows without a parent never collide on it. -/
def insertObservation (row : Nat → ObservationRow) : StoreTx Nat := do
  let id ← generateId
  let s ← Tx.get
  Tx.ensure (row id).wellFormed (.check "thread_observation")
  Tx.ensure ((row id).candidateParent.isNone || (s.findObservationByIdentity (row id).observationIdentity).isNone)
    (.unique .observationIdentity)
  Tx.writes fun s => { s with observations := s.observations ++ [row id] }
  pure id

/-- The order `observed_at, id`. -/
def observationOrder (a b : ObservationRow) : Prop :=
  a.observedAt < b.observedAt ∨ a.observedAt = b.observedAt ∧ a.id ≤ b.id

instance : DecidableRel observationOrder := fun a b => by unfold observationOrder; infer_instance

/-- `list_by_subject_tx` of the observations, for a known subject scope. -/
def Store.listObservationsBySubject (s : Store) (subject : SourceIdentityKey) : List ObservationRow :=
  (s.observations.filter fun o => o.subject = subject.endpoint).insertionSort observationOrder

/-- `list_pending_by_candidate_parent_tx`. -/
def Store.listPendingByCandidateParent (s : Store) (parent : SourceIdentityKey) : List ObservationRow :=
  (s.observations.filter fun o => o.candidateParent = some parent.endpoint &&
    s.candidates.any fun c => c.selectedObservationId = some o.id && c.state = .pending).insertionSort
      observationOrder

/-- `find_by_id_tx` of the candidate associations. -/
def Store.findCandidate (s : Store) (id : Nat) : Option CandidateAssociationRow :=
  s.candidates.find? (fun c => c.id = id)

/-- The order `updated_at, id`. -/
def candidateOrder (a b : CandidateAssociationRow) : Prop :=
  a.updatedAt < b.updatedAt ∨ a.updatedAt = b.updatedAt ∧ a.id ≤ b.id

instance : DecidableRel candidateOrder := fun a b => by unfold candidateOrder; infer_instance

/-- `list_by_subject_identity_tx`. -/
def Store.listCandidatesBySubject (s : Store) (subject : ObservedEndpoint) : List CandidateAssociationRow :=
  (s.candidates.filter fun c => c.subject = subject).insertionSort candidateOrder

/-- `insert_tx` of the candidate associations. -/
def insertCandidate (row : Nat → CandidateAssociationRow) : StoreTx Unit := do
  let id ← generateId
  Tx.writes fun s => { s with candidates := s.candidates ++ [row id] }

/-- `update_candidate_state_tx`. -/
def updateCandidateState (id : Nat) (expected state : CandidateState) (candidateParentThreadId : Option Nat)
    (now : Int) : StoreTx Bool := do
  let s ← Tx.get
  Tx.writes fun s =>
    { s with
        candidates := modifyWhere (fun c => c.id = id && c.state = expected)
          (fun c => { c with state, candidateParentThreadId, updatedAt := now }) s.candidates }
  pure (s.candidates.any fun c => c.id = id && c.state = expected)

/-- `update_selection_tx`. -/
def updateSelection (id : Nat) (expected state : CandidateState) (selectedObservationId : Option Nat)
    (now : Int) : StoreTx Unit :=
  Tx.writes fun s =>
    { s with
        candidates := modifyWhere (fun c => c.id = id && c.state = expected)
          (fun c => { c with state, selectedObservationId, updatedAt := now }) s.candidates }

/-! ## Operator decisions, audit, outbox -/

/-- `find_latest_by_candidate_association_id`. -/
def Store.findLatestDecision (s : Store) (candidateAssociationId : Nat) : Option OperatorDecisionRow :=
  ((s.decisions.filter fun d => d.candidateAssociationId = candidateAssociationId).insertionSort fun a b =>
    b.createdAt < a.createdAt ∨ a.createdAt = b.createdAt ∧ b.id ≤ a.id).head?

/-- `insert_tx` of the decisions. -/
def insertDecision (candidateAssociationId : Nat) (decision : OperatorDecision) (reason : String)
    (now : Int) : StoreTx Nat := do
  let id ← generateId
  Tx.writes fun s => { s with decisions := s.decisions ++ [⟨id, candidateAssociationId, decision, reason, now⟩] }
  pure id

/-- `audit_type = 'merge'`. -/
def AuditRow.isMerge (a : AuditRow) : Bool :=
  match a.kind with
  | .merge _ => true
  | .split .. => false

/-- `find_merge_by_source_group_id`. -/
def Store.findMergeBySource (s : Store) (sourceGroupId : Nat) : Option AuditRow :=
  s.audits.find? (fun a => a.sourceGroupId = sourceGroupId && a.isMerge)

/-- `find_split_by_source_group_id_tx`. -/
def Store.findSplitBySource (s : Store) (sourceGroupId : Nat) : Option AuditRow :=
  s.audits.find? (fun a => a.sourceGroupId = sourceGroupId && !a.isMerge)

/-- `append_merge_tx`. -/
def appendMerge (sourceGroupId targetGroupId : Nat) : StoreTx Unit := do
  let id ← generateId
  let s ← Tx.get
  Tx.ensure (s.findMergeBySource sourceGroupId).isNone (.unique .mergeSourceGroup)
  Tx.writes fun s => { s with audits := s.audits ++ [⟨id, sourceGroupId, .merge targetGroupId⟩] }

/-- `append_split_tx`. -/
def appendSplit (sourceGroupId : Nat) (canonicalPartition : List (List Key)) (successorGroupIds : List Nat) :
    StoreTx Unit := do
  let id ← generateId
  let s ← Tx.get
  Tx.ensure (s.findSplitBySource sourceGroupId).isNone (.unique .splitSourceGroup)
  Tx.writes fun s =>
    { s with audits := s.audits ++ [⟨id, sourceGroupId, .split canonicalPartition successorGroupIds⟩] }

/-- `list_by_group_id` of the audit, then `delete_by_id_tx` of each row. -/
def deleteAuditsByGroupId (groupId : Nat) : StoreTx Unit :=
  Tx.writes fun s =>
    { s with
      audits := s.audits.filter fun a => !(a.sourceGroupId = groupId || a.kind = .merge groupId) }

/-- `append_idempotent_tx`: an event id that is there already is left as it is. -/
def appendIdempotent (event : EventRow) : StoreTx Unit :=
  Tx.writes fun s =>
    if s.outbox.any fun e => e.eventId = event.eventId then s
    else { s with outbox := s.outbox ++ [event] }

end MemoryStore.ThreadGroup
