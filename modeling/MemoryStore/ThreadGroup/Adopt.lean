/-
Adopting a parent (`app/src/app/thread_group/reconcile.rs`, from
`apply_selected_relation` down): the walks up the relation graph, the
membership moves that follow an adoption, and the bookkeeping of candidates.

The loops that follow the relation graph carry a step budget of one more than
there are relations; that it never runs out is a theorem, not a guard of the
source.
-/
import MemoryStore.Lib.Forest
import MemoryStore.ThreadGroup.Domain
import MemoryStore.ThreadGroup.Observation

namespace MemoryStore.ThreadGroup

open Forest

/-! ## Walking the relation graph -/

/-- The parent key of a key's active relation. -/
def Store.activeParent (s : Store) (key : Key) : Option Key :=
  (s.findActiveByChild key).map RelationRow.parentThreadCanonicalKey

/-- The step budget of the walks. -/
def Store.walkSteps (s : Store) : Nat := s.relations.length + 1

/-- The walk of `ancestor_contains`. -/
def Store.ancestorWalk (s : Store) (startKey targetKey : Key) : WalkEnd Key :=
  walk s.activeParent (fun key => key = targetKey) s.walkSteps [] startKey

/-- `ancestor_contains`. -/
def Store.ancestorContains (s : Store) (startKey targetKey : Key) : Bool :=
  match s.ancestorWalk startKey targetKey with
  | .stopped _ => true
  | _ => false

/-- The endpoint an identity triple was stored for, unknown when there is none. -/
def tripleEndpoint (userId : Int) : Option SourceTriple → ObservedEndpoint
  | some t => ⟨userId, t.source, .known t.identityScope, t.nativeId⟩
  | none => ⟨userId, "", .unknown, ""⟩

def RelationRow.parentEndpoint (r : RelationRow) : ObservedEndpoint := tripleEndpoint r.parentUserId r.parentIdentity
def RelationRow.childEndpoint (r : RelationRow) : ObservedEndpoint := tripleEndpoint r.childUserId r.childIdentity

/-- How the walk of `resolve_anchor_group` ends: at a key with a current member,
at a key without parents, or at a key it has seen before. -/
inductive AnchorEnd where
  | member (groupId : Nat) (key : Key)
  | root (key : Key) (threadId : Option Nat) (endpoint : ObservedEndpoint)
  | revisited (key : Key) (threadId : Option Nat) (endpoint : ObservedEndpoint)
  | exhausted
  deriving DecidableEq, Repr

/-- The walk of `resolve_anchor_group`. -/
def Store.anchorWalk (s : Store) : Nat → List Key → Key → Option Nat → ObservedEndpoint → AnchorEnd
  | 0, _, _, _, _ => .exhausted
  | steps + 1, visited, key, threadId, endpoint =>
    if key ∈ visited then .revisited key threadId endpoint
    else match s.findCurrent key with
      | some member => .member member.groupId key
      | none =>
        match s.findActiveByChild key with
        | none => .root key threadId endpoint
        | some relation =>
          s.anchorWalk steps (key :: visited) relation.parentThreadCanonicalKey relation.parentThreadId
            relation.parentEndpoint

/-! ## Membership -/

/-- The group an emptied source group's history is redirected to, unless an
operator owns it; redirects that pointed at it are moved along. -/
def redirectEmptiedGroup (oldGroup targetGroupId : Nat) : StoreTx Unit := do
  let s ← Tx.get
  if s.countCurrentByGroupId oldGroup ≠ 0 then pure ()
  else match s.findGroup oldGroup with
    | none => Tx.fail (.bail "moved source group is missing")
    | some old => do
      Tx.ensure old.isActive (.bail "moved source group is not active")
      if old.groupingAuthority ≠ .reconciler then pure ()
      else match s.findGroup targetGroupId with
        | none => Tx.fail (.bail "automatic redirect target is missing")
        | some target => do
          Tx.ensure target.isActive (.bail "automatic redirect target is not active")
          let inbound := s.listRedirectingTo oldGroup
          let redirected ← redirectGroup oldGroup targetGroupId
          Tx.ensure redirected (.bail "automatic group redirect was not applied")
          Tx.forEach inbound fun redirect => do
            let repointed ← repointRedirectFrom redirect.id oldGroup targetGroupId
            Tx.ensure repointed (.bail "incoming group redirect changed concurrently")

/-- The insert that ends `place_member`: a placeholder stays one, and a live
member without a resolvable thread row cannot be stored. -/
def storeAutomaticMember (deletedAt : Option Int) (threadId : Option Nat) (key : Key)
    (endpoint : ObservedEndpoint) (targetGroupId : Nat) (anchorKey : Key) : StoreTx Unit := do
  let store (state : MemberState) : StoreTx Unit := do
    let identity ← endpointTriple "thread_group_member" endpoint
    insertMember
      { groupId := targetGroupId
        threadCanonicalKey := key
        userId := endpoint.userId
        identity := some identity
        role := if key = anchorKey then .root else .member
        state
        provenance := .reconciler }
  match deletedAt, threadId with
  | some deletedAt, _ => store (.deleted deletedAt)
  | none, some threadId => store (.active threadId)
  | none, none => pure ()

/-- The deletion time of a placeholder. -/
def MemberState.deletedAt? : MemberState → Option Int
  | .deleted deletedAt => some deletedAt
  | _ => none

/-- `place_member`. -/
def placeMember (threadId : Option Nat) (key : Key) (endpoint : ObservedEndpoint) (targetGroupId : Nat)
    (anchorKey : Key) : StoreTx Unit := do
  let s ← Tx.get
  match s.findCurrent key with
  | none => storeAutomaticMember none threadId key endpoint targetGroupId anchorKey
  | some existing =>
    if existing.provenance = .operator then pure ()
    else if existing.groupId = targetGroupId then pure ()
    else do
      let redirected ← redirectCurrent key existing.groupId
      Tx.ensure redirected (.bail "automatic member moved before reconciliation completed")
      redirectEmptiedGroup existing.groupId targetGroupId
      storeAutomaticMember existing.state.deletedAt? threadId key endpoint targetGroupId anchorKey

/-- One pass of `reassign_automatic_descendants` over the relations of a popped
parent: it answers with the queue and the keys enqueued so far. -/
def reassignChildren (targetGroupId : Nat) :
    List RelationRow → List Key → List Key → StoreTx (List Key × List Key)
  | [], queue, enqueued => pure (queue, enqueued)
  | relation :: relations, queue, enqueued => do
    let childKey := relation.childThreadCanonicalKey
    if childKey ∈ enqueued then reassignChildren targetGroupId relations queue enqueued
    else do
      let s ← Tx.get
      -- An operator-fixed member is neither moved nor traversed.
      if (s.findCurrent childKey).any (·.provenance = .operator) then
        reassignChildren targetGroupId relations queue (childKey :: enqueued)
      else do
        placeMember relation.childThreadId childKey relation.childEndpoint targetGroupId ""
        reassignChildren targetGroupId relations (childKey :: queue) (childKey :: enqueued)

/-- The loop of `reassign_automatic_descendants`; the head of the queue is popped next. -/
def reassignLoop (targetGroupId : Nat) : Nat → List Key → List Key → StoreTx Unit
  | _, [], _ => pure ()
  | 0, _ :: _, _ => Tx.fail .outOfSteps
  | steps + 1, parentKey :: queue, enqueued => do
    let s ← Tx.get
    let (queue, enqueued) ←
      reassignChildren targetGroupId (s.listActiveByParent parentKey) queue enqueued
    reassignLoop targetGroupId steps queue enqueued

/-- `reassign_automatic_descendants`. -/
def reassignAutomaticDescendants (startKey : Key) (targetGroupId : Nat) : StoreTx Unit := do
  let s ← Tx.get
  reassignLoop targetGroupId s.walkSteps [startKey] [startKey]

/-! ## Candidates -/

/-- `promotable_source_candidate`. -/
def promotableSourceCandidate (confidence : Option SourceConfidence) (relationKind : Option RelationType)
    (polarity : Polarity) : Option (SourceConfidence × RelationType) :=
  match confidence, relationKind, polarity with
  | some .exact, some relationType, .supports => some (.exact, relationType)
  | some .strong, some relationType, .supports => some (.strong, relationType)
  | _, _, _ => none

/-- `retract_active_relation`. -/
def retractActiveRelation (subjectKey : Key) : StoreTx Unit := do
  let s ← Tx.get
  match s.findActiveByChild subjectKey with
  | none => pure ()
  | some existing => setRelationState existing.id .retracted

/-- Whether `record_candidate` may give an association another state. -/
def mayBecome (existing state : CandidateState) : Bool :=
  existing = .pending || (state = .conflict && existing = .candidate)

/-- `record_candidate`. -/
def recordCandidate (subjectThreadId : Nat) (subject : ObservedEndpoint) (candidateParentThreadId : Option Nat)
    (state : CandidateState) (observationId : Nat) (now : Int) : StoreTx Unit := do
  let s ← Tx.get
  let associations := (s.listCandidatesBySubject subject).filter (·.selectedObservationId = some observationId)
  if associations.isEmpty then
    insertCandidate fun id =>
      { id
        subjectThreadId := some subjectThreadId
        subject
        candidateParentThreadId
        state
        selectedObservationId := some observationId
        updatedAt := now }
  else
    Tx.forEach associations fun existing =>
      if existing.state = state && existing.candidateParentThreadId = candidateParentThreadId then pure ()
      else if mayBecome existing.state state then do
        let _ ← updateCandidateState existing.id existing.state state candidateParentThreadId now
        pure ()
      else pure ()

/-- The thread an endpoint's identity resolves to (`find_resolved_tx` of its lock key). -/
def Store.resolvedThreadId (s : Store) (endpoint : ObservedEndpoint) : Option Nat :=
  (s.findResolved endpoint.lockKey).map SourceThreadIdentityRow.threadId

/-- The selection columns of a relation adopted from source evidence; any other
evidence would leave them unpaired, which the CHECK rejects. -/
def sourceSelection (evidence : CandidateEvidence) (observationId : Nat) : StoreTx Selection :=
  match evidence with
  | .source .exact => pure (.sourceExact observationId)
  | .source .strong => pure (.sourceStrong observationId)
  | _ => Tx.fail (.check "thread_relation")

/-- `resolve_pending_for_selected_observation`. -/
def resolvePendingForSelectedObservation (subject : ObservedEndpoint) (subjectKey : Key) (observationId : Nat)
    (now : Int) : StoreTx Unit := do
  let s ← Tx.get
  match s.findActiveByChild subjectKey with
  | none => pure ()
  | some relation =>
    if relation.selection.observationId? ≠ some observationId then pure ()
    else match relation.parentThreadId, subject.key? with
      | some parentThreadId, some _ =>
        Tx.forEach (s.listCandidatesBySubject subject) fun association =>
          if association.state = .pending && association.selectedObservationId = some observationId then do
            let updated ← updateCandidateState association.id .pending .candidate (some parentThreadId) now
            Tx.ensure updated (.bail "selected observation candidate changed concurrently")
          else pure ()
      | _, _ => pure ()

/-! ## Anchors and adoption -/

variable [KeyHash]

/-- The reconciler group of a root key: the active one, or a new one. -/
def findOrCreateReconcilerGroup (rootKey : Key) (groupOwnerUserId : Option Int) : StoreTx Nat := do
  let groupKey := reconcilerGroupCanonicalKey rootKey
  let s ← Tx.get
  match s.findActiveByCanonicalKey groupKey with
  | some group => pure group.id
  | none =>
    match groupOwnerUserId with
    | none => Tx.fail (.bail "cannot create a ThreadGroup without a saved subject ThreadGroup owner")
    | some userId => createGroup userId groupKey none .reconciler

/-- The end of `resolve_anchor_group` at the topmost ancestor. -/
def anchorAt (key : Key) (threadId : Option Nat) (endpoint : ObservedEndpoint)
    (groupOwnerUserId : Option Int) : StoreTx (Nat × Key) := do
  let groupId ← findOrCreateReconcilerGroup key groupOwnerUserId
  let s ← Tx.get
  if (s.findCurrent key).isNone then placeMember threadId key endpoint groupId key else pure ()
  pure (groupId, key)

/-- `resolve_anchor_group`. -/
def resolveAnchorGroup (parentThreadId : Option Nat) (parentKey : Key) (parent : ObservedEndpoint)
    (groupOwnerUserId : Option Int) : StoreTx (Nat × Key) := do
  let s ← Tx.get
  match s.anchorWalk s.walkSteps [] parentKey parentThreadId parent with
  | .member groupId key => pure (groupId, key)
  | .root key threadId endpoint => anchorAt key threadId endpoint groupOwnerUserId
  | .revisited key threadId endpoint => anchorAt key threadId endpoint groupOwnerUserId
  | .exhausted => Tx.fail .outOfSteps

/-- `ensure_membership`. -/
def ensureMembership (subjectThreadId : Nat) (subjectKey : Key) (subject : ObservedEndpoint)
    (parentThreadId : Option Nat) (parentKey : Key) (parent : ObservedEndpoint)
    (groupOwnerUserId : Option Int) : StoreTx Unit := do
  let s ← Tx.get
  if (s.findCurrent subjectKey).any (·.provenance = .operator) then pure ()
  else do
    let (targetGroupId, anchorKey) ← resolveAnchorGroup parentThreadId parentKey parent groupOwnerUserId
    placeMember (some subjectThreadId) subjectKey subject targetGroupId anchorKey
    reassignAutomaticDescendants subjectKey targetGroupId

/-- `append_relation_event`. -/
def appendRelationEvent (eventType : EventType) (subjectKey : Key) (operationId : String)
    (payload : EventPayload) : StoreTx Unit :=
  appendIdempotent
    { eventId := eventIdFor (if eventType = .conflictDetected then .conflictDetected else .relationSelected)
        subjectKey
      eventType
      operationId
      payload }

/-- `record_derived_conflict`. -/
def recordDerivedConflict (subject : ObservedEndpoint) (reason : String) (now : Int) : StoreTx Unit := do
  let input : ObservationInput :=
    { subject
      candidateParent := none
      relationKind := none
      evidenceKind := .derivedConflict
      polarity := .conflicts
      sourceConfidence := none
      adapterVersion := "reconciler@1"
      sourceRecordRef := "reconciler:conflict:" ++ reason
      observedAt := now }
  let s ← Tx.get
  if (s.findObservationByIdentity (input.observationIdentity .reconciler)).isNone then do
    let _ ← insertObservation (newObservation input .reconciler .conflict)
    pure ()
  else pure ()

/-- `apply_selected_relation`. -/
def applySelectedRelation (subjectThreadId : Nat) (subjectKey : Key) (subject parent : ObservedEndpoint)
    (winner : Candidate) (observationId : Nat) (operationId : String) (now : Int) (groupOwnerUserId : Int) :
    StoreTx (Option Nat) := do
  let s ← Tx.get
  let parentThreadId := s.resolvedThreadId parent
  match s.findActiveByChild subjectKey with
  | some existing =>
    if existing.parentThreadCanonicalKey = winner.parentKey && existing.relationType = winner.relationType then do
      ensureMembership subjectThreadId subjectKey subject parentThreadId winner.parentKey parent
        (some groupOwnerUserId)
      pure (some existing.id)
    else do
      -- Conflicting later evidence never silently replaces the adopted relation.
      setRelationState existing.id .retracted
      recordDerivedConflict subject "conflicting_parent" now
      recordCandidate subjectThreadId subject parentThreadId .conflict observationId now
      appendRelationEvent .conflictDetected subjectKey operationId (.conflictingParent existing.id)
      pure none
  | none => do
    let selection ← sourceSelection winner.evidence observationId
    let parentIdentity ← endpointTriple "thread_relation" parent
    let childIdentity ← endpointTriple "thread_relation" subject
    let relationId ← insertRelation fun id =>
      { id
        parentThreadId
        childThreadId := some subjectThreadId
        parentThreadCanonicalKey := winner.parentKey
        childThreadCanonicalKey := subjectKey
        parentUserId := parent.userId
        parentIdentity := some parentIdentity
        childUserId := subject.userId
        childIdentity := some childIdentity
        relationType := winner.relationType
        state := .active
        selection }
    ensureMembership subjectThreadId subjectKey subject parentThreadId winner.parentKey parent
      (some groupOwnerUserId)
    appendRelationEvent .relationSelected subjectKey operationId
      (.selected winner.parentKey winner.relationType selection.basis)
    pure (some relationId)

end MemoryStore.ThreadGroup
