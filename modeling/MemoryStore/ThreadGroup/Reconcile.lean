/-
Adapter reconciliation and operator decisions (`app/src/app/thread_group/reconcile.rs`).

`reconcile_subject` is several transactions: the subject's own, and then one
for every pending observation that was waiting for it. They are separate
definitions here (`reconcileSubjectTx`, `reconcilePendingObservation`), and
`reconcileSubject` strings them together.

The emergency gate `THREAD_GROUP_WRITES_ENABLED` is taken as open: closed, every
operation here fails before its transaction begins.
-/
import MemoryStore.ThreadGroup.Adopt

namespace MemoryStore.ThreadGroup

/-- `ReconciliationOutcome`. -/
structure ReconciliationOutcome where
  observationIds : List Nat := []
  relationSelected : Option Nat := none
  groupId : Option Nat := none
  conflict : Bool := false
  pending : Nat := 0
  deriving DecidableEq, Repr

/-- A candidate with the endpoint and the observation it came from. -/
structure OfferedCandidate where
  candidate : Candidate
  parent : ObservedEndpoint
  observationId : Nat
  deriving DecidableEq, Repr

/-- What one piece of evidence offers: nothing, a parent to wait for (with the
thread it already resolves to), or a candidate. -/
inductive ParentOffer where
  | nothing
  | pending (parentThreadId : Option Nat)
  | offered (offer : OfferedCandidate)
  deriving DecidableEq, Repr

/-- The resolution of one input in `reconcile_subject_inner`: the evidence must be
promotable, and its parent resolved, unmarked, keyed and not a placeholder. -/
def Store.offerOf (s : Store) (input : ObservationInput) (observationId : Nat) : ParentOffer :=
  match input.candidateParent with
  | none => .nothing
  | some parent =>
    match promotableSourceCandidate input.sourceConfidence input.relationKind input.polarity with
    | none => .nothing
    | some (confidence, relationType) =>
      match parent.key? with
      | none => .pending none
      | some parentLock =>
        match s.findResolved parentLock with
        | none => .pending none
        | some resolved =>
          if (s.findMarker parentLock).isSome then .pending (some resolved.threadId)
          else match s.findKeyByThreadId resolved.threadId with
            | none => .pending (some resolved.threadId)
            | some parentKeyRow =>
              if (s.findCurrent parentKeyRow.key).any (·.state.isDeleted) then
                .pending (some resolved.threadId)
              else
                .offered ⟨⟨parentKeyRow.key, relationType, .source confidence⟩, parent, observationId⟩

/-- Offer one input; one whose parent must be waited for leaves a pending association. -/
def offerCandidate (subjectThreadId : Nat) (subject : ObservedEndpoint) (now : Int)
    (input : ObservationInput × Nat) : StoreTx ParentOffer := do
  let s ← Tx.get
  let offer := s.offerOf input.1 input.2
  match offer with
  | .pending parentThreadId => recordCandidate subjectThreadId subject parentThreadId .pending input.2 now
  | _ => pure ()
  pure offer

def ParentOffer.candidate? : ParentOffer → Option OfferedCandidate
  | .offered offer => some offer
  | _ => none

def ParentOffer.isPending : ParentOffer → Bool
  | .pending _ => true
  | _ => false

/-- The first offer of a candidate. -/
def offerFor (offers : List OfferedCandidate) (winner : Candidate) : Option OfferedCandidate :=
  offers.find? (·.candidate = winner)

/-- `winner_observation_id`. -/
def winnerObservationId (offers : List OfferedCandidate) (winner : Candidate) : Nat :=
  ((offerFor offers winner).map OfferedCandidate.observationId).getD 0

/-- Record the offers of the winners of a conflict. -/
def recordWinners (subjectThreadId : Nat) (subject : ObservedEndpoint) (offers : List OfferedCandidate)
    (winners : List Candidate) (now : Int) : StoreTx Unit :=
  Tx.forEach winners fun winner =>
    match offerFor offers winner with
    | none => pure ()
    | some offer => do
      let s ← Tx.get
      recordCandidate subjectThreadId subject (s.resolvedThreadId offer.parent) .conflict offer.observationId now

variable [KeyHash]

/-- The `match` on the selection in `reconcile_subject_inner`: the relation
selected, whether it is a conflict, and the group when a parent was applied. -/
def adoptParent (subjectThreadId : Nat) (subjectKey : Key) (subject : ObservedEndpoint)
    (offers : List OfferedCandidate) (operationId : String) (now : Int) (groupOwnerUserId : Int) :
    StoreTx (Option Nat × Bool × Option Nat) :=
  match selectParentCandidate (offers.map OfferedCandidate.candidate) with
  | .noSelection => pure (none, false, none)
  | .conflict winners => do
    retractActiveRelation subjectKey
    recordWinners subjectThreadId subject offers winners now
    appendRelationEvent .conflictDetected subjectKey operationId .equalRankedParents
    pure (none, true, none)
  | .selected winner => do
    let s ← Tx.get
    -- A self edge, or one that would close a cycle: evidence retained, edge rejected.
    if winner.parentKey = subjectKey || s.ancestorContains winner.parentKey subjectKey then do
      recordCandidate subjectThreadId subject none .conflict (winnerObservationId offers winner) now
      pure (none, false, none)
    else match offerFor offers winner with
      | none => Tx.fail (.bail "winner is from candidates")
      | some offer => do
        let relationId ← applySelectedRelation subjectThreadId subjectKey subject offer.parent winner
          offer.observationId operationId now groupOwnerUserId
        if relationId.isSome then
          resolvePendingForSelectedObservation subject subjectKey offer.observationId now
        else pure ()
        let s ← Tx.get
        pure (relationId, relationId.isNone, (s.findCurrent subjectKey).map MemberRow.groupId)

/-- The singleton group of a subject with no current membership. -/
def ensureSingleton (subjectThreadId : Nat) (subjectKey : Key) (subject : ObservedEndpoint)
    (groupOwnerUserId : Int) : StoreTx (Option Nat) := do
  let s ← Tx.get
  if (s.findCurrent subjectKey).isSome then pure none
  else do
    let groupId ← findOrCreateReconcilerGroup subjectKey (some groupOwnerUserId)
    let identity ← endpointTriple "thread_group_member" subject
    insertMember
      { groupId
        threadCanonicalKey := subjectKey
        userId := subject.userId
        identity := some identity
        role := .root
        state := .active subjectThreadId
        provenance := .reconciler }
    pure (some groupId)

/-- The checks of an import RPC: the thread and its owner, evidence for an unknown
scope, no deletion marker, and no other thread behind the identity. -/
def checkImportGuard (subjectThreadId : Nat) (subject : ObservedEndpoint)
    (observations : List ObservationInput) : StoreTx Unit := do
  let s ← Tx.get
  match s.findThread subjectThreadId with
  | none => Tx.fail (.bail "imported subject thread not found")
  | some row => do
    Tx.ensure (subject.userId = row.userId) (.bail "imported subject owner does not match thread owner")
    match subject.key? with
    | none => Tx.ensure (!observations.isEmpty) (.bail "unknown imported subject requires observation evidence")
    | some identity => do
      Tx.ensure (s.findMarker identity).isNone (.bail "imported subject has a deletion marker")
      Tx.ensure ((s.findResolved identity).all (·.threadId = subjectThreadId))
        (.bail "imported subject identity belongs to another thread")

/-- The subject's canonical key: the one its thread has, or the one of its
identity, assigned now; and the mapping of the identity to the thread. -/
def assignSubjectKey (subjectThreadId : Nat) (identity : SourceIdentityKey) : StoreTx Key := do
  let s ← Tx.get
  let subjectKey ← match s.findKeyByThreadId subjectThreadId with
    | some assignedKey => pure assignedKey.key
    | none => do
      assignKey subjectThreadId identity.userId identity.canonicalKey .sourceIdentity
      pure identity.canonicalKey
  upsertResolved identity subjectThreadId
  pure subjectKey

/-- The stored state of evidence: heuristic and unsupported evidence is kept as
`unsupported`, never as a promotable candidate. -/
def observationStateOf (confidence : Option SourceConfidence) : ObservationState :=
  match confidence with
  | some .unsupported | some .heuristic => .unsupported
  | _ => .candidate

/-- Record every input, in order, and answer with the observation ids. -/
def recordObservations (observations : List ObservationInput) (operationId : String) : StoreTx (List Nat) :=
  Tx.collect observations fun input =>
    recordObservationAndEvent input (observationStateOf input.sourceConfidence) .candidate operationId

/-- The pending observations whose parent a live, unmarked subject is. -/
def Store.latePendingObservations (s : Store) (subjectKey : Key) (identity : SourceIdentityKey) :
    List ObservationRow :=
  if (s.findMarker identity).isNone && (s.findCurrent subjectKey).any (·.state.isActive) then
    s.listPendingByCandidateParent identity
  else []

/-- The transaction of `reconcile_subject_inner`, with the observations its late
discovery has to look at. -/
def reconcileSubjectTx (subjectThreadId : Nat) (subject : ObservedEndpoint)
    (observations : List ObservationInput) (groupOwnerUserId : Int) (operationId : String) (now : Int)
    (importGuard : Bool) : StoreTx (ReconciliationOutcome × List ObservationRow) := do
  if importGuard then checkImportGuard subjectThreadId subject observations else pure ()
  match subject.key? with
  | none => do
    -- Unknown identity scope: evidence is retained and nothing else happens.
    let observationIds ← recordObservations observations operationId
    pure ({ observationIds }, [])
  | some identity => do
    let subjectKey ← assignSubjectKey subjectThreadId identity
    let observationIds ← recordObservations observations operationId
    let resolved ← Tx.collect (observations.zip observationIds) (offerCandidate subjectThreadId subject now)
    let (relationSelected, conflict, groupId) ← adoptParent subjectThreadId subjectKey subject
      (resolved.filterMap ParentOffer.candidate?) operationId now groupOwnerUserId
    let singletonId ←
      if groupId.isNone then ensureSingleton subjectThreadId subjectKey subject groupOwnerUserId
      else pure none
    let s ← Tx.get
    pure ({ observationIds, relationSelected, groupId := groupId.or singletonId, conflict,
            pending := resolved.countP ParentOffer.isPending },
          s.latePendingObservations subjectKey identity)

/-! ## Late discovery -/

/-- The last association `association_by_observation` keeps for an observation. -/
def associationFor (associations : List CandidateAssociationRow) (observationId : Nat) :
    Option CandidateAssociationRow :=
  associations.reverse.find? (·.selectedObservationId = some observationId)

/-- The state of an association that takes its observation out of late discovery. -/
def CandidateState.settled : CandidateState → Bool
  | .superseded | .conflict | .ambiguous | .unsupported => true
  | .pending | .candidate => false

/-- The candidate one stored observation offers to late discovery: unlike in
`offerOf`, the parent needs an active current membership. -/
def Store.lateOfferOf (s : Store) (associations : List CandidateAssociationRow) (row : ObservationRow) :
    Option OfferedCandidate :=
  if (associationFor associations row.id).any (·.state.settled) then none
  else match row.candidateParent with
    | none => none
    | some parent =>
      match promotableSourceCandidate row.sourceConfidence row.relationKind row.polarity with
      | none => none
      | some (confidence, relationType) =>
        match parent.key? with
        | none => none
        | some parentLock =>
          if (s.findMarker parentLock).isSome then none
          else match s.findResolved parentLock with
            | none => none
            | some parentIdentity =>
              match s.findKeyByThreadId parentIdentity.threadId with
              | none => none
              | some parentKey =>
                if (s.findCurrent parentKey.key).any (·.state.isActive) then
                  some ⟨⟨parentKey.key, relationType, .source confidence⟩, parent, row.id⟩
                else none

/-- What late discovery works on once every check has passed. -/
structure LateSubject where
  threadId : Nat
  key : Key
  associations : List CandidateAssociationRow
  offers : List OfferedCandidate

/-- The checks of `reconcile_pending_observation`, in its order; `none` is one of
its early returns, all of which change nothing. -/
def Store.lateSubject (s : Store) (observationId : Nat) (subject parent : SourceIdentityKey) :
    Option LateSubject :=
  let associations := s.listCandidatesBySubject subject.endpoint
  if !associations.any (fun a => a.selectedObservationId = some observationId && a.state = .pending) then none
  else if associations.any (fun a => a.state = .conflict || a.state = .ambiguous) then none
  else if (s.findMarker subject).isSome || (s.findMarker parent).isSome then none
  else match s.findResolved subject with
    | none => none
    | some subjectIdentity =>
      match s.findKeyByThreadId subjectIdentity.threadId with
      | none => none
      | some subjectKey =>
        if !(s.findCurrent subjectKey.key).any (·.state.isActive) then none
        else if (s.findActiveByChild subjectKey.key).any (·.selection.byOperator) then none
        else match s.findResolved parent with
          | none => none
          | some parentIdentity =>
            match s.findKeyByThreadId parentIdentity.threadId with
            | none => none
            | some parentKey =>
              if !(s.findCurrent parentKey.key).any (·.state.isActive) then none
              else
                let offers := (s.listObservationsBySubject subject).filterMap (s.lateOfferOf associations)
                if offers.any (·.observationId = observationId) then
                  some ⟨subjectIdentity.threadId, subjectKey.key, associations, offers⟩
                else none

/-- Give the pending offers of a list of offers another state. -/
def settlePending (late : LateSubject) (subject : ObservedEndpoint) (offers : List OfferedCandidate)
    (now : Int) : StoreTx Unit :=
  Tx.forEach offers fun offer =>
    if (associationFor late.associations offer.observationId).any (·.state = .pending) then do
      let s ← Tx.get
      recordCandidate late.threadId subject (s.resolvedThreadId offer.parent) .candidate offer.observationId now
    else pure ()

/-- The `match` on the selection in `reconcile_pending_observation`. -/
def adoptLateParent (late : LateSubject) (subject : ObservedEndpoint) (operationId : String) (now : Int) :
    StoreTx Unit :=
  match selectParentCandidate (late.offers.map OfferedCandidate.candidate) with
  | .noSelection => pure ()
  | .conflict winners => do
    retractActiveRelation late.key
    recordWinners late.threadId subject late.offers winners now
    settlePending late subject (late.offers.filter fun offer =>
      !winners.any fun winner => late.offers.any fun other =>
        other.candidate = winner && other.observationId = offer.observationId) now
    appendRelationEvent .conflictDetected late.key operationId .equalRankedParents
  | .selected winner =>
    match offerFor late.offers winner with
    | none => pure ()
    | some won => do
      let s ← Tx.get
      let wonThreadId := s.resolvedThreadId won.parent
      if winner.parentKey = late.key || s.ancestorContains winner.parentKey late.key then do
        recordCandidate late.threadId subject wonThreadId .conflict won.observationId now
        settlePending late subject late.offers now
      else do
        let relationId ← applySelectedRelation late.threadId late.key subject won.parent winner
          won.observationId operationId now subject.userId
        if relationId.isNone then
          Tx.forEach late.offers fun offer => do
            let s ← Tx.get
            recordCandidate late.threadId subject (s.resolvedThreadId offer.parent) .conflict
              offer.observationId now
        else do
          settlePending late subject (late.offers.filter (·.observationId ≠ won.observationId)) now
          recordCandidate late.threadId subject wonThreadId .candidate won.observationId now

/-- `reconcile_pending_observation`. -/
def reconcilePendingObservation (observationId : Nat) (operationId : String) (now : Int) : StoreTx Unit := do
  let s ← Tx.get
  match s.findObservation observationId with
  | none => pure ()
  | some trigger =>
    match trigger.subject.key?, trigger.candidateParent.bind SourceIdentity.key? with
    | some subject, some parent =>
      match s.lateSubject observationId subject parent with
      | none => pure ()
      | some late => adoptLateParent late subject.endpoint operationId now
    | _, _ => pure ()

/-! ## The whole call -/

/-- Run late discovery over the observations, one transaction each, up to the first failure. -/
def runLateDiscovery (operationId : String) (now : Int) : List ObservationRow → Store → Except TxError Unit × Store
  | [], s => (.ok (), s)
  | observation :: rest, s =>
    match reconcilePendingObservation observation.id operationId now s with
    | .ok (_, s') => runLateDiscovery operationId now rest s'
    | .error e => (.error e, s)

/-- `reconcile_subject_inner`: what it answers, and the state it leaves. -/
def reconcileSubjectInner (subjectThreadId : Nat) (subject : ObservedEndpoint)
    (observations : List ObservationInput) (groupOwnerUserId : Int) (operationId : String) (now : Int)
    (importGuard : Bool) (s : Store) : Except TxError ReconciliationOutcome × Store :=
  match reconcileSubjectTx subjectThreadId subject observations groupOwnerUserId operationId now importGuard s with
  | .error e => (.error e, s)
  | .ok ((outcome, late), s') =>
    match runLateDiscovery operationId now late s' with
    | (.ok _, s'') => (.ok outcome, s'')
    | (.error e, s'') => (.error e, s'')

/-- `reconcile_subject`. -/
def reconcileSubject (subjectThreadId : Nat) (subject : ObservedEndpoint)
    (observations : List ObservationInput) (operationId : String) (now : Int) (s : Store) :
    Except TxError ReconciliationOutcome × Store :=
  reconcileSubjectInner subjectThreadId subject observations subject.userId operationId now false s

/-- `reconcile_imported_subject`. -/
def reconcileImportedSubject (subjectThreadId : Nat) (subject : ObservedEndpoint)
    (observations : List ObservationInput) (groupOwnerUserId : Int) (operationId : String) (now : Int)
    (s : Store) : Except TxError ReconciliationOutcome × Store :=
  reconcileSubjectInner subjectThreadId subject observations groupOwnerUserId operationId now true s

end MemoryStore.ThreadGroup
