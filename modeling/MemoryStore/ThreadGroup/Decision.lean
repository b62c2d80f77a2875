/-
Explicit operator decisions on a candidate association
(`record_operator_decision` of `app/src/app/thread_group/reconcile.rs`).
-/
import MemoryStore.ThreadGroup.Reconcile

namespace MemoryStore.ThreadGroup

/-- `OperatorDecisionOutcome`. -/
structure OperatorDecisionOutcome where
  decisionId : Nat
  relationId : Option Nat
  state : CandidateState
  deriving DecidableEq, Repr

/-- `resolve_candidate_subject_tx`: the thread and key the candidate's subject resolves to now. -/
def Store.resolveCandidateSubject (s : Store) (candidate : CandidateAssociationRow) : Option (Nat × Key) :=
  match candidate.subject.key? with
  | none => none
  | some identityKey =>
    match s.findResolved identityKey with
    | none => none
    | some identity => (s.findKeyByThreadId identity.threadId).map fun row => (identity.threadId, row.key)

/-- The checks a confirmation and a retraction make on the candidate's subject. -/
def checkDecisionSubject (decision : OperatorDecision) (candidate : CandidateAssociationRow)
    (subject : Option (Nat × Key)) : StoreTx Unit :=
  match decision with
  | .reject => pure ()
  | .confirm | .retract => do
    Tx.ensure candidate.subject.key?.isSome (.bail "candidate subject identity scope is unknown")
    match subject with
    | none => Tx.fail (.bail "candidate subject identity is unresolved or has no canonical key")
    | some (resolvedThreadId, _) =>
      Tx.ensure (candidate.subjectThreadId = some resolvedThreadId)
        (.bail "candidate subject identity no longer resolves to its recorded subject Thread")

/-- The owner of the group the subject is in, for a group a confirmation may have to create. -/
def Store.operatorGroupOwner (s : Store) (decision : OperatorDecision) (subject : Option (Nat × Key)) :
    Option Int :=
  match decision, subject with
  | .confirm, some (_, subjectKey) =>
    (s.findCurrent subjectKey).bind fun member => (s.findGroup member.groupId).map GroupRow.userId
  | _, _ => none

/-- The endpoint of a confirmed parent: its first source identity, or its owner alone. -/
def confirmedParentEndpoint (parentThreadId : Nat) : StoreTx ObservedEndpoint := do
  let s ← Tx.get
  match (s.listIdentitiesByThreadId parentThreadId).head? with
  | some row => pure row.identity.endpoint
  | none =>
    match s.findThread parentThreadId with
    | none => Tx.fail (.bail "parent thread owner missing")
    | some thread => pure ⟨thread.userId, "", .unknown, ""⟩

/-- The identity triple of an endpoint, absent while its scope is unknown. -/
def SourceIdentity.triple? (e : SourceIdentity) : Option SourceTriple :=
  e.identityScope.value?.map fun scope => ⟨e.source, scope, e.nativeId⟩

/-- The `RETRACT` arm: only an operator-adopted relation is retracted. -/
def retractDecision (subject : Option (Nat × Key)) : StoreTx Unit := do
  let s ← Tx.get
  match subject with
  | none => pure ()
  | some (_, subjectKey) =>
    match s.findActiveByChild subjectKey with
    | none => pure ()
    | some existing =>
      if existing.selection.byOperator then setRelationState existing.id .retracted else pure ()

/-- The `White_Space` property of Unicode, which `str::trim` goes by. -/
def isWhiteSpace (c : Char) : Bool :=
  let n := c.toNat
  (9 ≤ n && n ≤ 13) || n = 0x20 || n = 0x85 || n = 0xA0 || n = 0x1680 || (0x2000 ≤ n && n ≤ 0x200A) ||
    n = 0x2028 || n = 0x2029 || n = 0x202F || n = 0x205F || n = 0x3000

/-- `trim().is_empty()`. -/
def isBlank (text : String) : Bool := text.toList.all isWhiteSpace

variable [KeyHash]

/-- The `CONFIRM` arm: the adopted relation, old or new. -/
def confirmParent (candidate : CandidateAssociationRow) (subjectThreadId : Nat) (subjectKey : Key)
    (decisionId : Nat) (groupOwnerUserId : Option Int) : StoreTx Nat := do
  let s ← Tx.get
  match candidate.candidateParentThreadId with
  | none => Tx.fail (.bail "candidate parent unresolved")
  | some parentThreadId =>
    match s.findKeyByThreadId parentThreadId with
    | none => Tx.fail (.bail "parent canonical key missing")
    | some parentKeyRow => do
      let parentKey := parentKeyRow.key
      Tx.ensure (!(parentKey = subjectKey || s.ancestorContains parentKey subjectKey))
        (.bail "operator confirmation would create a cycle")
      let parentEndpoint ← confirmedParentEndpoint parentThreadId
      let existing := s.findActiveByChild subjectKey
      match existing.filter (·.parentThreadCanonicalKey = parentKey) with
      | some existing => pure existing.id
      | none => do
        match existing with
        | some existing => setRelationState existing.id .superseded
        | none => pure ()
        let relationId ← insertRelation fun id =>
          { id
            parentThreadId := some parentThreadId
            childThreadId := some subjectThreadId
            parentThreadCanonicalKey := parentKey
            childThreadCanonicalKey := subjectKey
            parentUserId := parentEndpoint.userId
            parentIdentity := parentEndpoint.triple?
            childUserId := candidate.subject.userId
            childIdentity := candidate.subject.triple?
            relationType := .delegated
            state := .active
            selection := .operatorConfirmation decisionId }
        ensureMembership subjectThreadId subjectKey candidate.subject (some parentThreadId) parentKey
          parentEndpoint groupOwnerUserId
        pure relationId

/-- The `match` on the decision: the relation adopted and the candidate's new state. -/
def applyDecision (decision : OperatorDecision) (candidate : CandidateAssociationRow)
    (subject : Option (Nat × Key)) (decisionId : Nat) (groupOwnerUserId : Option Int) :
    StoreTx (Option Nat × CandidateState) :=
  match decision with
  | .confirm =>
    match subject with
    | none => Tx.fail (.bail "subject identity is unresolved")
    | some (subjectThreadId, subjectKey) => do
      let relationId ← confirmParent candidate subjectThreadId subjectKey decisionId groupOwnerUserId
      pure (some relationId, .candidate)
  | .reject => pure (none, .superseded)
  | .retract => do
    retractDecision subject
    pure (none, .pending)

/-- `record_operator_decision`. An identical latest decision is answered without a change. -/
def recordOperatorDecision (candidateAssociationId : Nat) (decision : OperatorDecision) (reason : String)
    (now : Int) : StoreTx OperatorDecisionOutcome := do
  Tx.ensure (!isBlank reason) (.bail "operator decision requires a reason")
  let s ← Tx.get
  match s.findCandidate candidateAssociationId with
  | none => Tx.fail (.bail "candidate association not found")
  | some candidate => do
    let subject := s.resolveCandidateSubject candidate
    checkDecisionSubject decision candidate subject
    let groupOwnerUserId := s.operatorGroupOwner decision subject
    match (s.findLatestDecision candidateAssociationId).filter
        fun latest => latest.decision = decision && latest.reason = reason with
    | some latest => pure ⟨latest.id, none, candidate.state⟩
    | none => do
      let decisionId ← insertDecision candidateAssociationId decision reason now
      let (relationId, state) ← applyDecision decision candidate subject decisionId groupOwnerUserId
      updateSelection candidateAssociationId candidate.state state candidate.selectedObservationId now
      pure ⟨decisionId, relationId, state⟩

end MemoryStore.ThreadGroup
