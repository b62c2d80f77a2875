/-
Explicit operator mutations of groups (`app/src/app/thread_group/operator.rs`)
and the attach handler in front of them (`grpc-admin/src/service/thread_group.rs`).
-/
import MemoryStore.ThreadGroup.Domain
import MemoryStore.ThreadGroup.Repository

namespace MemoryStore.ThreadGroup

/-- `MergeOutcome`. -/
structure MergeOutcome where
  targetGroupId : Nat
  movedMembers : Nat
  alreadyMerged : Bool
  deriving DecidableEq, Repr

def AuditRow.mergeTarget? (a : AuditRow) : Option Nat :=
  match a.kind with
  | .merge targetGroupId => some targetGroupId
  | .split .. => none

/-- `merge_groups`. -/
def mergeGroups (sourceGroupId targetGroupId : Nat) : StoreTx MergeOutcome := do
  Tx.ensure (sourceGroupId ≠ targetGroupId) (.bail "cannot merge a group into itself")
  let committed ← Tx.get
  match committed.findMergeBySource sourceGroupId with
  | some existing => pure ⟨existing.mergeTarget?.getD targetGroupId, 0, true⟩
  | none => do
    Tx.ensure (committed.findGroup sourceGroupId).isSome (.bail s!"source group {sourceGroupId} not found")
    Tx.ensure (committed.findGroup targetGroupId).isSome (.bail s!"target group {targetGroupId} not found")
    Tx.ensure ((committed.findGroup sourceGroupId).any GroupRow.isActive &&
      (committed.findGroup targetGroupId).any GroupRow.isActive) (.bail "merge requires two active groups")
    let sourceMembers := committed.listCurrentByGroupId sourceGroupId
    let targetKeys := (committed.listCurrentByGroupId targetGroupId).map MemberRow.threadCanonicalKey
    -- The source's rows leave the unique index before their replacements enter it.
    Tx.forEach sourceMembers fun member => do
      let _ ← redirectCurrent member.threadCanonicalKey sourceGroupId
      pure ()
    let moved := sourceMembers.filter (·.threadCanonicalKey ∉ targetKeys)
    Tx.forEach moved fun member =>
      insertMember { member with groupId := targetGroupId, provenance := .operator }
    let _ ← redirectGroup sourceGroupId targetGroupId
    -- Flatten existing redirects that pointed at the source.
    Tx.forEach ((committed.groups.filter GroupRow.isRedirected).filter (·.redirectsTo sourceGroupId)) fun group => do
      let _ ← repointRedirect group.id targetGroupId
      pure ()
    setGroupingAuthority targetGroupId .operator
    let s ← Tx.get
    Tx.forEach (s.listCurrentByGroupId targetGroupId) fun member =>
      setRoleProvenance member.threadCanonicalKey member.role .operator
    appendMerge sourceGroupId targetGroupId
    pure ⟨targetGroupId, moved.length, false⟩

/-- The order `sort_unstable` gives lists of keys. -/
def keysBefore : List Key → List Key → Bool
  | [], _ => true
  | _ :: _, [] => false
  | a :: as, b :: bs => a < b || (a = b && keysBefore as bs)

/-- `normalize_split_partitions`. -/
def normalizeSplitPartitions (partitions : List (List Key)) : List (List Key) :=
  (partitions.map (·.insertionSort (· ≤ ·))).insertionSort fun a b => keysBefore a b

def AuditRow.splitOf? (a : AuditRow) : Option (List (List Key) × List Nat) :=
  match a.kind with
  | .split canonicalPartition successorGroupIds => some (canonicalPartition, successorGroupIds)
  | .merge _ => none

def MemberRow.membership (m : MemberRow) : Membership := ⟨m.threadCanonicalKey, m.role, m.state⟩

/-- The error as the message of a rejected split shows it. -/
def GroupError.debug : GroupError → String
  | .tooFewPartitions => "TooFewPartitions"
  | .emptyPartition => "EmptyPartition"
  | .duplicateMember key => "DuplicateMember(" ++ key.quote ++ ")"
  | .membershipMismatch => "MembershipMismatch"

/-- Insert the members of one successor, each from its row in the source group. -/
def insertSuccessorMembers (rows : List MemberRow) (groupId : Nat) (memberships : List Membership) :
    StoreTx Unit :=
  Tx.forEach memberships fun membership =>
    match rows.find? (fun row => row.threadCanonicalKey = membership.threadCanonicalKey) with
    | none => Tx.fail (.bail "partition member lost its source row")
    | some row =>
      insertMember { row with
        groupId, role := membership.role, state := membership.state, provenance := .operator }

/-- The identity columns of an attached member: absent without an endpoint. -/
def attachIdentity (endpoint : Option ObservedEndpoint) : StoreTx (Option SourceTriple) :=
  match endpoint with
  | none => pure none
  | some endpoint => do
    let triple ← endpointTriple "thread_group_member" endpoint
    pure (some triple)

/-- `attach_member`. -/
def attachMember (groupId threadId : Nat) (threadCanonicalKey : Key) (endpoint : Option ObservedEndpoint) :
    StoreTx Unit := do
  let s ← Tx.get
  match s.findGroup groupId with
  | none => Tx.fail (.bail s!"group {groupId} not found")
  | some group => do
    Tx.ensure group.isActive (.bail "attach requires an active group")
    if (s.findCurrent threadCanonicalKey).isSome then pure ()
    else do
      let identity ← attachIdentity endpoint
      insertMember
        { groupId
          threadCanonicalKey
          userId := (endpoint.map SourceIdentity.userId).getD 0
          identity
          role := .member
          state := .active threadId
          provenance := .operator }
      setGroupingAuthority groupId .operator

/-- `ensure_thread_canonical_key`; the random key is given. -/
def ensureThreadCanonicalKey (threadId : Nat) (userId : Int) (randomKey : Key) : StoreTx Key := do
  let s ← Tx.get
  match s.findKeyByThreadId threadId with
  | some row => pure row.key
  | none => do
    assignKey threadId userId randomKey .creationUuid
    pure randomKey

variable [KeyHash]

/-- Create one successor group with its members. -/
def createSuccessor (source : GroupRow) (rows : List MemberRow) (memberships : List Membership) :
    StoreTx Nat := do
  let groupId ← createGroup source.userId
    (splitGroupCanonicalKey source.groupCanonicalKey (memberships.map Membership.threadCanonicalKey))
    source.title .operator
  insertSuccessorMembers rows groupId memberships
  pure groupId

/-- `split_group`. A retry with the recorded partition answers with its successors. -/
def splitGroup (sourceGroupId : Nat) (partitions : List (List Key)) : StoreTx (List Nat) := do
  let canonicalPartition := normalizeSplitPartitions partitions
  let s ← Tx.get
  match s.findGroup sourceGroupId with
  | none => Tx.fail (.bail s!"source group {sourceGroupId} not found")
  | some source =>
    match (s.findSplitBySource sourceGroupId).bind AuditRow.splitOf? with
    | some (recorded, successors) =>
      if recorded = canonicalPartition then pure successors
      else Tx.fail (.bail "source group was already split with a different partition")
    | none => do
      Tx.ensure source.isActive (.bail "split requires an active source group")
      let rows := s.listCurrentByGroupId sourceGroupId
      match splitMemberships (rows.map MemberRow.membership) partitions with
      | .error error => Tx.fail (.bail ("invalid split partition: " ++ error.debug))
      | .ok successors => do
        Tx.forEach rows fun row => do
          let _ ← redirectCurrent row.threadCanonicalKey sourceGroupId
          pure ()
        let successorIds ← Tx.collect successors (createSuccessor source rows)
        markSplit sourceGroupId
        appendSplit sourceGroupId canonicalPartition successorIds
        pure successorIds

end MemoryStore.ThreadGroup
