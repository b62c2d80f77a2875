/-
The ThreadGroup store as a system: every transaction the services commit is one
action, and a run is any sequence of them. Actions are transactions and not
calls, so runs include every interleaving of concurrent calls: another client's
transaction may fall between a reconcile and the late discovery it triggers,
between the target scan of a delete and the delete, or between the key lookup
of an attach and the attach.
-/
import MemoryStore.Lib.Run
import MemoryStore.ThreadGroup.Decision
import MemoryStore.ThreadGroup.Operator
import MemoryStore.ThreadGroup.Lifecycle
import MemoryStore.ThreadGroup.Import

namespace MemoryStore.ThreadGroup

/-- One transaction, with its arguments. -/
inductive Action where
  | reconcile (subjectThreadId : Nat) (subject : ObservedEndpoint) (observations : List ObservationInput)
      (groupOwnerUserId : Int) (operationId : String) (now : Int) (importGuard : Bool)
  | late (observationId : Nat) (operationId : String) (now : Int)
  | decide (candidateAssociationId : Nat) (decision : OperatorDecision) (reason : String) (now : Int)
  | createThread (userId : Int) (channel : Option String) (randomKey : Key)
  | batch (target : BatchThreadTarget) (sourceIdentity : Option SourceIdentity) (explicitOverride : Bool)
  | delete (targets : List Nat) (forbidReimport : Bool) (now : Int)
  | merge (sourceGroupId targetGroupId : Nat)
  | split (sourceGroupId : Nat) (partitions : List (List Key))
  | ensureKey (threadId : Nat) (userId : Int) (randomKey : Key)
  | attach (groupId threadId : Nat) (threadCanonicalKey : Key) (endpoint : Option ObservedEndpoint)
  | purge (groupId : Nat) (expectedDigest : String)

/-- The steps of the reconciler: the subject's transaction and late discovery. -/
def Action.automatic : Action → Bool
  | .reconcile .. | .late .. => true
  | _ => false

/-- The purge of inactive history. -/
def Action.isPurge : Action → Bool
  | .purge .. => true
  | _ => false

variable [KeyHash] [PurgeDigest]

/-- The transaction of an action. -/
def Action.tx : Action → (α : Type) × StoreTx α
  | .reconcile subjectThreadId subject observations groupOwnerUserId operationId now importGuard =>
    ⟨_, reconcileSubjectTx subjectThreadId subject observations groupOwnerUserId operationId now importGuard⟩
  | .late observationId operationId now => ⟨_, reconcilePendingObservation observationId operationId now⟩
  | .decide candidateAssociationId decision reason now =>
    ⟨_, recordOperatorDecision candidateAssociationId decision reason now⟩
  | .createThread userId channel randomKey => ⟨_, ThreadGroup.createThread userId channel randomKey⟩
  | .batch target sourceIdentity explicitOverride => ⟨_, addMemoriesBatch target sourceIdentity explicitOverride⟩
  | .delete targets forbidReimport now => ⟨_, deleteThreadsTx targets forbidReimport now⟩
  | .merge sourceGroupId targetGroupId => ⟨_, mergeGroups sourceGroupId targetGroupId⟩
  | .split sourceGroupId partitions => ⟨_, splitGroup sourceGroupId partitions⟩
  | .ensureKey threadId userId randomKey => ⟨_, ensureThreadCanonicalKey threadId userId randomKey⟩
  | .attach groupId threadId threadCanonicalKey endpoint =>
    ⟨_, attachMember groupId threadId threadCanonicalKey endpoint⟩
  | .purge groupId expectedDigest => ⟨_, purgeGroup groupId expectedDigest⟩

/-- The store after an action: what its transaction committed, or the store as it was. -/
def Action.exec (a : Action) : Store → Store := a.tx.2.commit

/-- The error an action ends with, if it fails. -/
def Action.error? (a : Action) (s : Store) : Option TxError :=
  match a.tx.2 s with
  | .ok _ => none
  | .error e => some e

/-- One step of the system under a condition on the state and the action. -/
abbrev StepWhen (allowed : Store → Action → Prop) : Store → Store → Prop := Run.Step Action.exec allowed

/-- The runs whose steps all meet a condition. -/
abbrev ReachesWhen (allowed : Store → Action → Prop) : Store → Store → Prop := Run.Reaches Action.exec allowed

/-- Every run. -/
abbrev Reaches : Store → Store → Prop := ReachesWhen Run.anyAction

/-- The states some run from the empty store leads to. -/
abbrev Reachable (s : Store) : Prop := Reaches Store.empty s

/-! ## Calls are runs -/

theorem runLateDiscovery_reaches (operationId : String) (now : Int) : ∀ (late : List ObservationRow) (s : Store),
    ReachesWhen (fun _ a => a.automatic = true) s (runLateDiscovery operationId now late s).2
  | [], _ => .refl
  | observation :: rest, s => by
    unfold runLateDiscovery
    cases h : reconcilePendingObservation observation.id operationId now s with
    | error e => exact .refl
    | ok p =>
      obtain ⟨⟨⟩, s'⟩ := p
      exact .head ⟨.late observation.id operationId now, rfl, Tx.commit_ok h⟩
        (runLateDiscovery_reaches operationId now rest s')

/-- A call of the reconciler is a run of its own automatic steps. -/
theorem reconcileSubjectInner_reaches (subjectThreadId : Nat) (subject : ObservedEndpoint)
    (observations : List ObservationInput) (groupOwnerUserId : Int) (operationId : String) (now : Int)
    (importGuard : Bool) (s : Store) :
    ReachesWhen (fun _ a => a.automatic = true) s
      (reconcileSubjectInner subjectThreadId subject observations groupOwnerUserId operationId now importGuard s).2 := by
  unfold reconcileSubjectInner
  cases h : reconcileSubjectTx subjectThreadId subject observations groupOwnerUserId operationId now importGuard s with
  | error e => exact .refl
  | ok p =>
    obtain ⟨⟨outcome, late⟩, s'⟩ := p
    have hrest := runLateDiscovery_reaches operationId now late s'
    refine .head ⟨.reconcile subjectThreadId subject observations groupOwnerUserId operationId now importGuard,
      rfl, Tx.commit_ok h⟩ ?_
    dsimp only
    cases hl : runLateDiscovery operationId now late s' with
    | mk r s'' =>
      rw [hl] at hrest
      cases r <;> exact hrest

/-- A delete call is one step: the transaction over the targets it read. -/
theorem deleteThreadWithPolicy_commit (rootThreadId : Nat) (recursive forbidReimport : Bool) (now : Int)
    (s : Store) : (deleteThreadWithPolicy rootThreadId recursive forbidReimport now).commit s =
      (Action.delete (s.deleteTargets rootThreadId recursive) forbidReimport now).exec s := by
  simp only [Action.exec, Action.tx, Tx.commit, deleteThreadWithPolicy, Tx.get_bind]
  rw [Tx.bind_run]
  cases deleteThreadsTx (s.deleteTargets rootThreadId recursive) forbidReimport now s <;> rfl

end MemoryStore.ThreadGroup
