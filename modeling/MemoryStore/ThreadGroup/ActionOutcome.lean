/-
One table for the whole system: what each action can do to the store it finds
(`Action.Outcome`). From a sound store every action does that or leaves the
store as it is, and its error is benign; so every reachable store is sound.
-/
import MemoryStore.ThreadGroup.LifecycleSteps
import MemoryStore.ThreadGroup.System

namespace MemoryStore.ThreadGroup

open Tx

variable [KeyHash] [PurgeDigest]

/-- What an action that succeeds can do. -/
def Action.Outcome : Action → Store → Store → Prop
  | .reconcile subjectThreadId subject observations groupOwnerUserId _ _ _ =>
    Reconciles subjectThreadId subject observations groupOwnerUserId
  | .late observationId _ _ => Discovers observationId
  | .decide candidateAssociationId decision reason _ => Decides candidateAssociationId decision reason
  | .createThread .. | .ensureKey .. => MappingOnly
  | .batch .. => Batches
  | .delete _ _ now => fun s s' => Deletes s.keyOf now s s'
  | .merge .. | .split .. | .attach .. => OperatorStep
  | .purge groupId _ => Purges groupId

theorem Action.tx_spec {s : Store} (h : Sound s) : ∀ a : Action,
    wp a.tx.2 (fun _ s' => a.Outcome s s') Benign s
  | .reconcile .. => reconcileSubjectTx_spec h
  | .late .. => reconcilePendingObservation_spec h
  | .decide .. => recordOperatorDecision_spec h
  | .createThread .. => createThread_maps s
  | .ensureKey .. => ensureThreadCanonicalKey_maps s
  | .batch .. => addMemoriesBatch_spec s
  | .delete .. => deleteThreadsTx_spec s
  | .merge .. => mergeGroups_spec h.memberships
  | .split .. => splitGroup_spec h.memberships
  | .attach .. => attachMember_spec h.memberships
  | .purge .. => purgeGroup_spec h.memberships

/-- **The step lemma.** An action leaves the store as it is, or does what it can do. -/
theorem Action.exec_cases {s : Store} (h : Sound s) (a : Action) : a.exec s = s ∨ a.Outcome s (a.exec s) :=
  (a.tx_spec h).commit.imp_right fun ⟨_, ho⟩ => ho

theorem Action.error_benign {s : Store} (h : Sound s) {a : Action} {e : TxError} (he : a.error? s = some e) :
    Benign e := by
  unfold Action.error? at he
  cases hrun : a.tx.2 s with
  | ok p => simp [hrun] at he
  | error e' =>
    simp only [hrun, Option.some.injEq] at he
    exact he ▸ (a.tx_spec h).error hrun

theorem Action.Outcome.sound {s s' : Store} (h : Sound s) : ∀ {a : Action}, a.Outcome s s' → Sound s'
  | .reconcile .., ho => Reconciles.sound ho h
  | .late .., ho => Discovers.sound ho h
  | .decide .., ho => Decides.sound ho h
  | .createThread .., ho => MappingOnly.tables ho h
  | .ensureKey .., ho => MappingOnly.tables ho h
  | .batch .., ho => Batches.sound ho h
  | .delete .., ho => Deletes.sound ho h
  | .merge .., ho => OperatorStep.sound ho h
  | .split .., ho => OperatorStep.sound ho h
  | .attach .., ho => OperatorStep.sound ho h
  | .purge .., ho => Purges.sound ho h

theorem Action.exec_sound {s : Store} (h : Sound s) (a : Action) : Sound (a.exec s) := by
  rcases a.exec_cases h with he | ho
  · exact he.symm ▸ h
  · exact ho.sound h

theorem Sound.empty : Sound Store.empty :=
  ⟨Memberships.empty, ⟨Table.UniqueWhere.nil, fun k hk => by
    obtain ⟨_, h, _⟩ := Relation.TransGen.head'_iff.1 hk
    simp [Forest.Up, Store.activeParent, Store.findActiveByChild, Store.empty] at h⟩⟩

theorem ReachesWhen.sound {allowed : Store → Action → Prop} {s s' : Store} (hr : ReachesWhen allowed s s')
    (h : Sound s) : Sound s' := hr.invariant (fun _ a hs _ => a.exec_sound hs) h

theorem Reachable.sound {s : Store} (h : Reachable s) : Sound s := ReachesWhen.sound h Sound.empty

end MemoryStore.ThreadGroup
