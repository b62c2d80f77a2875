/-
The owner of a membership is the owner of its key and of its thread, in every
run whose arguments bring in no other owner. The attach handler does: for a
thread without a source identity it has no endpoint, and the member it inserts
belongs to user 0, whoever the thread belongs to.
-/
import MemoryStore.ThreadGroup.OwnerSteps
import MemoryStore.ThreadGroup.Scenario

namespace MemoryStore.ThreadGroup

open Tx

/-- The owner of every current membership is the owner of its key's row and of its live thread. -/
def Store.OwnersAgree (s : Store) : Prop :=
  ∀ m ∈ s.members, m.current = true →
    (∀ row ∈ s.canonicalKeys, row.key = m.threadCanonicalKey → m.userId = row.userId) ∧
    (∀ threadId ∈ m.state.liveThread?, ∀ row ∈ s.threads, row.id = threadId → m.userId = row.userId)

instance (s : Store) : Decidable s.OwnersAgree := by unfold Store.OwnersAgree; infer_instance

theorem Store.Owned.agree {s : Store} (h : s.Owned) : s.OwnersAgree := by
  obtain ⟨o, -, hfit⟩ := h
  intro m hm hc
  have hrow := hfit.member m hm hc
  refine ⟨fun row hr hk => hrow.key.symm.trans (hk ▸ (hfit.key row hr).1), fun t ht row hr hid => ?_⟩
  exact (hrow.thread t ht).1.symm.trans (hid ▸ (hfit.thread row hr).1)

/-- A thread id that was drawn, and an owner no row contradicts. -/
def Store.KnownFor (s : Store) (threadId : Nat) (owner : Int) : Prop := threadId < s.nextId ∧ s.HoldsOnly threadId owner

instance (s : Store) (threadId : Nat) (owner : Int) : Decidable (s.KnownFor threadId owner) := by
  unfold Store.KnownFor Store.HoldsOnly; infer_instance

/-- The owner an attached member gets. -/
def attachedOwner (endpoint : Option ObservedEndpoint) : Int := (endpoint.map SourceIdentity.userId).getD 0

section Attach

variable [KeyHash]

/-- The key a subject gets when its thread has none yet is not another owner's. -/
def Store.NewKeyKnown (s : Store) (threadId : Nat) (subject : ObservedEndpoint) : Prop :=
  ∀ identity ∈ subject.key?, s.findKeyByThreadId threadId = none →
    s.NamesOnly identity.canonicalKey identity.userId

/-- **Owners known.** An action names no owner for a key or a thread that the rows name for another. A guarded
reconcile has checked its thread; late discovery, deletes, merges, splits and purges name no owner at all. An
operator's confirmation is left out. -/
def Action.OwnersKnown (s : Store) : Action → Prop
  | .reconcile threadId subject _ _ _ _ importGuard =>
    (importGuard = true ∨ s.KnownFor threadId subject.userId) ∧ s.NewKeyKnown threadId subject
  | .late .. | .delete .. | .merge .. | .split .. | .purge .. => True
  | .decide _ decision _ _ => decision ≠ .confirm
  | .createThread userId _ randomKey => s.NamesOnly randomKey userId
  | .batch target sourceIdentity _ =>
    ∀ identity ∈ sourceIdentity.bind SourceIdentity.key?, s.BatchAssigns target identity →
      s.NamesOnly identity.canonicalKey identity.userId
  | .ensureKey threadId userId randomKey =>
    s.findKeyByThreadId threadId = none → s.KnownFor threadId userId ∧ s.NamesOnly randomKey userId
  | .attach _ threadId key endpoint =>
    s.findCurrent key = none → s.KnownFor threadId (attachedOwner endpoint) ∧ s.NamesOnly key (attachedOwner endpoint)

instance (s : Store) : ∀ a : Action, Decidable (a.OwnersKnown s)
  | .reconcile .. => by
    unfold Action.OwnersKnown Store.NewKeyKnown Store.NamesOnly; infer_instance
  | .late .. | .delete .. | .merge .. | .split .. | .purge .. => isTrue trivial
  | .decide .. => by unfold Action.OwnersKnown; infer_instance
  | .createThread .. => by unfold Action.OwnersKnown Store.NamesOnly; infer_instance
  | .batch .. => by unfold Action.OwnersKnown Store.BatchAssigns Store.NamesOnly; infer_instance
  | .ensureKey .. => by unfold Action.OwnersKnown Store.NamesOnly; infer_instance
  | .attach .. => by unfold Action.OwnersKnown Store.NamesOnly; infer_instance

/-! ## One step -/

section Steps

variable {o : Owners} {s : Store}

theorem Owners.giveKey_named {key : Key} {owner : Int} : (o.giveKey key owner).named key owner := by
  simp [Owners.named, Owners.giveKey]

/-- A known owner of a thread is one the owners can be given. -/
theorem Store.KnownFor.give {threadId : Nat} {owner : Int} (hk : s.KnownFor threadId owner) (hd : o.drawn ≤ s.nextId)
    (h : o.Fit s) : ∃ o' : Owners, o'.ofKey = o.ofKey ∧ o'.drawn ≤ s.nextId ∧ o'.Fit s ∧ o'.held threadId owner :=
  ⟨o.giveThread threadId owner s.nextId, rfl, le_rfl, h.giveThread hk.2 hd, Owners.giveThread_held hk.1⟩

/-- And so is an owner of a thread and a key together. -/
theorem Store.KnownFor.giveBoth {threadId : Nat} {key : Key} {owner : Int} (hk : s.KnownFor threadId owner)
    (hn : s.NamesOnly key owner) (hd : o.drawn ≤ s.nextId) (h : o.Fit s) :
    ∃ o' : Owners, o'.drawn ≤ s.nextId ∧ o'.Fit s ∧ o'.named key owner ∧ o'.held threadId owner := by
  have hd₁ : (o.giveKey key owner).drawn ≤ s.nextId := hd
  obtain ⟨o', hof, hd', h', hheld⟩ := hk.give hd₁ (h.giveKey hn)
  exact ⟨o', hd', h', (congrFun hof key).trans Owners.giveKey_named, hheld⟩

variable [PurgeDigest]

theorem nextId_stable (n : Nat) : Stable fun s => n ≤ s.nextId where
  evidence _ h he := h.trans he.nextId
  mapping _ h hm := h.trans hm.keeps.nextId
  ended _ h _ _ := h
  ensured hs h _ _ hens := h.trans (hens.reassigning hs).2.1.nextId
  adopted hs h _ hrow hn hno hens :=
    (h.trans (Nat.le_succ _)).trans
      (hens.reassigning (hs.relate hrow.active (hrow.child ▸ hn) (hrow.child ▸ hrow.parent ▸ hno))).2.1.nextId
  housed _ h _ hh := h.trans hh.regroups.nextId

theorem Deletes.nextId {keyOf : Nat → Option Key} {now : Int} {s s' : Store} (h : Deletes keyOf now s s') :
    s'.nextId = s.nextId := by
  induction h with
  | done => rfl
  | next _ _ _ _ h _ ih => exact ih.trans h.nextId

/-- Ids only grow. -/
theorem Action.Outcome.nextId {a : Action} {s' : Store} (hs : Sound s) (ho : a.Outcome s s') : s.nextId ≤ s'.nextId := by
  cases a with
  | reconcile => exact Reconciles.stable (nextId_stable s.nextId) ho hs le_rfl
  | late => exact Discovers.stable (nextId_stable s.nextId) ho hs le_rfl
  | decide => exact Decides.stable (nextId_stable s.nextId) ho hs le_rfl
  | createThread => exact ho.keeps.nextId
  | batch => exact Batches.nextId ho
  | delete => exact (Deletes.nextId ho).ge
  | merge => exact ho.keeps.nextId
  | split => exact ho.keeps.nextId
  | ensureKey => exact ho.keeps.nextId
  | attach => exact ho.keeps.nextId
  | purge => exact (Purges.nextId ho).ge

theorem Action.exec_nextId (hs : Sound s) (a : Action) : s.nextId ≤ (a.exec s).nextId := by
  rcases a.exec_cases hs with he | ho
  · exact he.symm ▸ le_rfl
  · exact ho.nextId hs

/-- Owners that fit whatever an action commits, fit the store it leaves. -/
theorem Action.owned_of_wp {a : Action} (hs : Sound s) (hd : o.drawn ≤ s.nextId) (h : o.Fit s)
    (hwp : wp a.tx.2 (fun _ s' => o.Fit s') (fun _ => True) s) : (a.exec s).Owned := by
  refine ⟨o, hd.trans (a.exec_nextId hs), ?_⟩
  rcases hwp.commit with he | ⟨_, h'⟩
  · exact (show a.exec s = s from he).symm ▸ h
  · exact h'

theorem Decides.owners {candidateAssociationId : Nat} {decision : OperatorDecision} {reason : String} {s' : Store}
    (hd : Decides candidateAssociationId decision reason s s') (hdecision : decision ≠ .confirm) (h : o.Fit s) :
    o.Fit s' := by
  cases hd with
  | evidence _ hev => exact h.evidence hev
  | retracts _ existing _ _ h₁ _ _ h₂ => exact ((h.evidence h₁).endRelation existing.id (by decide)).evidence h₂
  | confirms _ _ _ _ _ _ _ hc => exact absurd hc hdecision

/-- A known new key is one the owners can be given. -/
theorem Store.NewKeyKnown.give {threadId : Nat} {subject : ObservedEndpoint} (hk : s.NewKeyKnown threadId subject)
    (h : o.Fit s) : ∃ o' : Owners, o'.drawn = o.drawn ∧ o'.Fit s ∧ ∀ identity, subject.key? = some identity →
      s.findKeyByThreadId threadId = none → o'.named identity.canonicalKey identity.userId := by
  by_cases hnew : ∃ identity, subject.key? = some identity ∧ s.findKeyByThreadId threadId = none
  · obtain ⟨identity, hkey, hnone⟩ := hnew
    refine ⟨o.giveKey identity.canonicalKey identity.userId, rfl, h.giveKey (hk identity hkey hnone), fun identity' hkey' _ => ?_⟩
    obtain rfl : identity = identity' := Option.some.inj (hkey.symm.trans hkey')
    exact Owners.giveKey_named
  · exact ⟨o, rfl, h, fun identity hkey hnone => absurd ⟨identity, hkey, hnone⟩ hnew⟩

theorem reconcileSubjectTx_owned (hs : Sound s) (hd : o.drawn ≤ s.nextId) (h : o.Fit s) {threadId : Nat}
    {subject : ObservedEndpoint} {observations : List ObservationInput} {owner : Int} {operationId : String}
    {now : Int} {importGuard : Bool} (hthread : importGuard = true ∨ s.KnownFor threadId subject.userId)
    (hkey : s.NewKeyKnown threadId subject) :
    ((Action.reconcile threadId subject observations owner operationId now importGuard).exec s).Owned := by
  obtain ⟨o₁, hd₁, h₁, hk₁⟩ := hkey.give h
  rcases hthread with rfl | hknown
  · refine Action.owned_of_wp hs (hd₁ ▸ hd) h₁ ?_
    refine ((reconcileSubjectTx_spec hs).and (reconcileSubjectTx_guarded threadId subject observations owner operationId
      now s)).mono (fun _ s' ⟨hr, row, hrow, hu⟩ => ?_) fun _ _ => trivial
    obtain ⟨hmem, rfl⟩ := findThread_mem hrow
    exact hr.owners hs h₁ (hu ▸ h₁.thread row hmem) hk₁
  · obtain ⟨o₂, hof, hd₂, h₂, hheld⟩ := hknown.give (hd₁ ▸ hd) h₁
    refine Action.owned_of_wp hs hd₂ h₂ ((reconcileSubjectTx_spec hs).mono (fun _ s' hr => ?_) fun _ _ => trivial)
    exact Reconciles.owners hr hs h₂ hheld fun identity hid hnone => (congrFun hof _).trans (hk₁ identity hid hnone)

/-- **A step whose owners are known keeps the owners in agreement.** -/
theorem Action.exec_owned (hs : Sound s) (ho : s.Owned) : ∀ {a : Action}, a.OwnersKnown s → (a.exec s).Owned := by
  obtain ⟨o, hd, h⟩ := ho
  have hrun : ∀ {α : Type} {m : StoreTx α}, wp m (fun _ s' => s'.Owned) (fun _ => True) s → (m.commit s).Owned :=
    fun hwp => by
      rcases hwp.commit with he | ⟨_, h'⟩
      · exact he.symm ▸ ⟨o, hd, h⟩
      · exact h'
  intro a ha
  cases a with
  | reconcile => exact reconcileSubjectTx_owned hs hd h ha.1 ha.2
  | late =>
    exact Action.owned_of_wp hs hd h ((reconcilePendingObservation_spec hs).mono (fun _ _ hd => hd.owners hs h)
      fun _ _ => trivial)
  | decide =>
    exact Action.owned_of_wp hs hd h ((recordOperatorDecision_spec hs).mono (fun _ _ hd => hd.owners ha h)
      fun _ _ => trivial)
  | createThread userId channel randomKey =>
    exact hrun (createThread_owners (h.giveKey ha) hd Owners.giveKey_named)
  | batch target sourceIdentity explicitOverride =>
    by_cases hnew : ∃ identity, sourceIdentity.bind SourceIdentity.key? = some identity ∧ s.BatchAssigns target identity
    · obtain ⟨identity, hid, hassigns⟩ := hnew
      refine hrun (addMemoriesBatch_owners (h.giveKey (ha identity hid hassigns)) hd fun identity' hid' _ => ?_)
      obtain rfl : identity = identity' := Option.some.inj (hid.symm.trans hid')
      exact Owners.giveKey_named
    · exact hrun (addMemoriesBatch_owners h hd fun identity hid hassigns => absurd ⟨identity, hid, hassigns⟩ hnew)
  | delete => exact Action.owned_of_wp hs hd h (deleteThreadsTx_owners h)
  | merge => exact Action.owned_of_wp hs hd h (mergeGroups_owners h)
  | split => exact Action.owned_of_wp hs hd h (splitGroup_owners hs.memberships h)
  | ensureKey threadId userId randomKey =>
    by_cases hnone : s.findKeyByThreadId threadId = none
    · obtain ⟨hknown, hnames⟩ := ha hnone
      obtain ⟨o', hd', h', hnamed, hheld⟩ := hknown.giveBoth hnames hd h
      exact Action.owned_of_wp hs hd' h' (ensureThreadCanonicalKey_owners h' fun _ => ⟨hnamed, hheld⟩)
    · exact Action.owned_of_wp hs hd h (ensureThreadCanonicalKey_owners h fun hn => absurd hn hnone)
  | attach groupId threadId key endpoint =>
    by_cases hnone : s.findCurrent key = none
    · obtain ⟨hknown, hnames⟩ := ha hnone
      obtain ⟨o', hd', h', hnamed, hheld⟩ := hknown.giveBoth hnames hd h
      exact Action.owned_of_wp hs hd' h' (attachMember_owners h' fun _ => ⟨hnamed, hheld⟩)
    · exact Action.owned_of_wp hs hd h (attachMember_owners h fun hn => absurd hn hnone)
  | purge => exact Action.owned_of_wp hs hd h ((purgeGroup_owners s).imp fun _ _ hkeep => hkeep h)

end Steps

theorem Store.Owned.empty : Store.empty.Owned :=
  ⟨⟨fun _ => 0, fun _ => 0, 0⟩, Nat.zero_le _, by constructor <;> simp [Store.empty]⟩

end Attach

end MemoryStore.ThreadGroup
