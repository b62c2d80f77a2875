/-
A forbidden identity. A delete that forbids the reimport leaves a forbidding
marker under every identity its targets had, and no mapping. While a marker
forbids an identity, its batches are suppressed and its imports refused, and
nothing else maps it; so it stays forbidden until an import overrides the
marker, a purge takes it away, or a reconcile without the import guard maps the
identity behind its back.
-/
import MemoryStore.ThreadGroup.Registry
import MemoryStore.ThreadGroup.DeleteScan

namespace MemoryStore.ThreadGroup

open Tx Table

/-! ## What leaves an identity alone -/

section Leaves

variable {i : SourceIdentityKey}

theorem assignKey_leaves {threadId : Nat} {userId : Int} {key : Key} {origin : CanonicalKeyOrigin} :
    LeavesAlone i (assignKey threadId userId key origin) :=
  Does.get.bind fun _ => (Does.ensure trivial).bind fun _ => (Does.ensure trivial).bind fun _ =>
    LeavesAlone.writes fun _ => ⟨rfl, rfl⟩

theorem insertThread_leaves {userId : Int} {channel : Option String} : LeavesAlone i (insertThread userId channel) :=
  fun _ => ⟨rfl, rfl⟩

theorem createThread_leaves {userId : Int} {channel : Option String} {randomKey : Key} :
    LeavesAlone i (createThread userId channel randomKey) :=
  insertThread_leaves.bind fun _ => assignKey_leaves.bind fun _ => Does.pure _

theorem ensureThreadCanonicalKey_leaves {threadId : Nat} {userId : Int} {randomKey : Key} :
    LeavesAlone i (ensureThreadCanonicalKey threadId userId randomKey) :=
  Does.get.bind fun s => by
    split
    · exact Does.pure _
    · exact assignKey_leaves.bind fun _ => Does.pure _

theorem ensureMappedTo_leaves {mapped : Option Nat} {threadId : Nat} {refusing : String} :
    LeavesAlone i (ensureMappedTo mapped threadId refusing) := by
  unfold ensureMappedTo
  split
  · exact Does.pure ()
  · exact Does.ensure trivial

theorem resolveBatchThread_leaves {target : BatchThreadTarget} {mapped : Option Nat} :
    LeavesAlone i (resolveBatchThread target mapped) := by
  refine Does.get.bind fun s => ?_
  split
  · split
    · exact Does.fail trivial
    · exact ensureMappedTo_leaves.bind fun _ => Does.pure _
  · refine (Does.ensure trivial).bind fun _ => (Does.ensure trivial).bind fun _ => ?_
    split
    · split
      · exact Does.fail trivial
      · exact insertThread_leaves.bind fun _ => Does.pure _
    · exact ensureMappedTo_leaves.bind fun _ => Does.pure _
    · exact Does.fail trivial

theorem reviveKey_leaves {key : Key} {threadId : Nat} {identity : SourceIdentityKey} :
    LeavesAlone i (reviveKey key threadId identity) := by
  have hrevive : LeavesAlone i (do
      reviveCurrent key threadId
      reconnectParentThreadId key threadId
      reconnectChildThreadId key threadId : StoreTx Unit) := fun _ => ⟨rfl, rfl⟩
  exact Does.get.bind fun _ => Does.ite (fun _ => assignKey_leaves.bind fun _ => hrevive) fun _ => hrevive

variable [KeyHash]

theorem reviveIdentity_leaves {threadId : Nat} {identity : SourceIdentityKey} {markerKey : Option Key} (hne : i ≠ identity) :
    LeavesAlone i (reviveIdentity threadId identity markerKey) :=
  Does.get.bind fun _ => reviveKey_leaves.bind fun _ => upsertResolved_leaves hne

/-- The batch of another identity, or of none. -/
theorem addMemoriesBatch_leaves {target : BatchThreadTarget} {sourceIdentity : Option SourceIdentity}
    {explicitOverride : Bool} (hne : ∀ identity, sourceIdentity.bind SourceIdentity.key? = some identity → i ≠ identity) :
    LeavesAlone i (addMemoriesBatch target sourceIdentity explicitOverride) := by
  refine Does.get.bind fun s => ?_
  refine Does.ite (fun _ => Does.pure _) fun _ => resolveBatchThread_leaves.bind fun out => ?_
  refine (Does.ensure trivial).bind fun _ => (Does.ensure trivial).bind fun _ => ?_
  split
  · exact Does.pure _
  · next identity hkey =>
    have hrest : ∀ {threadId : Nat} {markerKey : Option Key} {out : AddMemoriesBatchOutput}, LeavesAlone i (do
        reviveIdentity threadId identity markerKey
        pure out : StoreTx AddMemoriesBatchOutput) := fun {_ _ _} =>
      (reviveIdentity_leaves (hne identity hkey)).bind fun _ => Does.pure _
    exact Does.ite (fun _ => (consumeMarker_leaves (hne identity hkey)).bind fun _ => hrest) fun _ => hrest

end Leaves

/-- A delete leaves an identity alone that none of its targets had. -/
theorem deleteThreadsTx_leaves {i : SourceIdentityKey} {targets : List Nat} {forbidReimport : Bool} {now : Int} {s : Store}
    (hi : s.findResolved i = none) :
    wp (deleteThreadsTx targets forbidReimport now) (fun _ s' => Untouched i s s') (fun _ => True) s := by
  have hlist : ∀ t, ∀ row ∈ s.listIdentitiesByThreadId t, i ≠ row.identity := by
    rintro t row hrow rfl
    have hmem : row ∈ s.sourceIdentities := by
      rw [Store.listIdentitiesByThreadId, List.mem_insertionSort] at hrow
      exact (List.mem_filter.1 hrow).1
    simpa using List.find?_eq_none.1 hi row hmem
  have hloop : LeavesAlone i (Tx.forEach targets fun threadId =>
      deleteTarget forbidReimport now ((s.findKeyByThreadId threadId).map ThreadCanonicalKeyRow.key)
        (s.listIdentitiesByThreadId threadId) threadId) := by
    refine Does.forEach fun t _ => Does.bind (fun _ => ⟨rfl, rfl⟩) fun _ => ?_
    have hrest : LeavesAlone i (do
        Tx.forEach (s.listIdentitiesByThreadId t) fun row => do
          putMarker ⟨row.identity, forbidReimport, (s.findKeyByThreadId t).map ThreadCanonicalKeyRow.key⟩
          deleteIdentity row.identity
        deleteKey t : StoreTx Unit) :=
      (Does.forEach fun row hrow => (putMarker_leaves (hlist t row hrow)).bind fun _ =>
        deleteIdentity_leaves (hlist t row hrow)).bind fun _ => fun _ => ⟨rfl, rfl⟩
    split
    · exact Does.bind (fun _ => ⟨rfl, rfl⟩) fun _ => hrest
    · exact (Does.pure ()).bind fun _ => hrest
  exact wp_bind.2 (wp_get.2 (hloop s))

/-- A purge maps nothing. -/
theorem purgeGroup_unmapped [PurgeDigest] {i : SourceIdentityKey} {groupId : Nat} {expectedDigest : String} :
    Does (Preserves fun s => s.findResolved i = none) (fun _ => True) (purgeGroup groupId expectedDigest) := by
  refine Does.get.bind fun s => ?_
  split
  · exact Does.fail trivial
  · next group _ =>
    have hmarkers : Does (Preserves fun s => s.findResolved i = none) (fun _ => True)
        (purgeMarkers groupId (s.listAllByGroupId groupId)) := by
      refine Does.forEach fun m _ => ?_
      cases m.identity with
      | none => exact Does.pure ()
      | some identity =>
        exact Does.get.bind fun _ => Does.ite (fun _ => Does.pure ()) fun _ =>
          Does.ite (fun _ => Does.pure ()) fun _ => fun _ h => h
    have hinbound : ∀ target, Does (Preserves fun s => s.findResolved i = none) (fun _ => True)
        (repointInbound groupId target) := fun target => by
      exact Does.get.bind fun _ => Does.forEach fun _ _ => Does.bind (Does.get.bind fun _ =>
        (Does.ensure trivial).bind fun _ => fun _ h => h) fun _ => Does.pure ()
    have hdelete : Does (Preserves fun s => s.findResolved i = none) (fun _ => True) (do
        let deleted ← deleteGroup groupId
        Tx.ensure deleted (.bail s!"group {groupId} disappeared during purge") : StoreTx Unit) :=
      Does.bind (fun _ h => h) fun _ => Does.ensure trivial
    refine (Does.ensure trivial).bind fun _ => (Does.ensure trivial).bind fun _ => (Does.ensure trivial).bind fun _ => ?_
    have hrelation : ∀ id, Does (Preserves fun s => s.findResolved i = none) (fun _ => True) (deleteRelation id) :=
      fun _ _ h => h
    refine (Does.forEach fun _ _ => hrelation _).bind fun _ => Does.bind (fun _ h => h) fun _ => Does.bind (fun _ h => h) fun _ =>
      hmarkers.bind fun _ => ?_
    split
    · exact (hinbound _).bind fun _ => hdelete
    · exact hdelete

/-! ## The marker of a delete -/

/-- The marker of an identity forbids its import. -/
def Store.Forbids (s : Store) (i : SourceIdentityKey) : Prop := (s.findMarker i).any (·.forbidReimport) = true

/-- The marker is there, and no thread is mapped. -/
structure Held (i : SourceIdentityKey) (s : Store) : Prop where
  forbids : s.Forbids i
  unmapped : s.findResolved i = none

theorem Held.untouched {i : SourceIdentityKey} {s s' : Store} (h : Held i s) (hu : Untouched i s s') : Held i s' :=
  ⟨by rw [Store.Forbids, hu.marker]; exact h.forbids, hu.resolved.trans h.unmapped⟩

section Delete

variable {s₀ s s' : Store} {i : SourceIdentityKey} {targets : List Nat} {now : Int}

theorem Store.Forbids.gone {key : Option Key} {identities : List SourceIdentityKey} {threadId : Nat}
    (h : Gone true now key identities threadId s s') (hf : s.Forbids i) : s'.Forbids i := by
  unfold Store.Forbids
  by_cases hi : i ∈ identities
  · rw [h.buried.marked i hi]
    rfl
  · rw [h.buried.unmarked i hi]
    exact hf

/-- A marker once put stays to the end of the delete. -/
theorem Departs.forbids (h : Departs s₀ true now targets s s') (hf : s.Forbids i) : s'.Forbids i := by
  induction h with
  | done => exact hf
  | next _ _ _ _ _ h _ ih => exact ih (hf.gone h)

theorem Departs.identities (h : Departs s₀ true now targets s s') : s'.sourceIdentities ⊆ s.sourceIdentities := by
  induction h with
  | done => exact List.Subset.refl _
  | next _ _ _ _ _ h _ ih =>
    refine List.Subset.trans ih ?_
    rw [h.buried.unmapped]
    exact List.filter_sublist.subset

/-- Each identity of a target is held after the delete. -/
theorem Departs.held (h : Departs s₀ true now targets s s') {row : SourceThreadIdentityRow} (hrow : row ∈ s₀.sourceIdentities)
    (ht : row.threadId ∈ targets) : Held row.identity s' := by
  induction h with
  | done => simp at ht
  | next threadId targets s s₁ s' h hrest ih =>
    rcases List.mem_cons.1 ht with heq | ht
    · have hmem : row.identity ∈ (s₀.listIdentitiesByThreadId threadId).map SourceThreadIdentityRow.identity := by
        refine List.mem_map_of_mem ?_
        rw [Store.listIdentitiesByThreadId, List.mem_insertionSort]
        exact List.mem_filter.2 ⟨hrow, by simpa using heq⟩
      refine ⟨hrest.forbids ?_, List.find?_eq_none.2 fun r hr => ?_⟩
      · rw [Store.Forbids, h.buried.marked _ hmem]
        rfl
      · have hr₁ := hrest.identities hr
        rw [h.buried.unmapped, List.mem_filter] at hr₁
        have hne : r.identity ≠ row.identity := fun he => by simp [he, hmem] at hr₁
        simpa using hne
    · exact ih ht

end Delete

/-! ## What a held identity is in for -/

section Held

variable [KeyHash] {i : SourceIdentityKey} {s : Store}

/-- A batch without an override is suppressed, and writes nothing. -/
theorem Held.suppressed (h : Held i s) (target : BatchThreadTarget) {sourceIdentity : SourceIdentity}
    (hk : sourceIdentity.key? = some i) :
    addMemoriesBatch target (some sourceIdentity) false s = .ok (⟨0, false, true⟩, s) := by
  have hf := h.forbids
  unfold Store.Forbids at hf
  cases hm : s.findMarker i with
  | none => simp [hm] at hf
  | some row =>
    simp only [hm, Option.any_some] at hf
    rw [addMemoriesBatch, Tx.get_bind]
    simp only [Option.bind_some, hk, hm, Option.map_some, hf, decideSuppression, if_true]
    rfl

/-- A guarded reconcile is refused. -/
theorem Held.refused (h : Held i s) (threadId : Nat) {subject : ObservedEndpoint} (hk : subject.key? = some i)
    (observations : List ObservationInput) (owner : Int) (operationId : String) (now : Int) :
    ∃ e, reconcileSubjectTx threadId subject observations owner operationId now true s = .error e := by
  have hf := h.forbids
  unfold Store.Forbids at hf
  have hguard : wp (checkImportGuard threadId subject observations) (fun _ _ => False) (fun _ => True) s := by
    simp only [checkImportGuard, wp_bind, wp_get]
    split
    · trivial
    · simp only [wp_bind, wp_ensure, hk]
      refine ⟨fun _ => ⟨fun hnone => ?_, fun _ => trivial⟩, fun _ => trivial⟩
      rw [Option.isNone_iff_eq_none] at hnone
      simp [hnone] at hf
  have hrun : reconcileSubjectTx threadId subject observations owner operationId now true =
      (checkImportGuard threadId subject observations >>= fun _ =>
        reconcileSubjectTx threadId subject observations owner operationId now false) := rfl
  have hwp : wp (reconcileSubjectTx threadId subject observations owner operationId now true) (fun _ _ => False)
      (fun _ => True) s := by
    rw [hrun, wp_bind]
    exact hguard.imp fun _ _ h => h.elim
  cases hres : reconcileSubjectTx threadId subject observations owner operationId now true s with
  | ok p => exact (hwp.ok hres).elim
  | error e => exact ⟨e, rfl⟩

theorem mapped_untouched {identity : SourceIdentityKey} (hne : i ≠ identity) (threadId : Nat) :
    Untouched i s (s.mapped threadId identity) := by
  have hmap : ∀ s : Store, Untouched i s (s.mapSource threadId identity) := upsertResolved_leaves hne
  unfold Store.mapped
  split
  · exact hmap s
  · exact ⟨(hmap _).marker, (hmap _).resolved⟩

variable [PurgeDigest]

/-- The step neither overrides the marker of the identity, nor purges it, nor reconciles the identity without the guard. -/
def Action.Respects (i : SourceIdentityKey) (s : Store) : Action → Prop
  | .batch _ sourceIdentity explicitOverride => ¬ (explicitOverride = true ∧ sourceIdentity.bind SourceIdentity.key? = some i)
  | .reconcile _ subject _ _ _ _ importGuard => subject.key? = some i → importGuard = true
  | .purge groupId expectedDigest => ((Action.purge groupId expectedDigest).exec s).findMarker i = s.findMarker i
  | _ => True

instance Action.decidableRespects (i : SourceIdentityKey) (s : Store) : (a : Action) → Decidable (a.Respects i s)
  | .reconcile .. | .late .. | .decide .. | .createThread .. | .batch .. | .delete .. | .merge .. | .split ..
  | .ensureKey .. | .attach .. | .purge .. => by
    unfold Action.Respects
    infer_instance

/-- What a transaction that leaves the identity alone commits. -/
theorem untouched_of_wp {a : Action} (h : wp a.tx.2 (fun _ s' => Untouched i s s') (fun _ => True) s) :
    Untouched i s (a.exec s) := by
  rcases h.commit with he | ⟨_, hu⟩
  · exact ⟨congrArg (·.findMarker i) he, congrArg (·.findResolved i) he⟩
  · exact hu

theorem Action.exec_held (hs : Sound s) (h : Held i s) {a : Action} (ha : a.Respects i s) : Held i (a.exec s) := by
  have hsame : ∀ {a : Action}, a.exec s = s → Held i (a.exec s) := fun he => he.symm ▸ h
  have hregistry : ∀ {a : Action}, (a.exec s).registry = s.registry → Held i (a.exec s) := fun he =>
    h.untouched (.of_registry he)
  cases a with
  | reconcile threadId subject observations owner operationId now importGuard =>
    by_cases hk : subject.key? = some i
    · obtain rfl := ha hk
      obtain ⟨e, he⟩ := h.refused threadId hk observations owner operationId now
      exact hsame (by simp [Action.exec, Action.tx, Tx.commit, he])
    · rcases Action.exec_cases hs (.reconcile threadId subject observations owner operationId now importGuard) with he | ho
      · exact hsame he
      · rcases Reconciles.registry ho hs with ⟨-, hr⟩ | ⟨identity, hid, hr⟩
        · exact hregistry hr
        · have hne : i ≠ identity := fun he => hk (he ▸ hid)
          exact (h.untouched (mapped_untouched hne threadId)).untouched (.of_registry hr)
  | late observationId operationId now =>
    rcases Action.exec_cases hs (.late observationId operationId now) with he | ho
    · exact hsame he
    · exact hregistry (Discovers.registry ho hs)
  | decide candidateAssociationId decision reason now =>
    rcases Action.exec_cases hs (.decide candidateAssociationId decision reason now) with he | ho
    · exact hsame he
    · exact hregistry (Decides.registry ho hs)
  | createThread => exact h.untouched (untouched_of_wp (createThread_leaves s))
  | batch target sourceIdentity explicitOverride =>
    by_cases hk : sourceIdentity.bind SourceIdentity.key? = some i
    · obtain ⟨identity, rfl, hid⟩ := Option.bind_eq_some_iff.1 hk
      obtain rfl : explicitOverride = false := by simpa [Action.Respects, hk] using ha
      exact hsame (Tx.commit_ok (h.suppressed target hid))
    · exact h.untouched (untouched_of_wp (addMemoriesBatch_leaves (fun identity hid he => hk (by rw [hid, he])) s))
  | delete targets forbidReimport now => exact h.untouched (untouched_of_wp (deleteThreadsTx_leaves h.unmapped))
  | merge source target =>
    rcases Action.exec_cases hs (.merge source target) with he | ho
    · exact hsame he
    · exact hregistry (OperatorStep.keeps ho).registry
  | split source partitions =>
    rcases Action.exec_cases hs (.split source partitions) with he | ho
    · exact hsame he
    · exact hregistry (OperatorStep.keeps ho).registry
  | ensureKey => exact h.untouched (untouched_of_wp (ensureThreadCanonicalKey_leaves s))
  | attach groupId threadId key endpoint =>
    rcases Action.exec_cases hs (.attach groupId threadId key endpoint) with he | ho
    · exact hsame he
    · exact hregistry (OperatorStep.keeps ho).registry
  | purge groupId expectedDigest =>
    have hunmapped : ((Action.purge groupId expectedDigest).exec s).findResolved i = none := by
      have hpurge : Does (Preserves fun s => s.findResolved i = none) (fun _ => True) (purgeGroup groupId expectedDigest) :=
        purgeGroup_unmapped
      rcases (hpurge s).commit with he | ⟨_, hp⟩
      · exact (congrArg (·.findResolved i) he).trans h.unmapped
      · exact hp h.unmapped
    refine ⟨?_, hunmapped⟩
    rw [Store.Forbids, show ((Action.purge groupId expectedDigest).exec s).findMarker i = s.findMarker i from ha]
    exact h.forbids

end Held

/-! ## Every later run -/

/-- What a forbidden identity is in for: it keeps its forbidding marker and has no thread, its batches are
suppressed, and its imported subjects are refused. -/
structure Forbidden [KeyHash] (i : SourceIdentityKey) (s : Store) : Prop where
  marker : ∃ marker, s.findMarker i = some marker ∧ marker.forbidReimport = true
  unmapped : ∀ row ∈ s.sourceIdentities, row.identity ≠ i
  threadless : ∀ row, s.findResolved i = some row → ¬ s.Live row.threadId
  suppressed : ∀ target sourceIdentity, sourceIdentity.key? = some i →
    addMemoriesBatch target (some sourceIdentity) false s = .ok (⟨0, false, true⟩, s)
  refused : ∀ threadId (subject : ObservedEndpoint) observations owner operationId now, subject.key? = some i →
    ∃ e, reconcileSubjectTx threadId subject observations owner operationId now true s = .error e

theorem Held.forbidden [KeyHash] {i : SourceIdentityKey} {s : Store} (h : Held i s) : Forbidden i s where
  marker := by
    have hf := h.forbids
    unfold Store.Forbids at hf
    cases hm : s.findMarker i with
    | none => simp [hm] at hf
    | some marker => exact ⟨marker, rfl, by simpa [hm] using hf⟩
  unmapped row hrow := by simpa using List.find?_eq_none.1 h.unmapped row hrow
  threadless row hrow := by simp [h.unmapped] at hrow
  suppressed target _ hk := h.suppressed target hk
  refused threadId _ observations owner operationId now hk := h.refused threadId hk observations owner operationId now

section Scenarios

open Scenario

/-- The identity of a session. -/
def sessionKey (nativeId : String) : SourceIdentityKey := ⟨1, "codex", "host", nativeId⟩

/-- Another session is imported and deleted, and the forbidden one is tried again. -/
def laterImports : List Action := [importing "q", importing "p", reconciling 3 "q" [], .delete [3] false 9, importing "p"]

end Scenarios

end MemoryStore.ThreadGroup
