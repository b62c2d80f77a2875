/-
Who is who: threads, their keys, their source identities, and the markers of
deleted identities (`Store.registry`). The reconciler changes the registry in
one place only, where it maps its subject; late discovery, operator decisions
and the operator's mutations of groups leave it alone.
-/
import MemoryStore.ThreadGroup.Replay
import MemoryStore.ThreadGroup.Deletion
import MemoryStore.ThreadGroup.OwnerSteps

namespace MemoryStore.ThreadGroup

open Tx Table Forest

/-- The store with its threads, keys, identities and markers only. -/
def Store.registry (s : Store) : Store :=
  { Store.empty with
      threads := s.threads
      canonicalKeys := s.canonicalKeys
      sourceIdentities := s.sourceIdentities
      markers := s.markers }

section Registry

variable {s s' : Store}

theorem registry_eq : s'.registry = s.registry ↔ s'.threads = s.threads ∧ s'.canonicalKeys = s.canonicalKeys ∧
    s'.sourceIdentities = s.sourceIdentities ∧ s'.markers = s.markers := by
  simp [Store.registry]

theorem EvidenceOnly.registry (h : EvidenceOnly s s') : s'.registry = s.registry := h.read Store.registry fun _ => rfl

theorem RegroupOnly.registry (h : RegroupOnly s s') : s'.registry = s.registry := h.read Store.registry fun _ => rfl

/-- What the same registry answers. -/
theorem findMarker_registry (h : s'.registry = s.registry) (i : SourceIdentityKey) : s'.findMarker i = s.findMarker i := by
  rw [Store.findMarker, (registry_eq.1 h).2.2.2, Store.findMarker]

theorem findResolved_registry (h : s'.registry = s.registry) (i : SourceIdentityKey) :
    s'.findResolved i = s.findResolved i := by
  rw [Store.findResolved, (registry_eq.1 h).2.2.1, Store.findResolved]

theorem findThread_registry (h : s'.registry = s.registry) (t : Nat) : s'.findThread t = s.findThread t := by
  rw [Store.findThread, (registry_eq.1 h).1, Store.findThread]

theorem retracted_registry (key : Key) : (s.retracted key).registry = s.registry := by
  unfold Store.retracted
  split <;> rfl

theorem superseded_registry (key : Key) : (s.superseded key).registry = s.registry := by
  unfold Store.superseded
  split <;> rfl

variable [KeyHash]

theorem Adopts.registry {threadId : Nat} {key : Key} {subject : ObservedEndpoint} {offers : List OfferedCandidate}
    {owner : Int} (h : Adopts threadId key subject offers owner s s') (hs : Sound s) : s'.registry = s.registry := by
  cases h with
  | unselected => rfl
  | tied _ _ _ hev => exact hev.registry.trans (retracted_registry key)
  | refused _ _ _ _ hev => exact hev.registry
  | applied winner offer out s₁ _ _ hno _ happ hev =>
    refine hev.registry.trans ?_
    cases happ with
    | same _ _ _ _ hens => exact (hens.reassigning hs).2.1.registry
    | conflicting _ _ _ _ hev' => exact hev'.registry.trans rfl
    | adopted _ _ _ s₂ _ hn _ hens hev' =>
      exact hev'.registry.trans ((hens.reassigning (hs.relate rfl hn hno)).2.1.registry.trans rfl)

/-- The subject's transaction maps the subject, if its scope is known, and no one else. -/
theorem Reconciles.registry {threadId : Nat} {subject : ObservedEndpoint} {observations : List ObservationInput}
    {owner : Int} (h : Reconciles threadId subject observations owner s s') (hs : Sound s) :
    (subject.key? = none ∧ s'.registry = s.registry) ∨
      ∃ identity, subject.key? = some identity ∧ s'.registry = (s.mapped threadId identity).registry := by
  cases h with
  | evidence _ hk hev => exact .inl ⟨hk, hev.registry⟩
  | subject identity key ids s₁ s₂ s₃ _ hk hassigned hev _ hadopts hhoused =>
    have hs₂ := (hassigned.mapping.tables hs).evidence hev
    refine .inr ⟨identity, hk, ?_⟩
    rw [hhoused.regroups.registry, hadopts.registry hs₂, hev.registry, hassigned.eq.2]

theorem Discovers.registry {observationId : Nat} (h : Discovers observationId s s') (hs : Sound s) :
    s'.registry = s.registry := by
  cases h with
  | nothing => rfl
  | adopts _ _ _ _ _ _ _ _ _ hadopts => exact hadopts.registry hs

theorem Decides.registry {candidateAssociationId : Nat} {decision : OperatorDecision} {reason : String}
    (h : Decides candidateAssociationId decision reason s s') (hs : Sound s) : s'.registry = s.registry := by
  cases h with
  | evidence _ hev => exact hev.registry
  | retracts _ existing s₁ _ h₁ _ _ h₂ => exact h₂.registry.trans (Eq.trans rfl h₁.registry)
  | confirms candidate threadId key decisionId s₁ s₂ _ _ _ _ _ h₁ hconfirms h₂ =>
    refine h₂.registry.trans (Eq.trans ?_ h₁.registry)
    cases hconfirms with
    | already => rfl
    | adopted e _ _ _ _ _ _ _ _ hno hens =>
      have hs₁ := (hs.evidence h₁).superseded e.subjectKey
      have hs₂ : Sound ((s₁.superseded e.subjectKey).relate (confirmedRow e decisionId s₁.nextId)) := hs₁.relate rfl
        ((hs.evidence h₁).forest.findActiveByChild_superseded e.subjectKey)
        ((hs.evidence h₁).forest.not_climbs_superseded hno)
      exact (hens.reassigning hs₂).2.1.registry.trans (Eq.trans rfl (superseded_registry e.subjectKey))

end Registry

/-! ## One identity -/

/-- Dropping the rows of one key leaves the lookup of another. -/
theorem find?_drop {α κ : Type} [DecidableEq κ] (key : α → κ) {k dropped : κ} (hne : k ≠ dropped) : ∀ rows : List α,
    (rows.filter fun a => key a ≠ dropped).find? (fun a => key a = k) = rows.find? (fun a => key a = k)
  | [] => rfl
  | a :: rows => by
    have ih := find?_drop key hne rows
    by_cases ha : key a = dropped
    · rw [List.filter_cons_of_neg (by simpa using ha), ih, List.find?_cons_of_neg (by simpa [ha] using hne.symm)]
    · rw [List.filter_cons_of_pos (by simpa using ha), List.find?_cons, List.find?_cons, ih]

/-- The marker and the mapping of an identity are as they were. -/
structure Untouched (i : SourceIdentityKey) (s s' : Store) : Prop where
  marker : s'.findMarker i = s.findMarker i
  resolved : s'.findResolved i = s.findResolved i

instance (i : SourceIdentityKey) : Std.Refl (Untouched i) := ⟨fun _ => ⟨rfl, rfl⟩⟩

instance (i : SourceIdentityKey) : IsTrans Store (Untouched i) :=
  ⟨fun _ _ _ h h' => ⟨h'.marker.trans h.marker, h'.resolved.trans h.resolved⟩⟩

section Identity

variable {i : SourceIdentityKey} {E : TxError → Prop}

theorem Untouched.of_registry {s s' : Store} (h : s'.registry = s.registry) : Untouched i s s' :=
  ⟨findMarker_registry h i, findResolved_registry h i⟩

/-- A program that leaves one identity alone, however it ends. -/
abbrev LeavesAlone {α : Type} (i : SourceIdentityKey) (m : StoreTx α) : Prop := Does (Untouched i) (fun _ => True) m

theorem upsertResolved_leaves {identity : SourceIdentityKey} {threadId : Nat} (hne : i ≠ identity) :
    LeavesAlone i (upsertResolved identity threadId) := Does.writes fun s => by
  split
  · refine ⟨rfl, ?_⟩
    simp only [Store.findResolved]
    rw [@find?_modifyWhere_key _ _ _ SourceThreadIdentityRow.identity (fun row => row.identity = identity)
      (fun row => { row with threadId }) fun _ _ => rfl]
    cases hfind : s.sourceIdentities.find? (fun row => row.identity = i) with
    | none => rfl
    | some row =>
      have hid : row.identity = i := by simpa using List.find?_some hfind
      simp [hid, hne]
  · refine ⟨rfl, ?_⟩
    simp only [Store.findResolved, List.find?_append]
    simp [Ne.symm hne]

theorem consumeMarker_leaves {identity : SourceIdentityKey} (hne : i ≠ identity) :
    LeavesAlone i (consumeMarker identity) := Does.writes fun s => by
  exact ⟨find?_drop ThreadDeletionMarkerRow.identity hne s.markers, rfl⟩

theorem putMarker_leaves {marker : ThreadDeletionMarkerRow} (hne : i ≠ marker.identity) :
    LeavesAlone i (putMarker marker) := Does.writes fun s => by
  obtain ⟨identity, forbidReimport, key⟩ := marker
  refine ⟨(findMarker_withMarker identity i).trans (if_neg hne), ?_⟩
  exact congrArg (fun rows => rows.find? (fun row => row.identity = i)) (withMarker_sourceIdentities _)

theorem deleteIdentity_leaves {identity : SourceIdentityKey} (hne : i ≠ identity) :
    LeavesAlone i (deleteIdentity identity) := Does.writes fun s => by
  exact ⟨rfl, find?_drop SourceThreadIdentityRow.identity hne s.sourceIdentities⟩

/-- Writes to other tables leave every identity alone. -/
theorem LeavesAlone.writes {f : Store → Store} (h : ∀ s, (f s).markers = s.markers ∧ (f s).sourceIdentities = s.sourceIdentities) :
    LeavesAlone i (Tx.writes f) := Does.writes fun s =>
  ⟨congrArg (fun rows => rows.find? (fun row => row.identity = i)) (h s).1,
    congrArg (fun rows => rows.find? (fun row => row.identity = i)) (h s).2⟩

end Identity

end MemoryStore.ThreadGroup
