/-
What a delete does to threads, source identities and deletion markers; what it
does to keys, members and relations is in `LifecycleSteps`. Each target's
identities are those it had when the transaction began, and each leaves a
marker under the identity, with the key the target had, or else the key of the
marker that was there.
-/
import MemoryStore.ThreadGroup.LifecycleSteps

namespace MemoryStore.ThreadGroup

open Tx Table

/-- The marker of an identity after its thread was deleted. -/
def Store.buriedMarker (s : Store) (forbidReimport : Bool) (key : Option Key) (identity : SourceIdentityKey) :
    ThreadDeletionMarkerRow :=
  ⟨identity, forbidReimport, key.or ((s.findMarker identity).bind ThreadDeletionMarkerRow.threadCanonicalKey)⟩

/-- The identities have markers instead of threads; others are as they were. -/
structure Buried (forbidReimport : Bool) (key : Option Key) (identities : List SourceIdentityKey) (s s' : Store) :
    Prop where
  unmapped : s'.sourceIdentities = s.sourceIdentities.filter fun row => row.identity ∉ identities
  marked : ∀ i ∈ identities, s'.findMarker i = some (s.buriedMarker forbidReimport key i)
  unmarked : ∀ i, i ∉ identities → s'.findMarker i = s.findMarker i

/-- One target is gone: its thread, its key with what names it in the graph, and its identities to their markers. -/
structure Gone (forbidReimport : Bool) (now : Int) (key : Option Key) (identities : List SourceIdentityKey)
    (threadId : Nat) (s s' : Store) : Prop where
  threads : s'.threads = s.threads.filter fun row => row.id ≠ threadId
  graph : SameGraph (s.deleted threadId key now) s'
  buried : Buried forbidReimport key identities s s'

/-- The store after `put_tx`. -/
def Store.withMarker (s : Store) (marker : ThreadDeletionMarkerRow) : Store :=
  if (s.findMarker marker.identity).isSome then
    { s with
        markers := modifyWhere (fun row => row.identity = marker.identity)
          (fun row => { marker with threadCanonicalKey := marker.threadCanonicalKey.or row.threadCanonicalKey }) s.markers }
  else { s with markers := s.markers ++ [marker] }

section Markers

variable {s : Store} {forbidReimport : Bool} {key : Option Key}

theorem withMarker_threads (marker : ThreadDeletionMarkerRow) : (s.withMarker marker).threads = s.threads := by
  unfold Store.withMarker
  split <;> rfl

theorem withMarker_sourceIdentities (marker : ThreadDeletionMarkerRow) :
    (s.withMarker marker).sourceIdentities = s.sourceIdentities := by
  unfold Store.withMarker
  split <;> rfl

/-- A marker replaces the one its identity had. -/
theorem findMarker_withMarker (identity i : SourceIdentityKey) :
    (s.withMarker ⟨identity, forbidReimport, key⟩).findMarker i =
      if i = identity then some (s.buriedMarker forbidReimport key identity) else s.findMarker i := by
  unfold Store.withMarker
  by_cases hsome : (s.findMarker identity).isSome = true
  · rw [if_pos hsome]
    simp only [Store.findMarker]
    rw [find?_modifyWhere_key ThreadDeletionMarkerRow.identity fun a ha => by simpa [eq_comm] using ha]
    obtain ⟨row, hrow⟩ := Option.isSome_iff_exists.1 hsome
    by_cases hi : i = identity
    · subst hi
      have hid : row.identity = i := by simpa using List.find?_some hrow
      simp only [Store.findMarker] at hrow
      simp [hrow, hid, Store.buriedMarker, Store.findMarker]
    · rw [if_neg hi]
      cases hfind : s.markers.find? (fun row => row.identity = i) with
      | none => rfl
      | some other =>
        have hid : other.identity = i := by simpa using List.find?_some hfind
        simp [hid, hi]
  · rw [if_neg hsome]
    have hnone : s.findMarker identity = none := by simpa using hsome
    simp only [Store.findMarker]
    rw [find?_append_of_new ThreadDeletionMarkerRow.identity _ fun r hr => by
      simpa using List.find?_eq_none.1 hnone r hr]
    simp only [Store.buriedMarker, hnone, Option.bind_none, Option.or_none]

/-- The store after one identity was buried. -/
def Store.bury (s : Store) (forbidReimport : Bool) (key : Option Key) (identity : SourceIdentityKey) : Store :=
  { s.withMarker ⟨identity, forbidReimport, key⟩ with
      sourceIdentities := (s.withMarker ⟨identity, forbidReimport, key⟩).sourceIdentities.filter
        (fun row => row.identity ≠ identity) }

theorem findMarker_bury (identity i : SourceIdentityKey) : (s.bury forbidReimport key identity).findMarker i =
    if i = identity then some (s.buriedMarker forbidReimport key identity) else s.findMarker i :=
  findMarker_withMarker identity i

theorem Buried.nil : Buried forbidReimport key [] s s where
  unmapped := by simp
  marked := by simp
  unmarked _ _ := rfl

theorem Buried.cons {s' : Store} {identity : SourceIdentityKey} {identities : List SourceIdentityKey}
    (h : Buried forbidReimport key identities (s.bury forbidReimport key identity) s') :
    Buried forbidReimport key (identity :: identities) s s' where
  unmapped := by
    rw [h.unmapped, Store.bury, withMarker_sourceIdentities, List.filter_filter]
    refine List.filter_congr fun r _ => ?_
    simp only [List.mem_cons, not_or, Bool.decide_and, ne_eq, Bool.and_comm]
  marked i hi := by
    by_cases hin : i ∈ identities
    · rw [h.marked i hin]
      simp only [Store.buriedMarker, findMarker_bury]
      by_cases he : i = identity
      · cases key <;> simp [he]
      · rw [if_neg he]
    · obtain rfl : i = identity := by simpa [hin] using hi
      rw [h.unmarked i hin, findMarker_bury, if_pos rfl]
  unmarked i hi := by
    simp only [List.mem_cons, not_or] at hi
    rw [h.unmarked i hi.2, findMarker_bury, if_neg hi.1]

/-- Burying the identities of a target, one after the other. -/
theorem bury_spec {E : TxError → Prop} : ∀ (identities : List SourceThreadIdentityRow) (s : Store),
    wp (Tx.forEach identities fun row => do
      putMarker ⟨row.identity, forbidReimport, key⟩
      deleteIdentity row.identity)
      (fun _ s' => Buried forbidReimport key (identities.map SourceThreadIdentityRow.identity) s s' ∧
        s'.threads = s.threads) E s
  | [], _ => ⟨.nil, rfl⟩
  | row :: identities, s => by
    simp only [Tx.forEach, wp_bind]
    refine (bury_spec identities (s.bury forbidReimport key row.identity)).imp fun _ s' hout => ⟨hout.1.cons, hout.2.trans ?_⟩
    exact withMarker_threads _

theorem deleteTarget_gone {now : Int} {identities : List SourceThreadIdentityRow} {threadId : Nat} (s : Store) :
    wp (deleteTarget forbidReimport now key identities threadId)
      (fun _ s' => Gone forbidReimport now key (identities.map SourceThreadIdentityRow.identity) threadId s s')
      (fun _ => False) s := by
  have hrest : ∀ s₁ : Store, s₁.sourceIdentities = s.sourceIdentities → s₁.markers = s.markers →
      s₁.threads = s.threads.filter (fun row => row.id ≠ threadId) → wp (do
      Tx.forEach identities fun row => do
        putMarker ⟨row.identity, forbidReimport, key⟩
        deleteIdentity row.identity
      deleteKey threadId : StoreTx Unit)
      (fun _ s' => s'.threads = s.threads.filter (fun row => row.id ≠ threadId) ∧
        Buried forbidReimport key (identities.map SourceThreadIdentityRow.identity) s s')
      (fun _ => False) s₁ := by
    intro s₁ hid hmark hthreads
    have hfind : ∀ i, s₁.findMarker i = s.findMarker i := fun i => by rw [Store.findMarker, hmark, Store.findMarker]
    rw [wp_bind]
    refine (bury_spec identities s₁).imp fun _ s₂ hout => ?_
    obtain ⟨h, ht⟩ := hout
    simp only [deleteKey, wp_writes]
    refine ⟨ht.trans hthreads, hid ▸ h.unmapped, fun i hi => ?_, fun i hi => (h.unmarked i hi).trans (hfind i)⟩
    refine (h.marked i hi).trans ?_
    rw [Store.buriedMarker, hfind, Store.buriedMarker]
  have hregistry : wp (deleteTarget forbidReimport now key identities threadId)
      (fun _ s' => s'.threads = s.threads.filter (fun row => row.id ≠ threadId) ∧
        Buried forbidReimport key (identities.map SourceThreadIdentityRow.identity) s s') (fun _ => False) s := by
    simp only [deleteTarget, deleteThreadInTx, detachParentThreadId, detachChildThreadId, wp_bind, wp_writes]
    cases key with
    | none => exact hrest _ rfl rfl rfl
    | some key =>
      simp only [markCurrentDeleted, wp_bind, wp_writes]
      exact wp_bind.1 (hrest _ rfl rfl rfl)
  exact (hregistry.and (deleteTarget_spec s)).mono (fun _ s' hout => ⟨hout.1.1, hout.2, hout.1.2⟩) fun _ he => he.1

end Markers

/-- The targets of a delete go one after the other, each with the key and the identities it had in the first store. -/
inductive Departs (s₀ : Store) (forbidReimport : Bool) (now : Int) : List Nat → Store → Store → Prop where
  | done (s : Store) : Departs s₀ forbidReimport now [] s s
  | next (threadId : Nat) (targets : List Nat) (s s₁ s' : Store)
      (h : Gone forbidReimport now (s₀.keyOf threadId)
        ((s₀.listIdentitiesByThreadId threadId).map SourceThreadIdentityRow.identity) threadId s s₁)
      (hrest : Departs s₀ forbidReimport now targets s₁ s') : Departs s₀ forbidReimport now (threadId :: targets) s s'

/-- **A delete cannot fail**, and takes all the threads it was given. -/
theorem deleteThreadsTx_departs {targets : List Nat} {forbidReimport : Bool} {now : Int} (s : Store) :
    wp (deleteThreadsTx targets forbidReimport now) (fun _ s' => Departs s forbidReimport now targets s s')
      (fun _ => False) s := by
  simp only [deleteThreadsTx, wp_bind, wp_get]
  have hloop : ∀ (targets : List Nat) (s₁ : Store),
      wp (Tx.forEach targets fun threadId => deleteTarget forbidReimport now (s.keyOf threadId)
        (s.listIdentitiesByThreadId threadId) threadId)
        (fun _ s' => Departs s forbidReimport now targets s₁ s') (fun _ => False) s₁ := by
    intro targets
    induction targets with
    | nil => exact fun s₁ => .done s₁
    | cons threadId targets ih =>
      intro s₁
      simp only [Tx.forEach, wp_bind]
      exact (deleteTarget_gone s₁).imp fun _ s₂ h => (ih s₂).imp fun _ s' h' => .next threadId targets s₁ s₂ s' h h'
  exact hloop targets s

theorem Departs.threads {s₀ s s' : Store} {forbidReimport : Bool} {now : Int} {targets : List Nat}
    (h : Departs s₀ forbidReimport now targets s s') : s'.threads = s.threads.filter fun row => row.id ∉ targets := by
  induction h with
  | done => simp
  | next threadId targets s s₁ s' h _ ih =>
    rw [ih, h.threads, List.filter_filter]
    refine List.filter_congr fun r _ => ?_
    simp only [List.mem_cons, not_or, Bool.decide_and, ne_eq, Bool.and_comm]

end MemoryStore.ThreadGroup
