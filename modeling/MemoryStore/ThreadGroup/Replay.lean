/-
A subject's transaction taken again right after itself. The mapping is there
already, and neither the mappings nor who is a placeholder has changed since the
evidence was looked at; so the same candidates are offered, and the choice is
the same, but for a parent that has been applied or retracted in between.
-/
import MemoryStore.ThreadGroup.Forecast

namespace MemoryStore.ThreadGroup

open Tx Table Forest

section Offers

variable {s s' : Store}

/-- A placement leaves placeholders placeholders, and makes no new ones. -/
theorem Placed.isDeleted {threadId : Option Nat} {key : Key} {endpoint : ObservedEndpoint} {target : Nat}
    {anchorKey : Key} (h : Placed threadId key endpoint target anchorKey s s') (hs : Memberships s) (k : Key) :
    (s'.findCurrent k).any (·.state.isDeleted) = (s.findCurrent k).any (·.state.isDeleted) := by
  by_cases hk : k = key
  · subst hk
    have hstate : ∀ {state st : MemberState}, placedState state.deletedAt? threadId = some st →
        st.isDeleted = state.isDeleted := by
      intro state st hst
      cases state with
      | deleted t =>
        obtain rfl : MemberState.deleted t = st := by simpa [MemberState.deletedAt?, placedState] using hst
        rfl
      | active t =>
        obtain ⟨t, -, rfl⟩ := by simpa [MemberState.deletedAt?, placedState] using hst
        rfl
      | redirected t d =>
        obtain ⟨t, -, rfl⟩ := by simpa [MemberState.deletedAt?, placedState] using hst
        rfl
    have hself := h.findCurrent_self hs
    unfold Store.placedMember at hself
    cases hm : s.findCurrent k with
    | none =>
      rw [hm] at hself
      rcases hself with ⟨hrow, -⟩ | ⟨tid, identity, -, hrow⟩
      · simp [hrow]
      · simp [hrow, automaticRow, MemberState.isDeleted]
    | some m =>
      rw [hm] at hself
      rcases hself with ⟨hrow, -⟩ | ⟨-, -, ⟨hrow, hst⟩ | ⟨state, identity, hst, hrow⟩⟩
      · rw [hrow]
      · rw [hrow]
        cases hms : m.state <;> simp [hms, MemberState.deletedAt?, placedState, MemberState.isDeleted] at hst ⊢
      · simp [hrow, automaticRow, hstate hst]
  · rw [h.findCurrent_of_ne hs hk]

/-- The keys, identities and markers of a store. -/
def Store.mappings (s : Store) :
    List ThreadCanonicalKeyRow × List SourceThreadIdentityRow × List ThreadDeletionMarkerRow :=
  (s.canonicalKeys, s.sourceIdentities, s.markers)

theorem mappings_eq : s'.mappings = s.mappings ↔ s'.canonicalKeys = s.canonicalKeys ∧
    s'.sourceIdentities = s.sourceIdentities ∧ s'.markers = s.markers := by simp [Store.mappings]

/-- The candidates come from the mappings and from who is a placeholder. -/
theorem candidatesFrom_congr (hmap : s'.mappings = s.mappings)
    (hdel : ∀ k, (s'.findCurrent k).any (·.state.isDeleted) = (s.findCurrent k).any (·.state.isDeleted))
    (observations : List ObservationInput) : s'.candidatesFrom observations = s.candidatesFrom observations := by
  obtain ⟨hkeys, hids, hmarkers⟩ := mappings_eq.1 hmap
  have hresolved : ∀ i, s'.findResolved i = s.findResolved i := fun i => by rw [Store.findResolved, hids]; rfl
  have hmarker : ∀ i, s'.findMarker i = s.findMarker i := fun i => by rw [Store.findMarker, hmarkers]; rfl
  have hkey : ∀ t, s'.findKeyByThreadId t = s.findKeyByThreadId t := fun t => by rw [Store.findKeyByThreadId, hkeys]; rfl
  simp only [Store.candidatesFrom, Store.offerOf, hresolved, hmarker, hkey, hdel]

theorem mapSource_mapSource (s : Store) (threadId : Nat) (identity : SourceIdentityKey) :
    ((s.mapSource threadId identity).mapSource threadId identity).mappings =
      (s.mapSource threadId identity).mappings := by
  have hsome : ((s.mapSource threadId identity).findResolved identity).isSome = true := by
    unfold Store.mapSource
    split
    · next h =>
      obtain ⟨row, hrow⟩ := Option.isSome_iff_exists.1 h
      simp only [Store.findResolved, List.find?_isSome]
      obtain ⟨hmem, hid⟩ := (⟨List.mem_of_find?_eq_some hrow, by simpa using List.find?_some hrow⟩ :
        row ∈ s.sourceIdentities ∧ row.identity = identity)
      exact ⟨{ row with threadId }, mem_modifyWhere.2 ⟨row, hmem, by simp [hid]⟩, by simp [hid]⟩
    · simp [Store.findResolved]
  have hall : ∀ row ∈ (s.mapSource threadId identity).sourceIdentities, row.identity = identity →
      row.threadId = threadId := by
    intro row hrow hid
    unfold Store.mapSource at hrow
    split at hrow
    · obtain ⟨row', -, rfl⟩ := mem_modifyWhere.1 hrow
      split
      · rfl
      · next hne =>
        rw [if_neg hne] at hid
        simp [hid] at hne
    · next hnone =>
      rcases List.mem_append.1 hrow with hmem | hmem
      · exact (hnone (by simpa [Store.findResolved] using ⟨row, hmem, hid⟩)).elim
      · obtain rfl := List.mem_singleton.1 hmem
        rfl
  have hfix : modifyWhere (fun row => row.identity = identity) (fun row => { row with threadId })
      (s.mapSource threadId identity).sourceIdentities = (s.mapSource threadId identity).sourceIdentities := by
    rw [modifyWhere]
    conv_rhs => rw [← List.map_id (s.mapSource threadId identity).sourceIdentities]
    refine List.map_congr_left fun row hrow => ?_
    by_cases hid : row.identity = identity
    · rw [if_pos (by simpa using hid), ← hall row hrow hid]
      rfl
    · simp [hid]
  generalize s.mapSource threadId identity = t at *
  rw [Store.mapSource, if_pos hsome]
  simp only [Store.mappings, hfix]

variable [KeyHash]

theorem isDeleted_stable (k : Key) (deleted : Bool) :
    Stable fun s => (s.findCurrent k).any (·.state.isDeleted) = deleted :=
  .of_current (fun he hi => by rw [he]; exact hi) fun hs hi hp => (hp.isDeleted hs k).trans hi

theorem Adopts.mappings {threadId : Nat} {key : Key} {subject : ObservedEndpoint} {offers : List OfferedCandidate}
    {owner : Int} (h : Adopts threadId key subject offers owner s s') (hs : Sound s) : s'.mappings = s.mappings := by
  have hev : ∀ {s s' : Store}, EvidenceOnly s s' → s'.mappings = s.mappings := fun h =>
    h.read Store.mappings fun _ => rfl
  cases h with
  | unselected => rfl
  | tied _ _ _ h =>
    refine (hev h).trans ?_
    unfold Store.retracted
    split <;> rfl
  | refused _ _ _ _ h => exact hev h
  | applied winner offer out s₁ _ _ hno _ happ h =>
    refine (hev h).trans ?_
    cases happ with
    | same _ _ _ _ hens => exact (hens.reassigning hs).2.1.read Store.mappings fun _ => rfl
    | conflicting _ _ _ _ hev' => exact (hev hev').trans rfl
    | adopted _ _ _ s₂ _ hn _ hens hev' =>
      exact (hev hev').trans ((hens.reassigning (hs.relate rfl hn hno)).2.1.read Store.mappings fun _ => rfl)

theorem mapped_findKey (s : Store) (threadId : Nat) (identity : SourceIdentityKey) :
    ∃ row, (s.mapped threadId identity).findKeyByThreadId threadId = some row ∧
      row.key = s.subjectKey threadId identity := by
  have hmap : ∀ t : Store, (t.mapSource threadId identity).findKeyByThreadId threadId = t.findKeyByThreadId threadId :=
    fun t => by
      unfold Store.mapSource
      split <;> rfl
  unfold Store.mapped Store.subjectKey
  cases hrow : s.findKeyByThreadId threadId with
  | some row => exact ⟨row, (hmap s).trans hrow, rfl⟩
  | none =>
    refine ⟨⟨threadId, identity.userId, identity.canonicalKey, .sourceIdentity⟩, (hmap _).trans ?_, rfl⟩
    rw [Store.findKeyByThreadId] at hrow ⊢
    simp [List.find?_append, hrow]

/-- A store with the mappings of one in which the subject is mapped, maps it the same way. -/
theorem mapped_of_mappings {threadId : Nat} {identity : SourceIdentityKey}
    (h : s'.mappings = (s.mapped threadId identity).mappings) :
    s'.subjectKey threadId identity = s.subjectKey threadId identity ∧
      (s'.mapped threadId identity).mappings = (s.mapped threadId identity).mappings := by
  obtain ⟨row, hrow, hkey⟩ := mapped_findKey s threadId identity
  have hrow' : s'.findKeyByThreadId threadId = some row := by
    rw [← hrow, Store.findKeyByThreadId, (mappings_eq.1 h).1]
    rfl
  refine ⟨by rw [← hkey]; simp [Store.subjectKey, hrow'], ?_⟩
  have hmapped : s'.mapped threadId identity = s'.mapSource threadId identity := by simp [Store.mapped, hrow']
  rw [hmapped]
  have hcongr : ∀ t t' : Store, t'.mappings = t.mappings →
      (t'.mapSource threadId identity).mappings = (t.mapSource threadId identity).mappings := fun t t' he => by
    obtain ⟨hkeys, hids, hmarkers⟩ := mappings_eq.1 he
    have hresolved : t'.findResolved identity = t.findResolved identity := by rw [Store.findResolved, hids]; rfl
    simp only [Store.mapSource, hresolved]
    split <;> simp only [Store.mappings, hkeys, hmarkers, hids]
  refine (hcongr _ _ h).trans ?_
  unfold Store.mapped
  split <;> exact mapSource_mapSource ..

theorem mapped_findCurrent (s : Store) (threadId : Nat) (identity : SourceIdentityKey) (k : Key) :
    (s.mapped threadId identity).findCurrent k = s.findCurrent k := by
  unfold Store.mapped Store.mapSource
  split <;> split <;> rfl

/-- **The same offers again.** After the subject's transaction its key and the candidates of its
evidence are what they were before it. -/
theorem Reconciles.offers_again {threadId : Nat} {subject : ObservedEndpoint} {observations : List ObservationInput}
    {owner : Int} {identity : SourceIdentityKey} (h : Reconciles threadId subject observations owner s s') (hs : Sound s)
    (hk : subject.key? = some identity) :
    s'.subjectKey threadId identity = s.subjectKey threadId identity ∧
      (s'.mapped threadId identity).candidatesFrom observations =
        (s.mapped threadId identity).candidatesFrom observations := by
  cases h with
  | evidence _ hk' _ => simp [hk] at hk'
  | subject identity' key ids s₁ s₂ s₃ _ hk' hassigned hev _ hadopts hhoused =>
    obtain rfl := Option.some.inj (hk.symm.trans hk')
    obtain rfl := hassigned.eq.2
    have hs₁ := hassigned.mapping.tables hs
    have hs₂ := hs₁.evidence hev
    have hmap : s'.mappings = (s.mapped threadId identity).mappings :=
      (hhoused.regroups.read Store.mappings fun _ => rfl).trans
        ((hadopts.mappings hs₂).trans (hev.read Store.mappings fun _ => rfl))
    obtain ⟨hkey, hmapped⟩ := mapped_of_mappings hmap
    refine ⟨hkey, candidatesFrom_congr hmapped (fun k => ?_) observations⟩
    rw [mapped_findCurrent]
    have hstable := isDeleted_stable k (((s.mapped threadId identity).findCurrent k).any (·.state.isDeleted))
    have hkey₂ : s₂.HasKey threadId key := hassigned.hasKey.congr hev.canonicalKeys
    have hoffers : ∀ offer ∈ (s.mapped threadId identity).offersFrom (observations.zip ids),
        (s₂.resolvedThreadId offer.parent).isSome = true := by
      intro offer hoffer
      rw [hev.read (fun s => s.resolvedThreadId offer.parent) fun _ => rfl]
      exact (offersFrom_resolves hoffer).isSome
    have hi₃ := hadopts.stable hstable hs₂ hkey₂ hoffers (hstable.evidence hs₁ rfl hev)
    exact hstable.housed (hadopts.sound hs₂) hi₃ (hadopts.stable (hasKey_stable threadId key) hs₂ hkey₂ hoffers hkey₂)
      hhoused

end Offers

end MemoryStore.ThreadGroup
