/-
What every transaction of the reconciler preserves: a property that survives
six kinds of change (`Stable`) survives reconciling, late discovery and
operator decisions. With a change comes what is known where it happens: an
edge is only placed for a thread that has the subject's key and a parent whose
thread is resolved.
-/
import MemoryStore.ThreadGroup.ActionOutcome

namespace MemoryStore.ThreadGroup

open Forest

/-- The thread has this canonical key. -/
def Store.HasKey (s : Store) (threadId : Nat) (key : Key) : Prop :=
  ∃ row ∈ s.canonicalKeys, row.threadId = threadId ∧ row.key = key

theorem EvidenceOnly.canonicalKeys {s s' : Store} (h : EvidenceOnly s s') : s'.canonicalKeys = s.canonicalKeys :=
  h.read Store.canonicalKeys fun _ => rfl

theorem Store.HasKey.congr {s s' : Store} {threadId : Nat} {key : Key} (h : s.HasKey threadId key)
    (he : s'.canonicalKeys = s.canonicalKeys) : s'.HasKey threadId key := by
  obtain ⟨row, hrow, hr⟩ := h
  exact ⟨row, he ▸ hrow, hr⟩

theorem hasKey_of_findKeyByThreadId {s : Store} {threadId : Nat} {row : ThreadCanonicalKeyRow}
    (h : s.findKeyByThreadId threadId = some row) : s.HasKey threadId row.key :=
  ⟨row, (findKeyByThreadId_mem h).1, (findKeyByThreadId_mem h).2, rfl⟩

/-- What is known of an edge that is placed: the subject's thread has its key, and the parent's thread is resolved. -/
structure Edge.Known (e : Edge) (s : Store) : Prop where
  subject : s.HasKey e.subjectThreadId e.subjectKey
  parent : e.parentThreadId.isSome = true

/-- The relation of an edge, as an adoption inserts it under an id. -/
structure Edge.Row (e : Edge) (id : Nat) (row : RelationRow) : Prop where
  id : row.id = id
  active : row.isActive = true
  child : row.childThreadCanonicalKey = e.subjectKey
  parent : row.parentThreadCanonicalKey = e.parentKey
  childThreadId : row.childThreadId = some e.subjectThreadId

/-! ## What is offered is resolved -/

theorem resolvedThreadId_isSome {s : Store} {endpoint : ObservedEndpoint} {identity : SourceIdentityKey}
    {row : SourceThreadIdentityRow} (hk : endpoint.key? = some identity) (hr : s.findResolved identity = some row) :
    (s.resolvedThreadId endpoint).isSome = true := by
  simp [Store.resolvedThreadId, SourceIdentity.lockKey_of_key? hk, hr]

/-- A candidate's parent: the identity of its endpoint is mapped to a thread, and that thread has the candidate's key. -/
structure OfferedCandidate.Resolves (offer : OfferedCandidate) (s : Store) : Prop where
  mapped : ∃ identity row key, offer.parent.key? = some identity ∧ s.findResolved identity = some row ∧
    s.findKeyByThreadId row.threadId = some key ∧ offer.candidate.parentKey = key.key

theorem OfferedCandidate.Resolves.isSome {offer : OfferedCandidate} {s : Store} (h : offer.Resolves s) :
    (s.resolvedThreadId offer.parent).isSome = true := by
  obtain ⟨identity, row, _, hk, hr, -⟩ := h.mapped
  exact resolvedThreadId_isSome hk hr

theorem offersFrom_resolves {s : Store} {inputs : List (ObservationInput × Nat)} {offer : OfferedCandidate}
    (h : offer ∈ s.offersFrom inputs) : offer.Resolves s := by
  obtain ⟨⟨input, id⟩, -, hoffer⟩ := List.mem_filterMap.1 h
  have hoff : s.offerOf input id = .offered offer := by
    cases hc : s.offerOf input id <;> simp_all [ParentOffer.candidate?]
  unfold Store.offerOf at hoff
  split at hoff
  · simp at hoff
  · split at hoff
    · simp at hoff
    · split at hoff
      · simp at hoff
      · next parentLock hlock =>
        split at hoff
        · simp at hoff
        · next resolved hresolved =>
          split at hoff
          · simp at hoff
          · split at hoff
            · simp at hoff
            · next key hkey =>
              split at hoff
              · simp at hoff
              · obtain rfl := ParentOffer.offered.inj hoff
                exact ⟨parentLock, resolved, key, hlock, hresolved, hkey, rfl⟩

theorem lateOfferOf_resolves {s : Store} {associations : List CandidateAssociationRow} {row : ObservationRow}
    {offer : OfferedCandidate} (h : s.lateOfferOf associations row = some offer) : offer.Resolves s := by
  unfold Store.lateOfferOf at h
  split at h
  · simp at h
  · split at h
    · simp at h
    · split at h
      · simp at h
      · split at h
        · simp at h
        · next parentLock hlock =>
          split at h
          · simp at h
          · split at h
            · simp at h
            · next parentIdentity hresolved =>
              split at h
              · simp at h
              · next key hkey =>
                split at h
                · obtain rfl := Option.some.inj h
                  exact ⟨parentLock, parentIdentity, key, hlock, hresolved, hkey, rfl⟩
                · simp at h

/-- What late discovery knows of its subject. -/
structure LateSubject.Known (late : LateSubject) (s : Store) : Prop where
  key : s.HasKey late.threadId late.key
  live : (s.findCurrent late.key).any (·.state.isActive) = true
  automatic : (s.findActiveByChild late.key).any (·.selection.byOperator) = false
  offers : ∀ offer ∈ late.offers, offer.Resolves s

theorem lateSubject_known {s : Store} {observationId : Nat} {subject parent : SourceIdentityKey} {late : LateSubject}
    (h : s.lateSubject observationId subject parent = some late) :
    late.Known s ∧ ∃ row, s.findResolved subject = some row ∧ row.threadId = late.threadId := by
  unfold Store.lateSubject at h
  dsimp only at h
  split at h
  · simp at h
  · split at h
    · simp at h
    · split at h
      · simp at h
      · split at h
        · simp at h
        · next subjectIdentity hsubject =>
          split at h
          · simp at h
          · next subjectKey hkey =>
            split at h
            · simp at h
            · next hlive =>
              split at h
              · simp at h
              · next hauto =>
                split at h
                · simp at h
                · split at h
                  · simp at h
                  · split at h
                    · simp at h
                    · split at h
                      · obtain rfl := Option.some.inj h
                        refine ⟨⟨hasKey_of_findKeyByThreadId hkey, by simpa using hlive, by simpa using hauto,
                          fun offer hoffer => ?_⟩, subjectIdentity, hsubject, rfl⟩
                        obtain ⟨row, -, hrow⟩ := List.mem_filterMap.1 hoffer
                        exact lateOfferOf_resolves hrow
                      · simp at h

theorem resolveCandidateSubject_hasKey {s : Store} {candidate : CandidateAssociationRow} {threadId : Nat} {key : Key}
    (h : s.resolveCandidateSubject candidate = some (threadId, key)) : s.HasKey threadId key := by
  unfold Store.resolveCandidateSubject at h
  split at h
  · simp at h
  · split at h
    · simp at h
    · obtain ⟨row, hrow, he⟩ := Option.map_eq_some_iff.1 h
      obtain ⟨rfl, rfl⟩ := Prod.mk.inj he
      exact hasKey_of_findKeyByThreadId hrow

theorem assignSubjectKey_hasKey {threadId : Nat} {identity : SourceIdentityKey} [KeyHash] (s : Store) :
    Tx.wp (assignSubjectKey threadId identity) (fun key s' => s'.HasKey threadId key) (fun _ => True) s := by
  simp only [assignSubjectKey, Tx.wp_bind, Tx.wp_get]
  split
  · next row hrow =>
    simp only [Tx.wp_pure, upsertResolved, Tx.wp_bind, Tx.wp_writes]
    exact (hasKey_of_findKeyByThreadId hrow).congr (by split <;> rfl)
  · simp only [assignKey, Tx.wp_bind, Tx.wp_get, Tx.wp_ensure, Tx.wp_writes, Tx.wp_pure, upsertResolved]
    refine ⟨fun _ => ⟨fun _ => ?_, fun _ => trivial⟩, fun _ => trivial⟩
    exact Store.HasKey.congr ⟨_, List.mem_append_right _ (List.mem_singleton.2 rfl), rfl, rfl⟩ (by split <;> rfl)

variable [KeyHash]

theorem KeyAssigned.hasKey {threadId : Nat} {identity : SourceIdentityKey} {key : Key} {s s' : Store}
    (h : KeyAssigned threadId identity key s s') : s'.HasKey threadId key := (assignSubjectKey_hasKey s).ok h

/-! ## The rule -/

/-- The changes a property has to survive. -/
structure Stable (I : Store → Prop) : Prop where
  evidence : ∀ {s s'}, Sound s → I s → EvidenceOnly s s' → I s'
  mapping : ∀ {s s'}, Sound s → I s → MappingOnly s s' → I s'
  ended : ∀ {s} {state : RelationState}, Sound s → I s → ∀ id, state ≠ .active → I (s.endRelation id state)
  ensured : ∀ {s s'} {e : Edge}, Sound s → I s → e.Known s → s.activeParent e.subjectKey = some e.parentKey →
    Ensured e s s' → I s'
  adopted : ∀ {s s'} {e : Edge} {row : RelationRow}, Sound s → I s → e.Known s → e.Row s.nextId row →
    s.findActiveByChild e.subjectKey = none → ¬ Climbs s.activeParent e.parentKey e.subjectKey →
    Ensured e (s.relate row) s' → I s'
  housed : ∀ {s s' threadId key subject owner}, Sound s → I s → s.HasKey threadId key →
    Housed threadId key subject owner s s' → I s'

section Rule

variable {I : Store → Prop} {s s' : Store}

theorem Stable.retracted (hI : Stable I) (hs : Sound s) (hi : I s) (key : Key) : I (s.retracted key) := by
  unfold Store.retracted
  split
  · exact hi
  · exact hI.ended hs hi _ (by decide)

theorem Stable.superseded (hI : Stable I) (hs : Sound s) (hi : I s) (key : Key) : I (s.superseded key) := by
  unfold Store.superseded
  split
  · exact hi
  · exact hI.ended hs hi _ (by decide)

theorem Adopts.stable (hI : Stable I) {threadId : Nat} {key : Key} {subject : ObservedEndpoint}
    {offers : List OfferedCandidate} {owner : Int} (h : Adopts threadId key subject offers owner s s') (hs : Sound s)
    (hkey : s.HasKey threadId key) (hoffers : ∀ offer ∈ offers, (s.resolvedThreadId offer.parent).isSome = true)
    (hi : I s) : I s' := by
  cases h with
  | unselected => exact hi
  | tied _ _ _ hev => exact hI.evidence (hs.retracted key) (hI.retracted hs hi key) hev
  | refused _ _ _ _ hev => exact hI.evidence hs hi hev
  | applied winner offer out s₁ _ _ hno hoffer happ hev =>
    have hknown : (s.selectedEdge threadId key subject offer.parent winner owner).Known s :=
      ⟨hkey, hoffers offer (List.mem_of_find?_eq_some hoffer)⟩
    cases happ with
    | same existing _ hex hsame hens =>
      exact hI.evidence (hens.reassigning hs).1
        (hI.ensured hs hi hknown (activeParent_eq_some.2 ⟨existing, hex, hsame.1⟩) hens) hev
    | conflicting existing _ _ _ hev' =>
      have hs' : Sound (s.endRelation existing.id .retracted) := hs.endRelation existing.id (by decide)
      exact hI.evidence (hs'.evidence hev') (hI.evidence hs' (hI.ended hs hi existing.id (by decide)) hev') hev
    | adopted _ _ selection s₂ _ hn _ hens hev' =>
      have hs₂ := (hens.reassigning (hs.relate rfl hn hno)).1
      have hi₂ : I s₂ := hI.adopted hs hi hknown ⟨rfl, rfl, rfl, rfl, rfl⟩ hn hno hens
      exact hI.evidence (hs₂.evidence hev') (hI.evidence hs₂ hi₂ hev') hev

/-- Nothing the reconciler does takes a key from a thread. -/
theorem hasKey_stable (threadId : Nat) (key : Key) : Stable fun s => s.HasKey threadId key where
  evidence _ h he := h.congr he.canonicalKeys
  mapping _ h hm := by
    obtain ⟨row, hrow, hr⟩ := h
    exact ⟨row, hm.keys hrow, hr⟩
  ended _ h _ _ := h
  ensured hs h _ _ hens := h.congr ((hens.reassigning hs).2.1.read Store.canonicalKeys fun _ => rfl)
  adopted hs h _ hrow hn hno hens := by
    have hs' := hs.relate hrow.active (hrow.child ▸ hn) (hrow.child ▸ hrow.parent ▸ hno)
    exact h.congr ((hens.reassigning hs').2.1.read Store.canonicalKeys fun _ => rfl)
  housed _ h _ hh := h.congr (hh.regroups.read Store.canonicalKeys fun _ => rfl)

theorem Reconciles.stable (hI : Stable I) {threadId : Nat} {subject : ObservedEndpoint}
    {observations : List ObservationInput} {owner : Int} (h : Reconciles threadId subject observations owner s s')
    (hs : Sound s) (hi : I s) : I s' := by
  cases h with
  | evidence _ _ hev => exact hI.evidence hs hi hev
  | subject identity key ids s₁ s₂ s₃ _ _ hassigned hev _ hadopts hhoused =>
    have hs₁ := hassigned.mapping.tables hs
    have hs₂ := hs₁.evidence hev
    have hkey : s₂.HasKey threadId key := hassigned.hasKey.congr hev.canonicalKeys
    have hoffers : ∀ offer ∈ s₁.offersFrom (observations.zip ids), (s₂.resolvedThreadId offer.parent).isSome = true := by
      intro offer hoffer
      rw [hev.read (fun s => s.resolvedThreadId offer.parent) fun _ => rfl]
      exact (offersFrom_resolves hoffer).isSome
    have hi₃ := hadopts.stable hI hs₂ hkey hoffers (hI.evidence hs₁ (hI.mapping hs hi hassigned.mapping) hev)
    have hkey₃ : s₃.HasKey threadId key := hadopts.stable (hasKey_stable threadId key) hs₂ hkey hoffers hkey
    exact hI.housed (hadopts.sound hs₂) hi₃ hkey₃ hhoused

theorem Discovers.stable (hI : Stable I) {observationId : Nat} (h : Discovers observationId s s') (hs : Sound s)
    (hi : I s) : I s' := by
  cases h with
  | nothing => exact hi
  | adopts _ _ _ late _ _ _ _ hlate hadopts =>
    have hknown := (lateSubject_known hlate).1
    exact hadopts.stable hI hs hknown.key (fun offer hoffer => (hknown.offers offer hoffer).isSome) hi

theorem Decides.stable (hI : Stable I) {candidateAssociationId : Nat} {decision : OperatorDecision} {reason : String}
    (h : Decides candidateAssociationId decision reason s s') (hs : Sound s) (hi : I s) : I s' := by
  cases h with
  | evidence _ hev => exact hI.evidence hs hi hev
  | retracts _ existing s₁ _ h₁ _ _ h₂ =>
    exact hI.evidence ((hs.evidence h₁).endRelation existing.id (by decide))
      (hI.ended (hs.evidence h₁) (hI.evidence hs hi h₁) existing.id (by decide)) h₂
  | confirms candidate threadId key decisionId s₁ s₂ _ _ _ _ hsubject h₁ hc h₂ =>
    have hs₁ := hs.evidence h₁
    have hi₁ := hI.evidence hs hi h₁
    refine hI.evidence (hc.sound hs₁) ?_ h₂
    cases hc with
    | already => exact hi₁
    | adopted e parentThreadId _ _ hsub hparent _ _ _ hno hens =>
      have hkey : s₁.HasKey threadId key := (resolveCandidateSubject_hasKey hsubject).congr h₁.canonicalKeys
      have hknown : e.Known (s₁.superseded e.subjectKey) := by
        refine ⟨Store.HasKey.congr (hsub.1 ▸ hsub.2 ▸ hkey) ?_, by simp [hparent.1]⟩
        unfold Store.superseded
        split <;> rfl
      exact hI.adopted (hs₁.superseded e.subjectKey) (hI.superseded hs₁ hi₁ e.subjectKey) hknown
        ⟨(s₁.superseded_nextId e.subjectKey).symm, rfl, rfl, rfl, rfl⟩
        (hs₁.forest.findActiveByChild_superseded e.subjectKey) (hs₁.forest.not_climbs_superseded hno) hens

/-- **The rule for current rows.** What reads the current rows alone, and every placement keeps, is stable. -/
theorem Stable.of_current (congr : ∀ {s s'}, (∀ k, s'.findCurrent k = s.findCurrent k) → I s → I s')
    (placed : ∀ {s s' threadId key endpoint target anchor}, Memberships s → I s →
      Placed threadId key endpoint target anchor s s' → I s') : Stable I := by
  have hmembers : ∀ {s s' : Store}, s'.members = s.members → I s → I s' := fun he hi =>
    congr (fun k => by rw [Store.findCurrent, he, Store.findCurrent]) hi
  have hensured : ∀ {s s' : Store} {e : Edge}, Sound s → I s → Ensured e s s' → I s' := by
    intro s s' e hs hi hens
    have hI : ∀ target, Reassigns target fun _ _ _ s => I s := fun target =>
      { pop := fun hi => hi
        seen := fun hi _ => hi
        fixed := fun hi _ _ _ => hi
        placed := fun hi _ _ hm _ hp => placed hm hi hp }
    have hanchored : ∀ {target anchor s₁}, Anchored e.parentThreadId e.parentKey e.parent e.owner s target anchor s₁ →
        I s₁ := fun ha => by
      cases ha with
      | member => exact hi
      | root _ _ _ _ _ _ _ _ _ hopen hp =>
        exact placed (hopen.memberships hs.memberships) (congr hopen.findCurrent hi) hp
    rcases hens.rule hI hs.memberships hs.forest fun _ _ _ _ _ ha h₁ hp =>
      placed h₁.memberships (hanchored ha) hp with ⟨rfl, -⟩ | ⟨_, ⟨_, hi'⟩, -⟩
    · exact hi
    · exact hi'
  exact
    { evidence := fun _ hi he => hmembers he.members hi
      mapping := fun _ hi hm => hmembers hm.members hi
      ended := fun {s state} _ hi id _ => by
        have hsame : ∀ k, (s.endRelation id state).findCurrent k = s.findCurrent k := fun _ => rfl
        exact congr hsame hi
      ensured := fun hs hi _ _ hens => hensured hs hi hens
      adopted := fun {s _ _ row} hs hi _ hrow hn hno hens => by
        have hsame : ∀ k, (s.relate row).findCurrent k = s.findCurrent k := fun _ => rfl
        exact hensured (hs.relate hrow.active (hrow.child ▸ hn) (hrow.child ▸ hrow.parent ▸ hno)) (congr hsame hi) hens
      housed := fun hs hi _ hh => by
        cases hh with
        | already => exact hi
        | alone g identity s₁ hn hopen =>
          exact placed (hopen.memberships hs.memberships) (congr hopen.findCurrent hi)
            (.enters _ identity ((hopen.findCurrent _).trans hn) rfl) }

end Rule

end MemoryStore.ThreadGroup
