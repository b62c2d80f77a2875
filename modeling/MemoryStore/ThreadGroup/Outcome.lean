/-
What each transaction of the reconciler can do: one inductive for each, with a
constructor for each way through the source, and one theorem that the
transaction does one of these or fails with a benign error. Everything later
proved about reconciling, late discovery and operator decisions starts from
here, and no proof looks at the programs again.
-/
import MemoryStore.ThreadGroup.Adoption

namespace MemoryStore.ThreadGroup

open Tx Table Forest

/-- The store without threads, canonical keys, source identities and deletion markers. -/
def Store.unmapped (s : Store) : Store :=
  { s with threads := [], canonicalKeys := [], sourceIdentities := [], markers := [], nextId := 0 }

/-- One key for each thread, and one thread for each key. -/
structure KeysSound (s : Store) : Prop where
  thread : UniqueWhere (fun _ => true) ThreadCanonicalKeyRow.threadId s.canonicalKeys
  key : UniqueWhere (fun _ => true) ThreadCanonicalKeyRow.key s.canonicalKeys

theorem KeysSound.findKeyByThreadId_eq_some {s : Store} (h : KeysSound s) {threadId : Nat}
    {row : ThreadCanonicalKeyRow} :
    s.findKeyByThreadId threadId = some row ↔ row ∈ s.canonicalKeys ∧ row.threadId = threadId := by
  simpa [Store.findKeyByThreadId] using h.thread.find?_eq_some (k := threadId) (r := row)

theorem findKeyByThreadId_mem {s : Store} {threadId : Nat} {row : ThreadCanonicalKeyRow}
    (h : s.findKeyByThreadId threadId = some row) : row ∈ s.canonicalKeys ∧ row.threadId = threadId :=
  ⟨List.mem_of_find?_eq_some h, by simpa using List.find?_some h⟩

/-- Only threads, their keys and identities, and deletion markers were changed, and no key was taken away. -/
structure MappingOnly (s s' : Store) : Prop where
  keeps : Keeps Store.unmapped s s'
  keys : s.canonicalKeys ⊆ s'.canonicalKeys
  sound : KeysSound s → KeysSound s'

instance : Std.Refl MappingOnly := ⟨fun s => ⟨refl_of _ s, List.Subset.refl _, id⟩⟩

instance : IsTrans Store MappingOnly :=
  ⟨fun _ _ _ h h' => ⟨h.keeps.trans h'.keeps, List.Subset.trans h.keys h'.keys, fun hk => h'.sound (h.sound hk)⟩⟩

theorem MappingOnly.trans {s s' s'' : Store} (h : MappingOnly s s') (h' : MappingOnly s' s'') : MappingOnly s s'' :=
  trans_of MappingOnly h h'

/-- A write that leaves the keys alone as well. -/
theorem MappingOnly.of_keys {s s' : Store} (h : Keeps Store.unmapped s s') (hk : s'.canonicalKeys = s.canonicalKeys) :
    MappingOnly s s' := ⟨h, hk ▸ List.Subset.refl _, fun hs => ⟨hk ▸ hs.thread, hk ▸ hs.key⟩⟩

theorem MappingOnly.relations {s s' : Store} (h : MappingOnly s s') : s'.relations = s.relations :=
  h.keeps.read Store.relations fun _ => rfl

theorem MappingOnly.members {s s' : Store} (h : MappingOnly s s') : s'.members = s.members :=
  h.keeps.read Store.members fun _ => rfl

theorem MappingOnly.groups {s s' : Store} (h : MappingOnly s s') : s'.groups = s.groups :=
  h.keeps.read Store.groups fun _ => rfl

theorem MappingOnly.tables {s s' : Store} (h : MappingOnly s s') (hs : Sound s) : Sound s' :=
  ⟨hs.memberships.congr h.members h.groups h.keeps.nextId, hs.forest.congr h.relations⟩

theorem assignKey_maps {threadId : Nat} {userId : Int} {key : Key} {origin : CanonicalKeyOrigin} :
    Does MappingOnly Benign (assignKey threadId userId key origin) := by
  intro s
  simp only [assignKey, wp_bind, wp_get, wp_ensure, wp_writes]
  refine ⟨fun hthread => ⟨fun hkey => ?_, fun _ => benign_unique (by decide)⟩, fun _ => benign_unique (by decide)⟩
  refine ⟨⟨rfl, le_rfl⟩, List.subset_append_left .., fun hs => ⟨hs.thread.append fun _ r hr _ he => ?_,
    hs.key.append fun _ r hr _ he => ?_⟩⟩
  · have := List.find?_eq_none.1 (Option.isNone_iff_eq_none.1 hthread) r hr
    simp [he] at this
  · have := List.find?_eq_none.1 (Option.isNone_iff_eq_none.1 hkey) r hr
    simp [he] at this

theorem upsertResolved_maps {identity : SourceIdentityKey} {threadId : Nat} :
    Does MappingOnly Benign (upsertResolved identity threadId) := Does.writes fun s => by
  split <;> exact .of_keys ⟨rfl, le_rfl⟩ rfl

theorem offerFor_isSome {offers : List OfferedCandidate} {winner : Candidate}
    (h : winner ∈ offers.map OfferedCandidate.candidate) : ∃ offer, offerFor offers winner = some offer := by
  obtain ⟨offer, hmem, rfl⟩ := List.mem_map.1 h
  refine Option.isSome_iff_exists.1 (List.find?_isSome.2 ⟨offer, hmem, by simp⟩)

theorem wp_retractActiveRelation {key : Key} {s : Store} {Q : Unit → Store → Prop} {E : TxError → Prop} :
    wp (retractActiveRelation key) Q E s ↔ Q () (s.retracted key) := by
  simp only [retractActiveRelation, wp_bind, wp_get, Store.retracted]
  cases s.findActiveByChild key <;> rfl

/-- A self edge or a cycle is what the ancestor check answers. -/
theorem RelationForest.refuses_iff {s : Store} (h : RelationForest s) {parent child : Key} :
    ((decide (parent = child) || s.ancestorContains parent child) = true) ↔ Climbs s.activeParent parent child := by
  rw [Bool.or_eq_true, decide_eq_true_eq, h.ancestorContains_iff]
  exact ⟨fun hh => hh.elim (fun he => he ▸ .refl) id, .inr⟩

/-- What an import guard lets pass, it leaves alone. -/
theorem checkImportGuard_spec (threadId : Nat) (subject : ObservedEndpoint) (observations : List ObservationInput)
    (s : Store) : wp (checkImportGuard threadId subject observations) (fun _ s' => s' = s) Benign s := by
  simp only [checkImportGuard, wp_bind, wp_get]
  split
  · exact benign_bail _
  · simp only [wp_bind, wp_ensure]
    refine ⟨fun _ => ?_, fun _ => benign_bail _⟩
    split <;> simp

/-- The candidates a store sees in a list of inputs. -/
def Store.offersFrom (s : Store) (inputs : List (ObservationInput × Nat)) : List OfferedCandidate :=
  inputs.filterMap fun input => (s.offerOf input.1 input.2).candidate?

theorem EvidenceOnly.offersFrom {s s' : Store} (h : EvidenceOnly s s') (inputs : List (ObservationInput × Nat)) :
    s'.offersFrom inputs = s.offersFrom inputs := h.read (fun s => s.offersFrom inputs) fun _ => rfl

/-- The inputs are offered one after the other, and the store they look at stays the same for them. -/
theorem offerCandidates_offers (threadId : Nat) (subject : ObservedEndpoint) (now : Int) :
    ∀ (inputs : List (ObservationInput × Nat)) (s : Store),
      wp (Tx.collect inputs (offerCandidate threadId subject now))
        (fun offers s' => EvidenceOnly s s' ∧ offers = inputs.map fun input => s.offerOf input.1 input.2) Benign s
  | [], s => ⟨refl_of _ s, rfl⟩
  | input :: inputs, s => by
    simp only [Tx.collect, wp_bind, wp_pure]
    have hone : wp (offerCandidate threadId subject now input)
        (fun offer s' => EvidenceOnly s s' ∧ offer = s.offerOf input.1 input.2) Benign s := by
      simp only [offerCandidate, wp_bind, wp_get]
      split
      · simp only [wp_bind, wp_pure]
        exact (recordCandidate_evidence s).imp fun _ s' h => ⟨h, trivial⟩
      · exact ⟨refl_of _ s, rfl⟩
    refine hone.imp fun offer s₁ ⟨h₁, ho⟩ => ?_
    refine (offerCandidates_offers threadId subject now inputs s₁).imp fun offers s₂ ⟨h₂, hos⟩ => ⟨h₁.trans h₂, ?_⟩
    rw [ho, hos, List.map_cons, h₁.read (fun s => inputs.map fun input => s.offerOf input.1 input.2) fun _ => rfl]

theorem offerCandidates_spec (threadId : Nat) (subject : ObservedEndpoint) (now : Int)
    (inputs : List (ObservationInput × Nat)) (s : Store) :
    wp (Tx.collect inputs (offerCandidate threadId subject now))
      (fun offers s' => EvidenceOnly s s' ∧ offers.filterMap ParentOffer.candidate? = s.offersFrom inputs) Benign s :=
  (offerCandidates_offers threadId subject now inputs s).imp fun offers s' ⟨h, ho⟩ =>
    ⟨h, by rw [ho, List.filterMap_map]; rfl⟩

/-- The store without the active relation of a key, superseded. -/
def Store.superseded (s : Store) (key : Key) : Store :=
  match s.findActiveByChild key with
  | none => s
  | some existing => s.endRelation existing.id .superseded

theorem RelationForest.findActiveByChild_superseded {s : Store} (h : RelationForest s) (key : Key) :
    (s.superseded key).findActiveByChild key = none := by
  unfold Store.superseded
  split
  · next hn => exact hn
  · next existing hex =>
    rw [h.findActiveByChild_endRelation _ (by decide), hex]
    simp [Option.filter]

theorem Sound.superseded {s : Store} (h : Sound s) (key : Key) : Sound (s.superseded key) := by
  unfold Store.superseded
  split
  · exact h
  · exact h.endRelation _ (by decide)

theorem Store.superseded_nextId (s : Store) (key : Key) : (s.superseded key).nextId = s.nextId := by
  unfold Store.superseded
  split <;> rfl

theorem RelationForest.not_climbs_superseded {s : Store} (h : RelationForest s) {key parent child : Key}
    (hno : ¬ Climbs s.activeParent parent child) : ¬ Climbs (s.superseded key).activeParent parent child := by
  refine fun hc => hno (Relation.ReflTransGen.mono (fun a b hab => ?_) _ _ hc)
  unfold Store.superseded at hab
  split at hab
  · exact hab
  · next existing _ =>
    obtain ⟨r, hr, hp⟩ := activeParent_eq_some.1 hab
    rw [h.findActiveByChild_endRelation _ (by decide), Option.filter_eq_some_iff] at hr
    exact activeParent_eq_some.2 ⟨r, hr.1, hp⟩

theorem confirmedParentEndpoint_spec (parentThreadId : Nat) (s : Store) :
    wp (confirmedParentEndpoint parentThreadId) (fun _ s' => s' = s) Benign s := by
  simp only [confirmedParentEndpoint, wp_bind, wp_get]
  split
  · exact rfl
  · split
    · exact benign_bail _
    · exact rfl

/-- The relation a confirmation adopts. -/
def confirmedRow (e : Edge) (decisionId id : Nat) : RelationRow :=
  { id
    parentThreadId := e.parentThreadId
    childThreadId := some e.subjectThreadId
    parentThreadCanonicalKey := e.parentKey
    childThreadCanonicalKey := e.subjectKey
    parentUserId := e.parent.userId
    parentIdentity := e.parent.triple?
    childUserId := e.subject.userId
    childIdentity := e.subject.triple?
    relationType := .delegated
    state := .active
    selection := .operatorConfirmation decisionId }

variable [KeyHash]

/-! ## Adopting a parent -/

/-- **What adopting a parent can do.** Nothing is selected; or several candidates
tie, and an active relation is retracted; or the selected parent is refused, as
it is the subject or descends from it; or it is applied. -/
inductive Adopts (threadId : Nat) (key : Key) (subject : ObservedEndpoint) (offers : List OfferedCandidate)
    (owner : Int) (s : Store) : Store → Prop where
  | unselected (h : selectParentCandidate (offers.map OfferedCandidate.candidate) = .noSelection) :
      Adopts threadId key subject offers owner s s
  | tied (winners : List Candidate) (s' : Store)
      (h : selectParentCandidate (offers.map OfferedCandidate.candidate) = .conflict winners)
      (hev : EvidenceOnly (s.retracted key) s') : Adopts threadId key subject offers owner s s'
  | refused (winner : Candidate) (s' : Store)
      (h : selectParentCandidate (offers.map OfferedCandidate.candidate) = .selected winner)
      (hc : Climbs s.activeParent winner.parentKey key) (hev : EvidenceOnly s s') :
      Adopts threadId key subject offers owner s s'
  | applied (winner : Candidate) (offer : OfferedCandidate) (out : Option Nat) (s₁ s' : Store)
      (h : selectParentCandidate (offers.map OfferedCandidate.candidate) = .selected winner)
      (hno : ¬ Climbs s.activeParent winner.parentKey key) (hoffer : offerFor offers winner = some offer)
      (happ : Applied (s.selectedEdge threadId key subject offer.parent winner owner) winner s out s₁)
      (hev : EvidenceOnly s₁ s') : Adopts threadId key subject offers owner s s'

theorem adoptParent_spec {s : Store} (h : Sound s) {threadId : Nat} {key : Key} {subject : ObservedEndpoint}
    {offers : List OfferedCandidate} {operationId : String} {now owner : Int} :
    wp (adoptParent threadId key subject offers operationId now owner)
      (fun out s' => Adopts threadId key subject offers owner s s' ∧
        (out.2.2 = none ∨ out.2.2 = (s'.findCurrent key).map MemberRow.groupId)) Benign s := by
  unfold adoptParent
  split
  · next hsel => exact ⟨.unselected hsel, .inl rfl⟩
  · next winners hsel =>
    simp only [wp_bind, wp_retractActiveRelation, wp_pure]
    refine (recordWinners_evidence _).imp fun _ s₁ h₁ => ?_
    refine (appendRelationEvent_evidence _).imp fun _ s₂ h₂ => ?_
    exact ⟨.tied winners s₂ hsel (h₁.trans h₂), .inl trivial⟩
  · next winner hsel =>
    simp only [wp_bind, wp_get]
    split
    · next hrefused =>
      simp only [wp_bind, wp_pure]
      refine (recordCandidate_evidence _).imp fun _ s₁ h₁ => ?_
      exact ⟨.refused winner s₁ hsel (h.forest.refuses_iff.1 hrefused) h₁, .inl trivial⟩
    · next hrefused =>
      have hno : ¬ Climbs s.activeParent winner.parentKey key := fun hc => hrefused (h.forest.refuses_iff.2 hc)
      obtain ⟨offer, hoffer⟩ := offerFor_isSome (mem_of_selected hsel)
      simp only [hoffer, wp_bind]
      refine (applySelectedRelation_spec h hno).imp fun out s₁ happ => ?_
      split
      · simp only [wp_bind, wp_get, wp_pure]
        refine (resolvePending_evidence _).imp fun _ s₂ h₂ => ?_
        exact ⟨.applied winner offer out s₁ s₂ hsel hno hoffer happ h₂, .inr trivial⟩
      · exact ⟨.applied winner offer out s₁ s₁ hsel hno hoffer happ (refl_of _ _), .inr rfl⟩

theorem adoptLateParent_spec {s : Store} (h : Sound s) {late : LateSubject} {subject : ObservedEndpoint}
    {operationId : String} {now : Int} :
    wp (adoptLateParent late subject operationId now)
      (fun _ s' => Adopts late.threadId late.key subject late.offers subject.userId s s') Benign s := by
  unfold adoptLateParent
  split
  · next hsel => exact .unselected hsel
  · next winners hsel =>
    simp only [wp_bind, wp_retractActiveRelation]
    refine (recordWinners_evidence _).imp fun _ s₁ h₁ => ?_
    refine (settlePending_evidence _).imp fun _ s₂ h₂ => ?_
    refine (appendRelationEvent_evidence _).imp fun _ s₃ h₃ => ?_
    exact .tied winners s₃ hsel (h₁.trans (h₂.trans h₃))
  · next winner hsel =>
    obtain ⟨offer, hoffer⟩ := offerFor_isSome (mem_of_selected hsel)
    simp only [hoffer, wp_bind, wp_get]
    split
    · next hrefused =>
      simp only [wp_bind]
      refine (recordCandidate_evidence _).imp fun _ s₁ h₁ => ?_
      refine (settlePending_evidence _).imp fun _ s₂ h₂ => ?_
      exact .refused winner s₂ hsel (h.forest.refuses_iff.1 hrefused) (h₁.trans h₂)
    · next hrefused =>
      have hno : ¬ Climbs s.activeParent winner.parentKey late.key :=
        fun hc => hrefused (h.forest.refuses_iff.2 hc)
      simp only [wp_bind]
      refine (applySelectedRelation_spec h hno).imp fun out s₁ happ => ?_
      split
      · refine ((Does.forEach (R := EvidenceOnly) fun _ _ => Does.get.bind fun _ => recordCandidate_evidence) _).imp
          fun _ s₂ h₂ => ?_
        exact .applied winner offer out s₁ s₂ hsel hno hoffer happ h₂
      · simp only [wp_bind]
        refine (settlePending_evidence _).imp fun _ s₂ h₂ => ?_
        refine (recordCandidate_evidence _).imp fun _ s₃ h₃ => ?_
        exact .applied winner offer out s₁ s₃ hsel hno hoffer happ (h₂.trans h₃)

theorem Adopts.sound {s s' : Store} {threadId : Nat} {key : Key} {subject : ObservedEndpoint}
    {offers : List OfferedCandidate} {owner : Int} (h : Adopts threadId key subject offers owner s s') (hs : Sound s) :
    Sound s' := by
  cases h with
  | unselected => exact hs
  | tied _ _ _ hev => exact (hs.retracted key).evidence hev
  | refused _ _ _ _ hev => exact hs.evidence hev
  | applied winner offer out s₁ _ _ hno _ happ hev =>
    refine Sound.evidence ?_ hev
    cases happ with
    | same _ _ _ _ hens => exact (hens.reassigning hs).1
    | conflicting _ _ _ _ hev' => exact (hs.endRelation _ (by decide)).evidence hev'
    | adopted _ _ _ _ _ hn _ hens hev' => exact ((hens.reassigning (hs.relate rfl hn hno)).1).evidence hev'

/-! ## The subject's transaction -/

/-- A subject with no current row gets a group of its own. -/
inductive Housed (threadId : Nat) (key : Key) (subject : ObservedEndpoint) (owner : Int) (s : Store) : Store → Prop where
  | already (m : MemberRow) (hm : s.findCurrent key = some m) : Housed threadId key subject owner s s
  | alone (g : Nat) (identity : SourceTriple) (s₁ : Store) (hn : s.findCurrent key = none)
      (hopen : Opened s key (some owner) g s₁) :
      Housed threadId key subject owner s (s₁.join (automaticRow key subject identity g key (.active threadId)))

theorem ensureSingleton_spec {s : Store} (threadId : Nat) (key : Key) (subject : ObservedEndpoint) (owner : Int) :
    wp (ensureSingleton threadId key subject owner) (fun _ s' => Housed threadId key subject owner s s') Benign s := by
  simp only [ensureSingleton, wp_bind, wp_get]
  cases hm : s.findCurrent key with
  | some m => exact .already m hm
  | none =>
    simp only [Option.isSome_none, Bool.false_eq_true, if_false, wp_bind]
    refine (findOrCreateReconcilerGroup_spec s key (some owner)).mono (fun g s₁ hopen => ?_) fun e he => by
      simp [Ownerless] at he
    refine endpointTriple_benign.imp fun identity s₂ h₂ => ?_
    subst h₂
    have hm₂ : s₂.findCurrent key = none := (hopen.findCurrent key).trans hm
    simp only [insertMember, wp_bind, wp_get, wp_ensure, wp_writes, wp_pure, hm₂]
    refine ⟨fun _ => ?_, by simp⟩
    have h : Housed threadId key subject owner s _ := .alone g identity s₂ hm hopen
    simpa [automaticRow, Store.join] using h

theorem Housed.regroups {s s' : Store} {threadId : Nat} {key : Key} {subject : ObservedEndpoint} {owner : Int}
    (h : Housed threadId key subject owner s s') : RegroupOnly s s' := by
  cases h with
  | already => exact refl_of _ s
  | alone g identity s₁ _ hopen => exact hopen.keeps.trans (join_keeps ..)

theorem Housed.sound {s s' : Store} {threadId : Nat} {key : Key} {subject : ObservedEndpoint} {owner : Int}
    (h : Housed threadId key subject owner s s') (hs : Sound s) : Sound s' := by
  refine ⟨?_, hs.forest.congr h.regroups.relations⟩
  cases h with
  | already => exact hs.memberships
  | alone g identity s₁ hn hopen =>
    exact (hopen.memberships hs.memberships).join ((hopen.findCurrent key).trans hn) hopen.hasActive

/-- The subject's key is assigned. -/
def KeyAssigned (threadId : Nat) (identity : SourceIdentityKey) (key : Key) (s s' : Store) : Prop :=
  assignSubjectKey threadId identity s = .ok (key, s')

theorem assignSubjectKey_does {threadId : Nat} {identity : SourceIdentityKey} :
    Does MappingOnly Benign (assignSubjectKey threadId identity) := by
  refine Does.get.bind fun s => ?_
  split
  · exact (Does.pure _).bind fun _ => upsertResolved_maps.bind fun _ => Does.pure _
  · exact assignKey_maps.bind fun _ => (Does.pure _).bind fun _ => upsertResolved_maps.bind fun _ => Does.pure _

theorem KeyAssigned.mapping {threadId : Nat} {identity : SourceIdentityKey} {key : Key} {s s' : Store}
    (h : KeyAssigned threadId identity key s s') : MappingOnly s s' := (assignSubjectKey_does s).ok h

/-- **What the subject's transaction can do.** Evidence of a subject with an
unknown scope is only kept. Otherwise the subject's key is assigned, evidence
kept, a parent adopted, and a subject left without a group gets its own. -/
inductive Reconciles (threadId : Nat) (subject : ObservedEndpoint) (observations : List ObservationInput)
    (owner : Int) (s : Store) : Store → Prop where
  | evidence (s' : Store) (hk : subject.key? = none) (hev : EvidenceOnly s s') :
      Reconciles threadId subject observations owner s s'
  | subject (identity : SourceIdentityKey) (key : Key) (ids : List Nat) (s₁ s₂ s₃ s' : Store)
      (hk : subject.key? = some identity) (hassigned : KeyAssigned threadId identity key s s₁)
      (hev : EvidenceOnly s₁ s₂) (hids : ids.length = observations.length)
      (hadopts : Adopts threadId key subject (s₁.offersFrom (observations.zip ids)) owner s₂ s₃)
      (hhoused : Housed threadId key subject owner s₃ s') : Reconciles threadId subject observations owner s s'

theorem recordObservations_spec (observations : List ObservationInput) (operationId : String) (s : Store) :
    wp (recordObservations observations operationId)
      (fun ids s' => EvidenceOnly s s' ∧ ids.length = observations.length) Benign s := by
  have hlen : wp (recordObservations observations operationId) (fun ids _ => ids.length = observations.length)
      Benign s := by
    refine (wp_collect_all (I := fun rest ids _ => ids.length + rest.length = observations.length)
      (fun input rest ids s₁ hI => ?_) (by simp)).imp fun ids s' h => by simpa using h
    refine (recordObservationAndEvent_evidence s₁).imp fun id s₂ _ => ?_
    simp only [List.length_cons, List.length_append, List.length_nil] at hI ⊢
    omega
  exact ((recordObservations_evidence s).and hlen).mono (fun _ _ h => h) fun _ h => h.1

theorem reconcileSubjectTx_spec {s : Store} (h : Sound s) {threadId : Nat} {subject : ObservedEndpoint}
    {observations : List ObservationInput} {owner : Int} {operationId : String} {now : Int} {importGuard : Bool} :
    wp (reconcileSubjectTx threadId subject observations owner operationId now importGuard)
      (fun _ s' => Reconciles threadId subject observations owner s s') Benign s := by
  have hbody : wp (reconcileSubjectTx threadId subject observations owner operationId now false)
      (fun _ s' => Reconciles threadId subject observations owner s s') Benign s := by
    simp only [reconcileSubjectTx, Bool.false_eq_true, if_false]
    split
    · next hk =>
      simp only [wp_bind, wp_pure]
      exact (recordObservations_evidence s).imp fun _ s' h => .evidence s' hk h
    · next identity hk =>
      simp only [wp_bind]
      refine (assignSubjectKey_does s).self.imp fun key s₁ hassigned => ?_
      refine (recordObservations_spec observations operationId s₁).imp fun ids s₂ hout => ?_
      obtain ⟨h₂, hids⟩ := hout
      refine (offerCandidates_spec threadId subject now (observations.zip ids) s₂).imp fun offers s₃ hout => ?_
      obtain ⟨h₃, ho⟩ := hout
      rw [h₂.offersFrom] at ho
      have hs₃ : Sound s₃ := ((KeyAssigned.mapping hassigned).tables h).evidence (h₂.trans h₃)
      rw [ho]
      refine (adoptParent_spec hs₃).imp fun out s₄ hout => ?_
      obtain ⟨hadopts, hgroup⟩ := hout
      have hend : ∀ s', Housed threadId key subject owner s₄ s' →
          Reconciles threadId subject observations owner s s' := fun s' hhoused =>
        .subject identity key ids s₁ s₃ s₄ s' hk hassigned (h₂.trans h₃) hids hadopts hhoused
      split
      · simp only [wp_bind, wp_pure]
        exact (ensureSingleton_spec threadId key subject owner).imp fun _ s' hhoused => hend s' hhoused
      · next hsome =>
        -- A parent was applied, so the subject has a row.
        cases hm : s₄.findCurrent key with
        | none => rcases hgroup with hg | hg <;> simp [hg, hm] at hsome
        | some m => exact hend s₄ (.already m hm)
  cases importGuard with
  | false => exact hbody
  | true =>
    have hrun : reconcileSubjectTx threadId subject observations owner operationId now true =
        (checkImportGuard threadId subject observations >>= fun _ =>
          reconcileSubjectTx threadId subject observations owner operationId now false) := rfl
    rw [hrun, wp_bind]
    exact (checkImportGuard_spec ..).imp fun _ s₁ h₁ => h₁ ▸ hbody

theorem Reconciles.sound {s s' : Store} {threadId : Nat} {subject : ObservedEndpoint}
    {observations : List ObservationInput} {owner : Int} (h : Reconciles threadId subject observations owner s s')
    (hs : Sound s) : Sound s' := by
  cases h with
  | evidence _ _ hev => exact hs.evidence hev
  | subject _ _ _ _ _ _ _ _ hassigned hev _ hadopts hhoused =>
    exact hhoused.sound (hadopts.sound ((hassigned.mapping.tables hs).evidence hev))

/-! ## Late discovery -/

/-- **What late discovery of one observation can do**: nothing, or adopt a parent
for the observation's subject once every check has passed. -/
inductive Discovers (observationId : Nat) (s : Store) : Store → Prop where
  | nothing : Discovers observationId s s
  | adopts (trigger : ObservationRow) (subject parent : SourceIdentityKey) (late : LateSubject) (s' : Store)
      (htrigger : s.findObservation observationId = some trigger) (hsubject : trigger.subject.key? = some subject)
      (hparent : trigger.candidateParent.bind SourceIdentity.key? = some parent)
      (hlate : s.lateSubject observationId subject parent = some late)
      (hadopts : Adopts late.threadId late.key subject.endpoint late.offers subject.endpoint.userId s s') :
      Discovers observationId s s'

theorem reconcilePendingObservation_spec {s : Store} (h : Sound s) {observationId : Nat} {operationId : String}
    {now : Int} :
    wp (reconcilePendingObservation observationId operationId now)
      (fun _ s' => Discovers observationId s s') Benign s := by
  simp only [reconcilePendingObservation, wp_bind, wp_get]
  split
  · exact .nothing
  · next trigger htrigger =>
    split
    · next subject parent hsubject hparent =>
      split
      · exact .nothing
      · next late hlate =>
        exact (adoptLateParent_spec h).imp fun _ s' hadopts =>
          .adopts trigger subject parent late s' htrigger hsubject hparent hlate hadopts
    · exact .nothing

theorem Discovers.sound {s s' : Store} {observationId : Nat} (h : Discovers observationId s s') (hs : Sound s) :
    Sound s' := by
  cases h with
  | nothing => exact hs
  | adopts _ _ _ _ _ _ _ _ _ hadopts => exact hadopts.sound hs

/-! ## Operator decisions -/

/-- **What a confirmation can do.** The parent is the active one already, or the
active relation makes way for the confirmed one. -/
inductive Confirms (candidate : CandidateAssociationRow) (subjectThreadId : Nat) (subjectKey : Key) (decisionId : Nat)
    (s : Store) : Store → Prop where
  | already (existing : RelationRow) (hex : s.findActiveByChild subjectKey = some existing) :
      Confirms candidate subjectThreadId subjectKey decisionId s s
  | adopted (e : Edge) (parentThreadId : Nat) (parentKeyRow : ThreadCanonicalKeyRow) (s' : Store)
      (hsubject : e.subjectThreadId = subjectThreadId ∧ e.subjectKey = subjectKey)
      (hparent : e.parentThreadId = some parentThreadId ∧ candidate.candidateParentThreadId = some parentThreadId)
      (hkey : s.findKeyByThreadId parentThreadId = some parentKeyRow) (hparentKey : e.parentKey = parentKeyRow.key)
      (hnew : s.activeParent e.subjectKey ≠ some e.parentKey)
      (hno : ¬ Climbs s.activeParent e.parentKey e.subjectKey)
      (hens : Ensured e ((s.superseded e.subjectKey).relate (confirmedRow e decisionId s.nextId)) s') :
      Confirms candidate subjectThreadId subjectKey decisionId s s'

theorem confirmParent_spec {s : Store} (h : Sound s) (candidate : CandidateAssociationRow) (subjectThreadId : Nat)
    (subjectKey : Key) (decisionId : Nat) (owner : Option Int) :
    wp (confirmParent candidate subjectThreadId subjectKey decisionId owner)
      (fun _ s' => Confirms candidate subjectThreadId subjectKey decisionId s s') Benign s := by
  simp only [confirmParent, wp_bind, wp_get]
  split
  · exact benign_bail _
  · next parentThreadId hcandidate =>
    split
    · exact benign_bail _
    · next parentKeyRow hkey =>
      simp only [wp_bind, wp_ensure]
      refine ⟨fun hens => ?_, fun _ => benign_bail _⟩
      have hno : ¬ Climbs s.activeParent parentKeyRow.key subjectKey := fun hc => by
        simp [h.forest.refuses_iff.2 hc] at hens
      refine (confirmedParentEndpoint_spec parentThreadId s).imp fun parent s₁ h₁ => ?_
      subst h₁
      split
      · next existing hex =>
        exact .already existing (Option.filter_eq_some_iff.1 hex).1
      · next hother =>
        have hne : parentKeyRow.key ≠ subjectKey := fun he => hno (he ▸ .refl)
        have hnew : s₁.activeParent subjectKey ≠ some parentKeyRow.key := fun hup => by
          obtain ⟨r, hr, hp⟩ := activeParent_eq_some.1 hup
          simp [hr, hp, Option.filter] at hother
        set e : Edge := ⟨subjectThreadId, subjectKey, candidate.subject, some parentThreadId, parentKeyRow.key, parent,
          owner⟩ with he
        have hgone : (s₁.superseded subjectKey).findActiveByChild subjectKey = none :=
          h.forest.findActiveByChild_superseded subjectKey
        have hs₂ : Sound ((s₁.superseded subjectKey).relate (confirmedRow e decisionId s₁.nextId)) :=
          (h.superseded subjectKey).relate rfl hgone (h.forest.not_climbs_superseded hno)
        have hrest : wp (do
            let relationId ← insertRelation (confirmedRow e decisionId)
            ensureMembership e.subjectThreadId e.subjectKey e.subject e.parentThreadId e.parentKey e.parent e.owner
            pure relationId : StoreTx Nat)
            (fun _ s' => Confirms candidate subjectThreadId subjectKey decisionId s₁ s') Benign
            (s₁.superseded subjectKey) := by
          rw [wp_bind, wp_insertRelation hne hgone, Store.superseded_nextId, wp_bind]
          refine (ensureMembership_spec hs₂ e).imp fun _ s' hens => ?_
          exact .adopted e parentThreadId parentKeyRow s' ⟨rfl, rfl⟩ ⟨rfl, hcandidate⟩ hkey rfl hnew hno hens
        unfold Store.superseded at hrest
        cases hex : s₁.findActiveByChild subjectKey with
        | none => simp only [hex] at hrest; exact hrest
        | some existing => simp only [hex] at hrest; exact hrest

theorem Confirms.sound {s s' : Store} {candidate : CandidateAssociationRow} {threadId : Nat} {key : Key}
    {decisionId : Nat} (h : Confirms candidate threadId key decisionId s s') (hs : Sound s) : Sound s' := by
  cases h with
  | already => exact hs
  | adopted e _ _ _ _ _ _ _ _ hno hens =>
    exact (hens.reassigning ((hs.superseded e.subjectKey).relate rfl
      (hs.forest.findActiveByChild_superseded e.subjectKey) (hs.forest.not_climbs_superseded hno))).1

/-- The latest decision on a candidate is this one. -/
def Store.decidedAlready (s : Store) (candidateAssociationId : Nat) (decision : OperatorDecision) (reason : String) : Bool :=
  (s.findLatestDecision candidateAssociationId).any fun latest => latest.decision = decision && latest.reason = reason

/-- **What a decision can do**: keep evidence only, retract an operator's own
relation, or confirm a parent. -/
inductive Decides (candidateAssociationId : Nat) (decision : OperatorDecision) (reason : String) (s : Store) :
    Store → Prop where
  | evidence (s' : Store) (hev : EvidenceOnly s s') : Decides candidateAssociationId decision reason s s'
  | retracts (key : Key) (existing : RelationRow) (s₁ s' : Store) (h₁ : EvidenceOnly s s₁)
      (hex : s.findActiveByChild key = some existing) (hby : existing.selection.byOperator = true)
      (h₂ : EvidenceOnly (s₁.endRelation existing.id .retracted) s') : Decides candidateAssociationId decision reason s s'
  | confirms (candidate : CandidateAssociationRow) (threadId : Nat) (key : Key) (decisionId : Nat) (s₁ s₂ s' : Store)
      (hdecision : decision = .confirm) (hfirst : s.decidedAlready candidateAssociationId .confirm reason = false)
      (hcandidate : s.findCandidate candidateAssociationId = some candidate)
      (hsubject : s.resolveCandidateSubject candidate = some (threadId, key)) (h₁ : EvidenceOnly s s₁)
      (hconfirms : Confirms candidate threadId key decisionId s₁ s₂) (h₂ : EvidenceOnly s₂ s') :
      Decides candidateAssociationId decision reason s s'

theorem recordOperatorDecision_spec {s : Store} (h : Sound s) {candidateAssociationId : Nat}
    {decision : OperatorDecision} {reason : String} {now : Int} :
    wp (recordOperatorDecision candidateAssociationId decision reason now)
      (fun _ s' => Decides candidateAssociationId decision reason s s') Benign s := by
  simp only [recordOperatorDecision, wp_bind, wp_ensure, wp_get]
  refine ⟨fun _ => ?_, fun _ => benign_bail _⟩
  split
  · exact benign_bail _
  · next candidate hcandidate =>
    have hcheck : wp (checkDecisionSubject decision candidate (s.resolveCandidateSubject candidate))
        (fun _ s' => s' = s) Benign s := by
      unfold checkDecisionSubject
      cases decision <;> simp only [wp_bind, wp_ensure, wp_pure]
      all_goals
        refine ⟨fun _ => ?_, fun _ => benign_bail _⟩
        split <;> simp
    simp only [wp_bind]
    refine hcheck.imp fun _ s₁ h₁ => ?_
    subst h₁
    split
    · exact .evidence s₁ (refl_of _ _)
    · next hfirst =>
      have hfirst : s₁.decidedAlready candidateAssociationId decision reason = false := by
        unfold Store.decidedAlready
        cases hl : s₁.findLatestDecision candidateAssociationId with
        | none => rfl
        | some latest => simpa [hl, Option.filter] using hfirst
      simp only [wp_bind, wp_pure]
      refine (insertDecision_evidence s₁).imp fun decisionId s₂ h₂ => ?_
      have hs₂ := h.evidence h₂
      have hend : ∀ {s₃ : Store} {state : CandidateState} {selected : Option Nat},
          (∀ s', EvidenceOnly s₃ s' → Decides candidateAssociationId decision reason s₁ s') →
          wp (updateSelection candidateAssociationId candidate.state state selected now)
            (fun _ s' => Decides candidateAssociationId decision reason s₁ s') Benign s₃ := fun hd =>
        (updateSelection_evidence _).imp fun _ s' h' => hd s' h'
      unfold applyDecision
      cases decision with
      | reject => exact hend fun s' h' => .evidence s' (h₂.trans h')
      | retract =>
        simp only [wp_bind, wp_pure, retractDecision, wp_get]
        split
        · exact hend fun s' h' => .evidence s' (h₂.trans h')
        · next threadId key _ =>
          split
          · exact hend fun s' h' => .evidence s' (h₂.trans h')
          · next existing hex =>
            split
            · next hby =>
              have hex₁ : s₁.findActiveByChild key = some existing :=
                (h₂.read (fun s => s.findActiveByChild key) fun _ => rfl).symm.trans hex
              exact hend fun s' h' => .retracts key existing s₂ s' h₂ hex₁ hby h'
            · exact hend fun s' h' => .evidence s' (h₂.trans h')
      | confirm =>
        dsimp only
        split
        · exact benign_bail _
        · next threadId key hsubject =>
          simp only [wp_bind, wp_pure]
          refine (confirmParent_spec hs₂ ..).imp fun relationId s₃ hc => ?_
          exact hend fun s' h' => .confirms candidate threadId key decisionId s₂ s₃ s' rfl hfirst hcandidate hsubject h₂ hc h'

theorem Decides.sound {s s' : Store} {candidateAssociationId : Nat} {decision : OperatorDecision} {reason : String}
    (h : Decides candidateAssociationId decision reason s s') (hs : Sound s) : Sound s' := by
  cases h with
  | evidence _ hev => exact hs.evidence hev
  | retracts _ existing _ _ h₁ _ _ h₂ => exact ((hs.evidence h₁).endRelation existing.id (by decide)).evidence h₂
  | confirms _ _ _ _ _ _ _ _ _ _ _ h₁ hc h₂ => exact (hc.sound (hs.evidence h₁)).evidence h₂

end MemoryStore.ThreadGroup
