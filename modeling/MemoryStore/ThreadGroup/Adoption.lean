/-
The relation half of the reconciler: what each of its writers can do to the
relations, said once (`Applied`, `Adopts`, `Confirms`), with what surrounds the
write reduced to its frame. `Ensured` stands for the run of `ensure_membership`
that follows an adoption.
-/
import MemoryStore.ThreadGroup.Anchor

namespace MemoryStore.ThreadGroup

open Tx Table Forest

/-! ## Relation writes -/

/-- The store after `set_state_tx` of an active relation. -/
def Store.endRelation (s : Store) (id : Nat) (state : RelationState) : Store :=
  { s with
      relations := modifyWhere (fun r => r.id = id && r.isActive) (fun r => { r with state }) s.relations }

/-- The store after the insert of a relation under the next id. -/
def Store.relate (s : Store) (row : RelationRow) : Store :=
  { s with relations := s.relations ++ [row], nextId := s.nextId + 1 }

/-- The store after `retract_active_relation`. -/
def Store.retracted (s : Store) (key : Key) : Store :=
  match s.findActiveByChild key with
  | none => s
  | some existing => s.endRelation existing.id .retracted

section Writes

variable {s : Store}

theorem isActive_ended {r : RelationRow} {state : RelationState} (h : state ≠ .active) :
    ({ r with state } : RelationRow).isActive = false := by simpa [RelationRow.isActive] using h

theorem RelationForest.findActiveByChild_endRelation (h : RelationForest s) (id : Nat) {state : RelationState}
    (hstate : state ≠ .active) (key : Key) :
    (s.endRelation id state).findActiveByChild key = (s.findActiveByChild key).filter (·.id ≠ id) := by
  unfold Store.findActiveByChild Store.endRelation
  rw [h.child.find?_modifyWhere fun r _ _ hr => by simp [isActive_ended hstate] at hr]
  cases hr : s.relations.find? (fun r => r.childThreadCanonicalKey = key && r.isActive) with
  | none => rfl
  | some r =>
    have hact : r.state = .active := by simpa [RelationRow.isActive] using (find?_mem hr).2.1
    by_cases hid : r.id = id
    · simp [hid, hact, hstate, RelationRow.isActive, Option.filter]
    · simp [hid, Option.filter]

theorem RelationForest.endRelation (h : RelationForest s) (id : Nat) {state : RelationState}
    (hstate : state ≠ .active) : RelationForest (s.endRelation id state) where
  child := h.child.modifyWhere fun r _ _ hr => by simp [isActive_ended hstate] at hr
  acyclic := h.acyclic.mono fun a b hab => by
    obtain ⟨r, hr, hp⟩ := activeParent_eq_some.1 hab
    rw [h.findActiveByChild_endRelation id hstate, Option.filter_eq_some_iff] at hr
    exact activeParent_eq_some.2 ⟨r, hr.1, hp⟩

theorem findActiveByChild_relate {row : RelationRow} (ha : row.isActive = true)
    (hn : s.findActiveByChild row.childThreadCanonicalKey = none) (key : Key) :
    (s.relate row).findActiveByChild key =
      if key = row.childThreadCanonicalKey then some row else s.findActiveByChild key :=
  find?_append_new ha hn key

theorem activeParent_relate {row : RelationRow} (ha : row.isActive = true)
    (hn : s.findActiveByChild row.childThreadCanonicalKey = none) :
    (s.relate row).activeParent =
      Function.update s.activeParent row.childThreadCanonicalKey (some row.parentThreadCanonicalKey) := by
  funext key
  unfold Store.activeParent
  rw [findActiveByChild_relate ha hn]
  by_cases hk : key = row.childThreadCanonicalKey
  · subst hk; simp
  · simp [hk]

/-- An insert that neither the CHECK nor the index rejects. -/
theorem wp_insertRelation {row : Nat → RelationRow} {Q : Nat → Store → Prop} {E : TxError → Prop}
    (hne : (row s.nextId).parentThreadCanonicalKey ≠ (row s.nextId).childThreadCanonicalKey)
    (hn : s.findActiveByChild (row s.nextId).childThreadCanonicalKey = none) :
    wp (insertRelation row) Q E s ↔ Q s.nextId (s.relate (row s.nextId)) := by
  have hn' : Store.findActiveByChild { s with nextId := s.nextId + 1 } (row s.nextId).childThreadCanonicalKey = none := hn
  simp [insertRelation, generateId, hn', hne, Store.relate]

/-- **Adoption keeps the forest** when the child has no parent and is not above the new one. -/
theorem RelationForest.relate (h : RelationForest s) {row : RelationRow} (ha : row.isActive = true)
    (hn : s.findActiveByChild row.childThreadCanonicalKey = none)
    (hno : ¬ Climbs s.activeParent row.parentThreadCanonicalKey row.childThreadCanonicalKey) :
    RelationForest (s.relate row) where
  child := h.child.append fun _ r hr hact => find?_eq_none.1 hn r hr hact
  acyclic := activeParent_relate ha hn ▸ h.acyclic.insert hno

theorem RelationForest.retracted (h : RelationForest s) (key : Key) : RelationForest (s.retracted key) := by
  unfold Store.retracted
  split
  · exact h
  · exact h.endRelation _ (by decide)

/-- The ancestor walk answers whether the target is on the way up. -/
theorem RelationForest.ancestorContains_iff (h : RelationForest s) {start target : Key} :
    s.ancestorContains start target = true ↔ Climbs s.activeParent start target := by
  unfold Store.ancestorContains Store.ancestorWalk
  rcases h.acyclic.walk_ends (child_mem_of_activeParent s) (fun key => key = target)
    (show _ < s.walkSteps by simp [Store.walkSteps]) start with ⟨t, ht⟩ | ⟨r, hr⟩
  · obtain ⟨hc, hstop⟩ := walk_stopped ht
    obtain rfl : t = target := by simpa using hstop
    simp [ht, hc]
  · have hnot := (walk_root hr).2 target
    simp only [hr, Bool.false_eq_true, false_iff]
    intro hc
    simpa using hnot hc

theorem RelationForest.congr {s' : Store} (h : RelationForest s) (hr : s'.relations = s.relations) :
    RelationForest s' where
  child := hr ▸ h.child
  acyclic := by
    have : s'.activeParent = s.activeParent := by
      funext key
      simp [Store.activeParent, Store.findActiveByChild, hr]
    exact this ▸ h.acyclic

end Writes

theorem Memberships.congr {s s' : Store} (h : Memberships s) (hm : s'.members = s.members) (hg : s'.groups = s.groups)
    (hn : s.nextId ≤ s'.nextId) : Memberships s' where
  current := hm ▸ h.current
  groupId := hg ▸ h.groupId
  fresh g hg' := lt_of_lt_of_le (h.fresh g (hg ▸ hg')) hn
  activeKey := hg ▸ h.activeKey
  inActive m hm' hc := by
    obtain ⟨g, hg', hid, ha⟩ := h.inActive m (hm ▸ hm') hc
    exact ⟨g, hg ▸ hg', hid, ha⟩

/-! ## The two together -/

/-- What the group and relation tables keep. -/
structure Sound (s : Store) : Prop where
  memberships : Memberships s
  forest : RelationForest s

section Sound

variable {s s' : Store}

theorem Sound.evidence (h : Sound s) (he : EvidenceOnly s s') : Sound s' :=
  ⟨h.memberships.congr he.members he.groups he.nextId, h.forest.congr he.relations⟩

theorem Sound.endRelation (h : Sound s) (id : Nat) {state : RelationState} (hstate : state ≠ .active) :
    Sound (s.endRelation id state) :=
  ⟨h.memberships.congr rfl rfl le_rfl, h.forest.endRelation id hstate⟩

theorem Sound.retracted (h : Sound s) (key : Key) : Sound (s.retracted key) := by
  refine ⟨?_, h.forest.retracted key⟩
  unfold Store.retracted
  split
  · exact h.memberships
  · exact h.memberships.congr rfl rfl le_rfl

theorem Sound.relate (h : Sound s) {row : RelationRow} (ha : row.isActive = true)
    (hn : s.findActiveByChild row.childThreadCanonicalKey = none)
    (hno : ¬ Climbs s.activeParent row.parentThreadCanonicalKey row.childThreadCanonicalKey) : Sound (s.relate row) :=
  ⟨h.memberships.congr rfl rfl (Nat.le_succ _), h.forest.relate ha hn hno⟩

end Sound

/-! ## Placing the subject of an adoption -/

/-- Who is placed under whom. -/
structure Edge where
  subjectThreadId : Nat
  subjectKey : Key
  subject : ObservedEndpoint
  parentThreadId : Option Nat
  parentKey : Key
  parent : ObservedEndpoint
  owner : Option Int

theorem Unplaceable.benign {endpoint : ObservedEndpoint} {e : TxError} (h : Unplaceable endpoint e) : Benign e := by
  rw [h.2]; exact benign_check _

theorem Store.Unensured.benign {s : Store} {subject parent : ObservedEndpoint} {owner : Option Int} {e : TxError}
    (h : s.Unensured subject parent owner e) : Benign e := by
  rcases h with (⟨-, rfl⟩ | h | ⟨_, _, _, h⟩) | h | ⟨_, _, _, h⟩
  · exact benign_bail _
  all_goals exact h.benign

theorem endpointTriple_benign {s : Store} {table : String} {endpoint : ObservedEndpoint} :
    wp (endpointTriple table endpoint) (fun _ s' => s' = s) Benign s := by
  unfold endpointTriple
  cases endpoint.identityScope with
  | known scope => simp
  | unknown => simp

/-- The trivial worklist invariant. -/
theorem Reassigns.trivial (target : Nat) : Reassigns target fun _ _ _ _ => True where
  pop _ := True.intro
  seen _ _ := True.intro
  fixed _ _ _ _ := True.intro
  placed _ _ _ _ _ _ := True.intro

variable [KeyHash]

/-- `ensure_membership` ran from one store to the other. -/
def Ensured (e : Edge) (s s' : Store) : Prop :=
  ensureMembership e.subjectThreadId e.subjectKey e.subject e.parentThreadId e.parentKey e.parent e.owner s =
    .ok ((), s')

theorem ensureMembership_spec {s : Store} (h : Sound s) (e : Edge) :
    wp (ensureMembership e.subjectThreadId e.subjectKey e.subject e.parentThreadId e.parentKey e.parent e.owner)
      (fun _ s' => Ensured e s s') Benign s :=
  (ensureMembership_rule Reassigns.trivial h.memberships h.forest fun _ _ _ _ _ _ _ _ => True.intro).self.mono
    (fun _ _ h => h) fun _ he => he.benign

/-- The rule for the placement of a subject. -/
theorem Ensured.rule {I : Nat → List RelationRow → List Key → List Key → Store → Prop} {s s' : Store} {e : Edge}
    (he : Ensured e s s') (hI : ∀ target, Reassigns target (I target)) (h : Memberships s) (hf : RelationForest s)
    (hinit : (∀ m, s.findCurrent e.subjectKey = some m → m.provenance = .reconciler) →
      ∀ target anchor s₁ s₂, Anchored e.parentThreadId e.parentKey e.parent e.owner s target anchor s₁ →
        Reassigning s target s₁ → Placed (some e.subjectThreadId) e.subjectKey e.subject target anchor s₁ s₂ →
        I target [] [e.subjectKey] [e.subjectKey] s₂) :
    (s' = s ∧ ∃ m, s.findCurrent e.subjectKey = some m ∧ m.provenance = .operator) ∨
      ∃ target, (∃ enqueued, I target [] [] enqueued s') ∧ Reassigning s target s' :=
  (ensureMembership_rule hI h hf hinit).ok he

/-- What every placement of a subject keeps. -/
theorem Ensured.reassigning {s s' : Store} {e : Edge} (he : Ensured e s s') (h : Sound s) :
    Sound s' ∧ RegroupOnly s s' ∧ (RedirectsResolve s → RedirectsResolve s') := by
  rcases he.rule Reassigns.trivial h.memberships h.forest fun _ _ _ _ _ _ _ _ => True.intro with ⟨rfl, -⟩ | ⟨target, -, hs⟩
  · exact ⟨h, refl_of _ _, id⟩
  · exact ⟨⟨hs.memberships, h.forest.congr hs.keeps.relations⟩, hs.keeps, hs.redirects⟩

/-! ## `apply_selected_relation` -/

/-- The relation a selection adopts. -/
def adoptedRow (e : Edge) (parentIdentity childIdentity : SourceTriple) (relationType : RelationType)
    (selection : Selection) (id : Nat) : RelationRow :=
  { id
    parentThreadId := e.parentThreadId
    childThreadId := some e.subjectThreadId
    parentThreadCanonicalKey := e.parentKey
    childThreadCanonicalKey := e.subjectKey
    parentUserId := e.parent.userId
    parentIdentity := some parentIdentity
    childUserId := e.subject.userId
    childIdentity := some childIdentity
    relationType
    state := .active
    selection }

/-- **What applying a selected parent can do.** The relation is the active one
already, and only the membership is brought in line; or another is active, and
it is retracted; or none is, and this one is adopted. -/
inductive Applied (e : Edge) (winner : Candidate) (s : Store) : Option Nat → Store → Prop where
  | same (existing : RelationRow) (s' : Store) (hex : s.findActiveByChild e.subjectKey = some existing)
      (hsame : existing.parentThreadCanonicalKey = winner.parentKey ∧ existing.relationType = winner.relationType)
      (hens : Ensured e s s') : Applied e winner s (some existing.id) s'
  | conflicting (existing : RelationRow) (s' : Store) (hex : s.findActiveByChild e.subjectKey = some existing)
      (hother : ¬ (existing.parentThreadCanonicalKey = winner.parentKey ∧
        existing.relationType = winner.relationType))
      (hev : EvidenceOnly (s.endRelation existing.id .retracted) s') : Applied e winner s none s'
  | adopted (parentIdentity childIdentity : SourceTriple) (selection : Selection) (s₁ s' : Store)
      (hn : s.findActiveByChild e.subjectKey = none) (hsel : selection.byOperator = false)
      (hens : Ensured e (s.relate (adoptedRow e parentIdentity childIdentity winner.relationType selection s.nextId)) s₁)
      (hev : EvidenceOnly s₁ s') : Applied e winner s (some s.nextId) s'

/-- The edge of a selected parent. -/
def Store.selectedEdge (s : Store) (subjectThreadId : Nat) (subjectKey : Key) (subject parent : ObservedEndpoint)
    (winner : Candidate) (owner : Int) : Edge :=
  ⟨subjectThreadId, subjectKey, subject, s.resolvedThreadId parent, winner.parentKey, parent, some owner⟩

theorem applySelectedRelation_spec {s : Store} (h : Sound s) {subjectThreadId : Nat} {subjectKey : Key}
    {subject parent : ObservedEndpoint} {winner : Candidate} {observationId : Nat} {operationId : String} {now : Int}
    {owner : Int} (hno : ¬ Climbs s.activeParent winner.parentKey subjectKey) :
    wp (applySelectedRelation subjectThreadId subjectKey subject parent winner observationId operationId now owner)
      (fun out s' => Applied (s.selectedEdge subjectThreadId subjectKey subject parent winner owner) winner s out s')
      Benign s := by
  simp only [applySelectedRelation, wp_bind, wp_get]
  split
  · next existing hex =>
    split
    · next hsame =>
      simp only [wp_bind, wp_pure]
      refine (ensureMembership_spec h
        (s.selectedEdge subjectThreadId subjectKey subject parent winner owner)).imp fun _ s' hens => ?_
      exact .same existing s' hex (by simpa using hsame) hens
    · next hother =>
      simp only [setRelationState, wp_bind, wp_writes, wp_pure]
      refine (recordDerivedConflict_evidence _).imp fun _ s₁ h₁ => ?_
      refine (recordCandidate_evidence _).imp fun _ s₂ h₂ => ?_
      refine (appendRelationEvent_evidence _).imp fun _ s₃ h₃ => ?_
      exact .conflicting existing s₃ hex (by simpa using hother) (h₁.trans (h₂.trans h₃))
  · next hn =>
    simp only [wp_bind]
    have hsel : wp (sourceSelection winner.evidence observationId)
        (fun selection s' => selection.byOperator = false ∧ s' = s) Benign s := by
      unfold sourceSelection
      split <;> simp [Selection.byOperator]
    refine hsel.imp fun selection s₁ hout => ?_
    obtain ⟨hby, h₁⟩ := hout
    subst h₁
    refine endpointTriple_benign.imp fun parentIdentity s₁ h₁ => ?_
    subst h₁
    refine endpointTriple_benign.imp fun childIdentity s₁ h₁ => ?_
    subst h₁
    have hne : winner.parentKey ≠ subjectKey := fun he => hno (he ▸ .refl)
    set e := s₁.selectedEdge subjectThreadId subjectKey subject parent winner owner with he
    rw [wp_insertRelation hne hn]
    simp only [wp_pure]
    have hs₂ : Sound (s₁.relate (adoptedRow e parentIdentity childIdentity winner.relationType selection s₁.nextId)) :=
      h.relate rfl hn hno
    refine (ensureMembership_spec hs₂ e).imp fun _ s₂ hens => ?_
    refine (appendRelationEvent_evidence _).imp fun _ s₃ hev => ?_
    exact .adopted parentIdentity childIdentity selection s₂ s₃ hn hby hens hev

end MemoryStore.ThreadGroup
