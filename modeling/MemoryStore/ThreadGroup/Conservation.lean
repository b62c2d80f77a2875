/-
Conservation of members. A placement that moves a live member whose thread it
does not know takes it out of its group and puts it nowhere. The thread comes
from the relation a reassignment follows, and is gone from a relation only once
its child was deleted; so the steps that lose a member are those that reassign a
key which is live again while the relation to its parent is still detached.
-/
import MemoryStore.ThreadGroup.OperatorRelations
import MemoryStore.ThreadGroup.Cohesion

namespace MemoryStore.ThreadGroup

open Tx Table Forest

theorem superseded_of_none {s : Store} {key : Key} (h : s.findActiveByChild key = none) : s.superseded key = s := by
  simp [Store.superseded, h]

/-- Every member of the one store is a member of the other. -/
def Conserved (s s' : Store) : Prop := ∀ key, (s.findCurrent key).isSome = true → (s'.findCurrent key).isSome = true

theorem Conserved.refl (s : Store) : Conserved s s := fun _ => id

theorem Conserved.trans {s s' s'' : Store} (h : Conserved s s') (h' : Conserved s' s'') : Conserved s s'' :=
  fun key hk => h' key (h key hk)

theorem Conserved.of_eq {s s' : Store} (h : ∀ k, s'.findCurrent k = s.findCurrent k) : Conserved s s' :=
  fun key hk => by rw [h]; exact hk

theorem OperatorStep.conserved {s s' : Store} (h : OperatorStep s s') : Conserved s s' := by
  obtain ⟨touched, htouched⟩ := h.touched
  intro k hk
  obtain ⟨m, hm⟩ := Option.isSome_iff_exists.1 hk
  by_cases ht : touched m.groupId
  · obtain ⟨g, hg⟩ := (htouched k m hm).1 ht
    simp [hg]
  · simp [(htouched k m hm).2 ht]

theorem Restated.conserved {s s' : Store} {state : MemberRow → MemberState} (h : Restated s s' state) : Conserved s s' := fun k hk => by
  rw [h.members, Option.isSome_map]
  exact hk

/-- Every current row is in an active group, and no key has two. -/
def MembersHoused (s : Store) : Prop :=
  (∀ m ∈ s.members, m.current = true → ∃ g ∈ s.groups, g.id = m.groupId ∧ g.isActive = true) ∧
    ∀ key, (s.members.filter fun m => m.current && m.threadCanonicalKey = key).length ≤ 1

theorem Memberships.housed {s : Store} (h : Memberships s) : MembersHoused s := by
  refine ⟨h.inActive, fun key => ?_⟩
  have hnd : ((s.members.filter fun m => m.current && m.threadCanonicalKey = key).map
      MemberRow.threadCanonicalKey).Nodup := by
    have := h.current.filter (fun m => m.threadCanonicalKey = key)
    rw [UniqueWhere, List.filter_filter] at this
    simpa [Bool.and_comm] using this
  rw [← List.length_map MemberRow.threadCanonicalKey]
  refine List.Subperm.length_le (show List.Subperm _ [key] from hnd.subperm fun k hk => ?_)
  obtain ⟨m, hm, rfl⟩ := List.mem_map.1 hk
  have := (List.mem_filter.1 hm).2
  simp_all

/-- The relations a reassignment below a key follows: those of its children, and of the children of
every child no operator placed. -/
inductive Reassigned (s : Store) (key : Key) : RelationRow → Prop where
  | child {r : RelationRow} (hr : r ∈ s.relations) (ha : r.isActive = true)
      (hp : r.parentThreadCanonicalKey = key) : Reassigned s key r
  | step {r above : RelationRow} (habove : Reassigned s key above)
      (hauto : s.Automatic above.childThreadCanonicalKey) (hr : r ∈ s.relations) (ha : r.isActive = true)
      (hp : r.parentThreadCanonicalKey = above.childThreadCanonicalKey) : Reassigned s key r

section Losing

variable [KeyHash]

/-- The group below a parent: that of the first member on the way up, or without one
the group of the topmost key. -/
def Store.AnchorGroup (s : Store) (parentKey : Key) (groupId : Nat) : Prop :=
  (∃ anchor, Climbs s.activeParent parentKey anchor ∧ s.InGroup anchor groupId ∧
    ∀ k, Climbs s.activeParent parentKey k → s.findCurrent k = none ∨ Climbs s.activeParent anchor k) ∨
  ∃ root g, IsRoot s.activeParent parentKey root ∧
    (∀ k, Climbs s.activeParent parentKey k → s.findCurrent k = none) ∧
    s.findActiveByCanonicalKey (reconcilerGroupCanonicalKey root) = some g ∧ g.id = groupId

/-- Placing a key under a parent loses a member: below the key, a live member the reconciler placed
hangs on a relation without its thread, in another group than the parent's. -/
def Store.Stranded (s : Store) (key parentKey : Key) : Prop :=
  s.Automatic key ∧ ∃ r m, Reassigned s key r ∧ r.childThreadId = none ∧
    s.findCurrent r.childThreadCanonicalKey = some m ∧ m.provenance = .reconciler ∧ m.state.isActive = true ∧
    ¬ s.AnchorGroup parentKey m.groupId

/-! ## One placement -/

section Placement

variable {s s' : Store} {key parentKey : Key}

/-- There is one group below a parent, and resolving the anchor finds it. -/
theorem Anchored.anchorGroup {parentThreadId : Option Nat} {parent : ObservedEndpoint} {owner : Option Int} {g : Nat}
    {anchor : Key} (h : Anchored parentThreadId parentKey parent owner s g anchor s') (hs : Sound s) {g' : Nat}
    (hg : s.AnchorGroup parentKey g') : g' = g := by
  have hsame : ∀ {a b : Key}, Climbs s.activeParent a b → Climbs s.activeParent b a → a = b := by
    intro a b hab hba
    rcases Relation.reflTransGen_iff_eq_or_transGen.1 hab with he | hd
    · exact he.symm
    · exact absurd (hd.trans_left hba) (hs.forest.acyclic a)
  cases h with
  | member _ m hc hm hfirst =>
    rcases hg with ⟨a, hca, ⟨ma, hma, rfl⟩, hfirst'⟩ | ⟨_, _, -, hnone, -⟩
    · have h₁ : Climbs s.activeParent anchor a := (hfirst a hca).resolve_left (by simp [hma])
      have h₂ : Climbs s.activeParent a anchor := (hfirst' anchor hc).resolve_left (by simp [hm])
      obtain rfl := hsame h₁ h₂
      rw [Option.some.inj (hma.symm.trans hm)]
    · simp [hnone anchor hc] at hm
  | root _ _ _ _ s₁ _ hroot hnone _ hopen _ =>
    rcases hg with ⟨a, hca, ⟨ma, hma, -⟩, -⟩ | ⟨root, g₁, hroot', -, hfind, rfl⟩
    · simp [hnone a hca] at hma
    · obtain rfl := hroot.unique hroot'
      cases hopen with
      | found g₂ hg₂ ha hk =>
        obtain ⟨hg₁, ha₁, hk₁⟩ := find?_mem hfind
        rw [hs.memberships.activeKey.eq hg₁ ha₁ hg₂ ha (hk₁.trans hk.symm)]
      | made _ _ hn => simp [hn] at hfind

/-- A placement keeps every member, unless it moves a live one without a thread. -/
theorem Placed.conserved {threadId : Option Nat} {endpoint : ObservedEndpoint} {target : Nat} {anchorKey : Key}
    (h : Placed threadId key endpoint target anchorKey s s') (hs : Memberships s)
    (hlive : threadId = none → ∀ m, s.findCurrent key = some m → m.provenance = .reconciler →
      m.state.isActive = true → m.groupId = target) : Conserved s s' := by
  intro k hk
  by_cases hkey : k = key
  · subst hkey
    obtain ⟨m, hm⟩ := Option.isSome_iff_exists.1 hk
    have hself := h.findCurrent_self hs
    unfold Store.placedMember at hself
    rw [hm] at hself
    rcases hself with ⟨hrow, -⟩ | ⟨hprov, hg, ⟨-, hlost⟩ | ⟨_, _, -, hrow⟩⟩
    · simp [hrow]
    · have hcur : m.state.current = true := (findCurrent_mem hm).2.1
      have hthread : threadId = none := by
        cases threadId with
        | none => rfl
        | some t => cases hst : m.state <;> simp_all [placedState, MemberState.deletedAt?]
      have hact : m.state.isActive = true := by
        cases hst : m.state <;> simp_all [placedState, MemberState.deletedAt?, MemberState.isActive, MemberState.current]
      exact absurd (hlive hthread m hm hprov hact) hg
    · simp [hrow]
  · rw [h.findCurrent_of_ne hs hkey]
    exact hk

/-- The worklist invariant: members are conserved, a key not enqueued yet is as it was or in the target
already, and the queue holds what a reassignment follows. -/
structure Conserving (s₀ : Store) (key : Key) (target : Nat) (todo : List RelationRow) (queue enqueued : List Key)
    (s : Store) : Prop where
  keeps : RegroupOnly s₀ s
  conserved : Conserved s₀ s
  untouched : ∀ k, k ∉ enqueued → s.findCurrent k = s₀.findCurrent k ∨ s.InGroup k target
  automatic : ∀ k, s.Automatic k → s₀.Automatic k
  waiting : ∀ r ∈ todo, Reassigned s₀ key r
  queued : ∀ k ∈ queue, k = key ∨ ∃ r, Reassigned s₀ key r ∧ s₀.Automatic r.childThreadCanonicalKey ∧
    r.childThreadCanonicalKey = k

theorem Conserving.reassigns {s₀ : Store} {target : Nat} (hsafe : ∀ r m, Reassigned s₀ key r → r.childThreadId = none →
      s₀.findCurrent r.childThreadCanonicalKey = some m → m.provenance = .reconciler → m.state.isActive = true →
      m.groupId = target) : Reassigns target (Conserving s₀ key target) where
  pop {parent queue enqueued s} h := by
    refine ⟨h.keeps, h.conserved, h.untouched, h.automatic, fun r hr => ?_, fun k hk => h.queued k (by simp [hk])⟩
    obtain ⟨hmem, hp, ha⟩ := mem_listActiveByParent.1 hr
    rw [h.keeps.relations] at hmem
    rcases h.queued parent (by simp) with rfl | ⟨above, habove, hauto, rfl⟩
    · exact .child hmem ha hp
    · exact .step habove hauto hmem ha hp
  seen h _ := ⟨h.keeps, h.conserved, h.untouched, h.automatic, fun r hr => h.waiting r (by simp [hr]), h.queued⟩
  fixed h _ _ _ := ⟨h.keeps, h.conserved, fun k hk => h.untouched k (fun hmem => hk (by simp [hmem])), h.automatic,
    fun r hr => h.waiting r (by simp [hr]), h.queued⟩
  placed {r todo queue enqueued s s'} h hnew hauto hs ht hp := by
    have hr := h.waiting r (by simp)
    refine ⟨h.keeps.trans hp.keeps, h.conserved.trans (hp.conserved hs fun hnone m hm hprov hact => ?_), fun k hk => ?_,
      fun k hk => h.automatic k (hp.automatic_of hs hauto hk), fun q hq => h.waiting q (by simp [hq]), fun k hk => ?_⟩
    · rcases h.untouched _ hnew with hsame | ⟨m', hm', hg⟩
      · exact hsafe r m hr hnone (hsame ▸ hm) hprov hact
      · obtain rfl := Option.some.inj (hm.symm.trans hm')
        exact hg
    · have hne : k ≠ r.childThreadCanonicalKey := fun he => hk (by simp [he])
      rw [Store.InGroup, hp.findCurrent_of_ne hs hne]
      exact h.untouched k fun hmem => hk (by simp [hmem])
    · rcases List.mem_cons.1 hk with rfl | hk
      · exact .inr ⟨r, hr, h.automatic _ hauto, rfl⟩
      · exact h.queued k hk

/-- Without a stranded member, placing a subject loses nobody. -/
theorem Ensured.conserved {e : Edge} (h : Ensured e s s') (hs : Sound s) (hsafe : ¬ s.Stranded e.subjectKey e.parentKey) :
    Conserved s s' := by
  have hreassigns : ∀ target, Reassigns target fun todo queue enqueued s₂ =>
      (s.Automatic e.subjectKey ∧ ∀ g, s.AnchorGroup e.parentKey g → g = target) ∧
        Conserving s e.subjectKey target todo queue enqueued s₂ := fun target =>
    .given fun ⟨hauto, hgroup⟩ => Conserving.reassigns fun r m hr hnone hm hprov hact => by
      by_contra hne
      exact hsafe ⟨hauto, r, m, hr, hnone, hm, hprov, hact, fun hg => hne (hgroup _ hg)⟩
  have hspec := h.rule hreassigns hs.memberships hs.forest fun hauto target anchor s₁ s₂ ha hre hp => ?_
  · rcases hspec with ⟨rfl, -⟩ | ⟨target, ⟨enqueued, -, hi⟩, -⟩
    · exact .refl _
    · exact hi.conserved
  · refine ⟨⟨hauto, fun g hg => ha.anchorGroup hs hg⟩, ?_⟩
    have hauto₁ : s₁.Automatic e.subjectKey := (ha.automatic_iff hs).2 hauto
    have hconserved : Conserved s s₁ := fun k hk => by
      rcases ha.new_or_same hs k with hsame | ⟨m, hm, -⟩
      · rwa [hsame]
      · simp [hm]
    refine ⟨hre.keeps.trans hp.keeps, hconserved.trans (hp.conserved hre.memberships fun hnone => by simp at hnone),
      fun k hk => ?_, fun k hk => (ha.automatic_iff hs).1 (hp.automatic_of hre.memberships hauto₁ hk), by simp,
      fun k hk => .inl (List.mem_singleton.1 hk)⟩
    rw [Store.InGroup, hp.findCurrent_of_ne hre.memberships (by simpa using hk)]
    exact (ha.new_or_same hs k).imp_right fun ⟨m, hm, hg, _⟩ => ⟨m, hm, hg⟩

end Placement

/-! ## Before the relation is there -/

section Transfer

variable {s s' : Store} {key parentKey : Key}

theorem Reassigned.mono (hr : ∀ r ∈ s'.relations, r.isActive = true → r ∈ s.relations)
    (hauto : ∀ k, s'.Automatic k → s.Automatic k) {r : RelationRow} (h : Reassigned s' key r) : Reassigned s key r := by
  induction h with
  | child hr' ha hp => exact .child (hr _ hr' ha) ha hp
  | step _ hab hr' ha hp ih => exact .step ih (hauto _ hab) (hr _ hr' ha) ha hp

/-- The child of a relation a reassignment follows is below the key. -/
theorem Reassigned.climbs (hf : RelationForest s) {r : RelationRow} (h : Reassigned s key r) :
    Climbs s.activeParent r.childThreadCanonicalKey key := by
  have hup : ∀ {r}, r ∈ s.relations → r.isActive = true →
      Up s.activeParent r.childThreadCanonicalKey r.parentThreadCanonicalKey := fun hr ha =>
    activeParent_eq_some.2 ⟨_, hf.findActiveByChild_eq_some.2 ⟨hr, ha, rfl⟩, rfl⟩
  induction h with
  | child hr ha hp => exact hp ▸ .single (hup hr ha)
  | step _ _ hr ha hp ih => exact .head (hp ▸ hup hr ha) ih

/-- The relations, members and groups are the same, and so is what a placement would lose. -/
theorem Store.Stranded.congr (hr : s'.relations = s.relations) (hm : s'.members = s.members)
    (hg : s'.groups = s.groups) (h : s'.Stranded key parentKey) : s.Stranded key parentKey := by
  have hcur : ∀ k, s'.findCurrent k = s.findCurrent k := findCurrent_congr hm
  have hpar : s'.activeParent = s.activeParent := funext fun k => by
    simp [Store.activeParent, findActiveByChild_congr hr]
  have hauto : ∀ k, s'.Automatic k → s.Automatic k := fun k hk m hm => hk m ((hcur k).trans hm)
  obtain ⟨ha, r, m, hre, hnone, hmem, hprov, hact, hgroup⟩ := h
  refine ⟨hauto key ha, r, m, hre.mono (fun r hr' _ => hr ▸ hr') hauto, hnone, (hcur _).symm.trans hmem, hprov, hact,
    fun hag => hgroup ?_⟩
  simpa only [Store.AnchorGroup, Store.InGroup, hpar, hcur, Store.findActiveByCanonicalKey, hg] using hag

/-- The relation a placement follows is above the subject, and so is not one a reassignment follows. -/
theorem Store.Stranded.of_relate (hs : Sound s) (hids : RelationIds s) {row : RelationRow} (ha : row.isActive = true)
    (hchild : row.childThreadCanonicalKey = key) (hparent : row.parentThreadCanonicalKey = parentKey)
    (hno : ¬ Climbs s.activeParent parentKey key) (h : ((s.superseded key).relate row).Stranded key parentKey) :
    s.Stranded key parentKey := by
  have hsup : ∀ k, k ≠ key → (s.superseded key).findActiveByChild k = s.findActiveByChild k := fun k hk => by
    unfold Store.superseded
    split
    · rfl
    · next existing hex => exact findActiveByChild_endRelation_of_ne hs.forest hids hex hk (by decide)
  have hgone := hs.forest.findActiveByChild_superseded key
  have hsound : Sound ((s.superseded key).relate row) :=
    (hs.superseded key).relate ha (hchild ▸ hgone) (by
      rw [hchild, hparent]
      exact hs.forest.not_climbs_superseded hno)
  have hpar : ∀ k, k ≠ key → ((s.superseded key).relate row).activeParent k = s.activeParent k := fun k hk => by
    rw [activeParent_relate ha (hchild ▸ hgone), hchild, Function.update_of_ne hk, Store.activeParent, hsup k hk,
      Store.activeParent]
  have hclimb : ∀ {a b}, ¬ Climbs s.activeParent a key →
      (Climbs ((s.superseded key).relate row).activeParent a b ↔ Climbs s.activeParent a b) := fun hn =>
    climbs_iff_of_agree hpar hn
  have hcur : ∀ k, ((s.superseded key).relate row).findCurrent k = s.findCurrent k := fun k => by
    unfold Store.superseded
    split <;> rfl
  have hgroups : ((s.superseded key).relate row).groups = s.groups := by
    unfold Store.superseded
    split <;> rfl
  obtain ⟨hauto, r, m, hre, hnone, hmem, hprov, hact, hgroup⟩ := h
  have hmono : ∀ k, ((s.superseded key).relate row).Automatic k → s.Automatic k := fun k hk m hm =>
    hk m ((hcur k).trans hm)
  -- A relation below the key is an old one: the new one goes up from the key to its parent.
  have hbelow : ∀ {r}, Reassigned ((s.superseded key).relate row) key r → Reassigned s key r := by
    have hold : ∀ {r}, r ∈ ((s.superseded key).relate row).relations → r.isActive = true → r ≠ row → r ∈ s.relations := by
      intro r hr hra hne
      rcases List.mem_append.1 hr with hr | hr
      · unfold Store.superseded at hr
        split at hr
        · exact hr
        · obtain ⟨r', hr', rfl⟩ := mem_modifyWhere.1 hr
          split at hra
          · simp [RelationRow.isActive] at hra
          · next hq => rw [if_neg hq]; exact hr'
      · exact absurd (List.mem_singleton.1 hr) hne
    intro r hr
    induction hr with
    | child hr' hra hp =>
      refine .child (hold hr' hra fun he => ?_) hra hp
      exact hno (by rw [← hparent, ← he, hp])
    | @step r above hab hauto' hr' hra hp ih =>
      refine .step ih (hmono _ hauto') (hold hr' hra fun he => ?_) hra hp
      exact hno (by rw [← hparent, ← he, hp]; exact ih.climbs hs.forest)
  refine ⟨hmono key hauto, r, m, hbelow hre, hnone, (hcur _).symm.trans hmem, hprov, hact, fun hag => hgroup ?_⟩
  have hoff : ∀ {a}, Climbs s.activeParent parentKey a → ¬ Climbs s.activeParent a key := fun ha hk => hno (ha.trans hk)
  rcases hag with ⟨anchor, hc, hin, hfirst⟩ | ⟨root, g, hroot, hnone', hfind, hid⟩
  · refine .inl ⟨anchor, (hclimb hno).2 hc, by simpa only [Store.InGroup, hcur] using hin, fun k hk => ?_⟩
    rw [hcur]
    exact (hfirst k ((hclimb hno).1 hk)).imp_right (hclimb (hoff hc)).2
  · refine .inr ⟨root, g, ⟨(hclimb hno).2 hroot.1, ?_⟩, fun k hk => ?_, ?_, hid⟩
    · rw [hpar root fun he => hno (he ▸ hroot.1)]
      exact hroot.2
    · rw [hcur]
      exact hnone' k ((hclimb hno).1 hk)
    · rwa [Store.findActiveByCanonicalKey, hgroups]

end Transfer

/-! ## Steps -/

section Steps

variable {s s' : Store}

/-- Adopting the parent chosen among the candidates places the key, and loses a member. -/
def Store.AdoptionStrands (s : Store) (key : Key) (choice : Choice) : Prop :=
  ∃ winner, choice = .parent winner ∧ s.Stranded key winner.parentKey ∧
    ∀ r, s.findActiveByChild key = some r →
      r.parentThreadCanonicalKey = winner.parentKey ∧ r.relationType = winner.relationType

theorem Adopts.conserved {threadId : Nat} {key : Key} {subject : ObservedEndpoint} {offers : List OfferedCandidate}
    {owner : Int} (h : Adopts threadId key subject offers owner s s') (hs : Sound s) (hids : RelationIds s)
    (hsafe : ¬ s.AdoptionStrands key (s.choose key (offers.map OfferedCandidate.candidate))) : Conserved s s' := by
  rcases h.by_choice hs.forest with ⟨-, hev⟩ | ⟨-, hev⟩ | ⟨winner, offer, out, s₁, hc, -, happ, hev⟩
  · exact .of_eq (findCurrent_congr hev.members)
  · refine .of_eq fun k => (findCurrent_congr hev.members k).trans ?_
    unfold Store.retracted
    split <;> rfl
  · refine Conserved.trans ?_ (.of_eq (findCurrent_congr hev.members))
    cases happ with
    | same existing _ hex hsame hens =>
      refine hens.conserved hs fun hst => hsafe ⟨winner, hc, hst, fun r hr => ?_⟩
      obtain rfl := Option.some.inj (hex.symm.trans hr)
      exact hsame
    | conflicting existing _ _ _ hev' => exact .of_eq (findCurrent_congr hev'.members)
    | adopted pi ci selection s₂ _ hn _ hens hev' =>
      obtain ⟨-, hno⟩ := hs.forest.choose_eq_parent.1 hc
      refine Conserved.trans ?_ (.of_eq (findCurrent_congr hev'.members))
      set e := s.selectedEdge threadId key subject offer.parent winner owner with he
      refine hens.conserved (hs.relate rfl hn hno) fun hst => hsafe ⟨winner, hc, ?_, fun r hr => ?_⟩
      · have hst' : ((s.superseded key).relate (adoptedRow e pi ci winner.relationType selection s.nextId)).Stranded key
            winner.parentKey := by
          rw [show s.superseded key = s from superseded_of_none hn]
          exact hst
        exact hst'.of_relate hs hids rfl rfl rfl hno
      · exact absurd (hr.symm.trans hn) (by simp)

/-- An action places a key whose placement loses a member: an adoption by the subject's transaction or
by late discovery, or a first confirmation. -/
def Action.StrandsMember (s : Store) : Action → Prop
  | .reconcile threadId subject observations .. =>
    ∃ identity, subject.key? = some identity ∧
      s.AdoptionStrands (s.subjectKey threadId identity) (s.forecast threadId identity observations)
  | .late observationId _ _ =>
    ∃ trigger subject parent late, s.findObservation observationId = some trigger ∧
      trigger.subject.key? = some subject ∧ trigger.candidateParent.bind SourceIdentity.key? = some parent ∧
      s.lateSubject observationId subject parent = some late ∧
      s.AdoptionStrands late.key (s.choose late.key (late.offers.map OfferedCandidate.candidate))
  | .decide candidateAssociationId decision reason _ =>
    decision = .confirm ∧ s.decidedAlready candidateAssociationId .confirm reason = false ∧
      ∃ candidate threadId key parentThreadId parentKeyRow, s.findCandidate candidateAssociationId = some candidate ∧
        s.resolveCandidateSubject candidate = some (threadId, key) ∧
        candidate.candidateParentThreadId = some parentThreadId ∧
        s.findKeyByThreadId parentThreadId = some parentKeyRow ∧
        s.activeParent key ≠ some parentKeyRow.key ∧ s.Stranded key parentKeyRow.key
  | _ => False

theorem Reconciles.conserved {threadId : Nat} {subject : ObservedEndpoint} {observations : List ObservationInput}
    {owner : Int} {operationId : String} {now : Int} {importGuard : Bool}
    (h : Reconciles threadId subject observations owner s s') (hs : Sound s) (hids : RelationIds s)
    (hsafe : ¬ (Action.reconcile threadId subject observations owner operationId now importGuard).StrandsMember s) :
    Conserved s s' := by
  cases h with
  | evidence _ _ hev => exact .of_eq (findCurrent_congr hev.members)
  | subject identity key ids s₁ s₂ s₃ _ hk hassigned hev hids' hadopts hhoused =>
    obtain ⟨hkey, hs₁'⟩ := hassigned.eq
    have hs₂ := (hassigned.mapping.tables hs).evidence hev
    have hrel : s₂.relations = s.relations := hev.relations.trans hassigned.mapping.relations
    have hmem : s₂.members = s.members := hev.members.trans hassigned.mapping.members
    have hids₂ : RelationIds s₂ := hids.congr hrel (hassigned.mapping.keeps.nextId.trans hev.nextId)
    have hchoose := forecast_eq hassigned hev hids'
    refine Conserved.trans (.of_eq (findCurrent_congr hmem)) (Conserved.trans (hadopts.conserved hs₂ hids₂ ?_) ?_)
    · rintro ⟨winner, hw, hst, hinc⟩
      refine hsafe ⟨identity, hk, winner, hchoose.symm.trans hw, hkey ▸ hst.congr hrel hmem
        (hev.groups.trans hassigned.mapping.groups), fun r hr => hinc r ?_⟩
      rw [findActiveByChild_congr hrel, hkey]
      exact hr
    · cases hhoused with
      | already => exact .refl _
      | alone g identity s₄ hn hopen => 
        intro k hk'
        rw [findCurrent_join rfl ((hopen.findCurrent key).trans hn), automaticRow_key]
        split
        · rfl
        · rwa [hopen.findCurrent]

theorem Discovers.conserved {observationId : Nat} {operationId : String} {now : Int} (h : Discovers observationId s s')
    (hs : Sound s) (hids : RelationIds s)
    (hsafe : ¬ (Action.late observationId operationId now).StrandsMember s) : Conserved s s' := by
  cases h with
  | nothing => exact .refl _
  | adopts trigger subject parent late _ htrigger hsubject hparent hlate hadopts =>
    exact hadopts.conserved hs hids fun hst => hsafe ⟨trigger, subject, parent, late, htrigger, hsubject, hparent,
      hlate, hst⟩

theorem Decides.conserved {candidateAssociationId : Nat} {decision : OperatorDecision} {reason : String} {now : Int}
    (h : Decides candidateAssociationId decision reason s s') (hs : Sound s) (hids : RelationIds s)
    (hsafe : ¬ (Action.decide candidateAssociationId decision reason now).StrandsMember s) : Conserved s s' := by
  cases h with
  | evidence _ hev => exact .of_eq (findCurrent_congr hev.members)
  | retracts _ existing s₁ _ h₁ _ _ h₂ =>
    exact .of_eq fun k => (findCurrent_congr h₂.members k).trans (findCurrent_congr h₁.members k)
  | confirms candidate threadId key decisionId s₁ s₂ _ hdecision hfirst hcandidate hsubject h₁ hc h₂ =>
    refine Conserved.trans (.of_eq (findCurrent_congr h₁.members)) (Conserved.trans ?_ (.of_eq (findCurrent_congr h₂.members)))
    cases hc with
    | already => exact .refl _
    | adopted e parentThreadId parentKeyRow _ hsub hparent hkey hparentKey hnew hno hens =>
      have hs₁ := hs.evidence h₁
      have hids₁ : RelationIds s₁ := hids.congr h₁.relations h₁.nextId
      have hsound : Sound ((s₁.superseded e.subjectKey).relate (confirmedRow e decisionId s₁.nextId)) :=
        (hs₁.superseded e.subjectKey).relate rfl (hs₁.forest.findActiveByChild_superseded e.subjectKey)
          (hs₁.forest.not_climbs_superseded hno)
      have hsup : Conserved s₁ ((s₁.superseded e.subjectKey).relate (confirmedRow e decisionId s₁.nextId)) :=
        .of_eq fun k => by
          unfold Store.superseded
          split <;> rfl
      refine hsup.trans (hens.conserved hsound fun hst => hsafe ⟨hdecision, hfirst, candidate, threadId, key,
        parentThreadId, parentKeyRow, hcandidate, hsubject, hparent.2, ?_, ?_, ?_⟩)
      · rw [← hkey]
        exact (h₁.read (fun s => s.findKeyByThreadId parentThreadId) fun _ => rfl).symm
      · rw [← hsub.2, ← hparentKey]
        exact fun he => hnew ((h₁.read (fun s => s.activeParent e.subjectKey) fun _ => rfl).trans he)
      · have hst₁ : s₁.Stranded e.subjectKey e.parentKey :=
          Store.Stranded.of_relate hs₁ hids₁ (show (confirmedRow e decisionId s₁.nextId).isActive = true from rfl)
            rfl rfl hno hst
        rw [← hsub.2, ← hparentKey]
        exact hst₁.congr h₁.relations h₁.members h₁.groups

theorem Deletes.conserved {keyOf : Nat → Option Key} {now : Int} (h : Deletes keyOf now s s') (hs : Sound s) :
    Conserved s s' := by
  induction h with
  | done => exact .refl _
  | next threadId s s₁ s' hg _ ih =>
    refine Conserved.trans (hs.deleted_restated threadId (keyOf threadId) now).conserved
      (Conserved.trans (.of_eq (findCurrent_congr hg.members)) (ih (hg.sound (hs.deleted ..))))

theorem Batches.conserved (h : Batches s s') (hs : Sound s) : Conserved s s' := by
  cases h with
  | maps _ hm => exact .of_eq (findCurrent_congr hm.members)
  | revives key threadId _ s₁ _ h₁ _ _ h₂ =>
    exact Conserved.trans (.of_eq (findCurrent_congr h₁.members))
      (Conserved.trans ((h₁.tables hs).revived_restated key threadId).conserved (.of_eq (findCurrent_congr h₂.members)))

variable [PurgeDigest]

theorem Action.exec_conserved (hs : Sound s) (hids : RelationIds s) {a : Action} (hp : a.isPurge = false)
    (hsafe : ¬ a.StrandsMember s) : Conserved s (a.exec s) := by
  rcases a.exec_cases hs with he | ho
  · rw [he]
    exact .refl s
  · cases a with
    | reconcile => exact Reconciles.conserved ho hs hids hsafe
    | late => exact Discovers.conserved ho hs hids hsafe
    | decide => exact Decides.conserved ho hs hids hsafe
    | createThread => exact .of_eq (findCurrent_congr (MappingOnly.members ho))
    | ensureKey => exact .of_eq (findCurrent_congr (MappingOnly.members ho))
    | batch => exact Batches.conserved ho hs
    | delete => exact Deletes.conserved ho hs
    | merge => exact OperatorStep.conserved ho
    | split => exact OperatorStep.conserved ho
    | attach => exact OperatorStep.conserved ho
    | purge => simp [Action.isPurge] at hp

end Steps

end Losing

end MemoryStore.ThreadGroup
