/-
Lineage and groups. While nothing is purged, the child of every active relation
has a current member, its parent has one too unless an operator placed the
child, and a child the reconciler placed is in its parent's group.

An adoption breaks this for the children of the key it moves, and reassignment
restores it: the worklist invariant (`Cohering`) says that a relation is
cohesive, or its parent is queued, or it is among the relations still to be
looked at.
-/
import MemoryStore.ThreadGroup.Stability

namespace MemoryStore.ThreadGroup

open Tx Table Forest

/-- The key is a current member of the group. -/
def Store.InGroup (s : Store) (key : Key) (groupId : Nat) : Prop :=
  ∃ m, s.findCurrent key = some m ∧ m.groupId = groupId

/-- No operator placed the key. -/
def Store.Automatic (s : Store) (key : Key) : Prop :=
  ∀ m, s.findCurrent key = some m → m.provenance = .reconciler

/-- The members at the two ends of an active relation. A child without a thread is a
placeholder, and a child whose parent is no member was placed by an operator. -/
structure Kin (s : Store) (r : RelationRow) : Prop where
  child : ∃ m, s.findCurrent r.childThreadCanonicalKey = some m
  detached : r.childThreadId = none → ∀ m, s.findCurrent r.childThreadCanonicalKey = some m → m.state.isActive = false
  parent : (∃ m, s.findCurrent r.parentThreadCanonicalKey = some m) ∨
    ∃ m, s.findCurrent r.childThreadCanonicalKey = some m ∧ m.provenance = .operator

/-- A child the reconciler placed is in its parent's group. -/
def Cohesive (s : Store) (r : RelationRow) : Prop :=
  ∀ mc mp, s.findCurrent r.childThreadCanonicalKey = some mc → mc.provenance = .reconciler →
    s.findCurrent r.parentThreadCanonicalKey = some mp → mc.groupId = mp.groupId

/-- What relations, members and keys keep while nothing is purged. -/
structure Lineage (s : Store) : Prop where
  keys : KeysSound s
  childKey : ∀ r ∈ s.relations, r.isActive = true → ∀ t, r.childThreadId = some t →
    s.HasKey t r.childThreadCanonicalKey
  kin : ∀ r ∈ s.relations, r.isActive = true → Kin s r
  cohesive : ∀ r ∈ s.relations, r.isActive = true → Cohesive s r

/-! ## One placement -/

/-- A key the reconciler may place is in the group afterwards, and no other key was touched. -/
structure Placing (key : Key) (target : Nat) (s s' : Store) : Prop where
  other : ∀ k, k ≠ key → s'.findCurrent k = s.findCurrent k
  automatic : s.Automatic key
  here : ∃ m, s'.findCurrent key = some m ∧ m.groupId = target ∧ m.provenance = .reconciler
  inactive : ∀ m, s.findCurrent key = some m → m.state.isActive = false →
    ∀ m', s'.findCurrent key = some m' → m'.state.isActive = false

section Placing

variable {s s' : Store} {key : Key} {target : Nat} {r : RelationRow}

/-- A placement of a key that is a placeholder wherever its thread is unknown. -/
theorem Placed.placing {threadId : Option Nat} {endpoint : ObservedEndpoint} {anchorKey : Key}
    (h : Placed threadId key endpoint target anchorKey s s') (hs : Memberships s) (hauto : s.Automatic key)
    (hthread : threadId = none → ∃ m, s.findCurrent key = some m ∧ m.state.isActive = false) :
    Placing key target s s' := by
  have hself := h.findCurrent_self hs
  unfold Store.placedMember at hself
  cases hm : s.findCurrent key with
  | none =>
    rw [hm] at hself
    rcases hself with ⟨-, hnone⟩ | ⟨tid, identity, -, hrow⟩
    · obtain ⟨m, hm', -⟩ := hthread hnone
      simp [hm] at hm'
    · exact ⟨fun k hk => h.findCurrent_of_ne hs hk, hauto, ⟨_, hrow, rfl, rfl⟩, fun m hm' => by simp [hm] at hm'⟩
  | some m =>
    rw [hm] at hself
    have hprov := hauto m hm
    have hcur : m.state.current = true := (findCurrent_mem hm).2.1
    -- A placeholder stays one; a live member moves with its thread.
    have hdel : m.state.isActive = false → ∃ d, m.state.deletedAt? = some d := by
      cases hst : m.state <;> simp_all [MemberState.isActive, MemberState.deletedAt?, MemberState.current]
    rcases hself with ⟨hrow, hstay⟩ | ⟨-, -, ⟨-, hlost⟩ | ⟨state, identity, hstate, hrow⟩⟩
    · refine ⟨fun k hk => h.findCurrent_of_ne hs hk, hauto, ⟨m, hrow, ?_, hprov⟩, fun m₁ h₁ hin m' hm' => ?_⟩
      · rcases hstay with hop | hg
        · simp [hprov] at hop
        · exact hg
      · obtain rfl := Option.some.inj (hm.symm.trans h₁)
        obtain rfl := Option.some.inj (hrow.symm.trans hm')
        exact hin
    · unfold placedState at hlost
      cases hd : m.state.deletedAt? with
      | some d => simp [hd] at hlost
      | none =>
        obtain rfl : threadId = none := by simpa [hd] using hlost
        obtain ⟨m₁, h₁, hin⟩ := hthread rfl
        obtain rfl := Option.some.inj (hm.symm.trans h₁)
        obtain ⟨d, hd'⟩ := hdel hin
        simp [hd] at hd'
    · refine ⟨fun k hk => h.findCurrent_of_ne hs hk, hauto, ⟨_, hrow, rfl, rfl⟩, fun m₁ h₁ hin m' hm' => ?_⟩
      obtain rfl := Option.some.inj (hm.symm.trans h₁)
      obtain ⟨d, hd⟩ := hdel hin
      obtain rfl := Option.some.inj (hrow.symm.trans hm')
      obtain rfl : MemberState.deleted d = state := by simpa [placedState, hd] using hstate
      rfl

theorem Placing.inGroup (h : Placing key target s s') : s'.InGroup key target := by
  obtain ⟨m, hm, hg, -⟩ := h.here
  exact ⟨m, hm, hg⟩

/-- The other keys stay in their groups, and the placed one may be in the target only. -/
theorem Placing.inGroup_of (h : Placing key target s s') {k : Key} (hk : s.InGroup k target) : s'.InGroup k target := by
  by_cases hkey : k = key
  · exact hkey ▸ h.inGroup
  · obtain ⟨m, hm, hg⟩ := hk
    exact ⟨m, (h.other k hkey).trans hm, hg⟩

theorem Placing.kin (h : Placing key target s s') (hk : Kin s r) : Kin s' r := by
  obtain ⟨m', hm', -, -⟩ := h.here
  by_cases hc : r.childThreadCanonicalKey = key
  · obtain ⟨m, hm⟩ := hk.child
    refine ⟨⟨m', hc ▸ hm'⟩, fun hnone m₁ h₁ => ?_, .inl ?_⟩
    · rw [hc] at hm h₁
      exact h.inactive m hm (hk.detached hnone m (hc ▸ hm)) m₁ h₁
    · by_cases hp : r.parentThreadCanonicalKey = key
      · exact ⟨m', hp ▸ hm'⟩
      · rcases hk.parent with ⟨mp, hmp⟩ | ⟨mo, hmo, hop⟩
        · exact ⟨mp, (h.other _ hp).trans hmp⟩
        · simp [h.automatic mo (hc ▸ hmo)] at hop
  · have hsame := h.other _ hc
    refine ⟨by rw [hsame]; exact hk.child, fun hnone m hm => hk.detached hnone m (hsame ▸ hm), ?_⟩
    by_cases hp : r.parentThreadCanonicalKey = key
    · exact .inl ⟨m', hp ▸ hm'⟩
    · rw [hsame, h.other _ hp]
      exact hk.parent

/-- A key that was no member is above operators' members only, so placing it separates nobody. -/
theorem Placing.cohesive_new (h : Placing key target s s') (hn : s.findCurrent key = none) (hk : Kin s r)
    (hc : Cohesive s r) : Cohesive s' r := by
  intro mc mp hmc hprov hmp
  have hchild : r.childThreadCanonicalKey ≠ key := by
    rintro he
    obtain ⟨m, hm⟩ := hk.child
    rw [he, hn] at hm
    simp at hm
  rw [h.other _ hchild] at hmc
  by_cases hp : r.parentThreadCanonicalKey = key
  · rcases hk.parent with ⟨m, hm⟩ | ⟨mo, hmo, hop⟩
    · rw [hp, hn] at hm
      simp at hm
    · obtain rfl := Option.some.inj (hmc.symm.trans hmo)
      simp [hprov] at hop
  · rw [h.other _ hp] at hmp
    exact hc mc mp hmc hprov hmp

/-- A relation that does not touch the placed key is as cohesive as it was. -/
theorem Placing.cohesive_of_ne (h : Placing key target s s') (hc : r.childThreadCanonicalKey ≠ key)
    (hp : r.parentThreadCanonicalKey ≠ key) (hcoh : Cohesive s r) : Cohesive s' r := by
  intro mc mp hmc hprov hmp
  rw [h.other _ hc] at hmc
  rw [h.other _ hp] at hmp
  exact hcoh mc mp hmc hprov hmp

theorem cohesive_of_inGroup (hc : s.InGroup r.childThreadCanonicalKey target)
    (hp : s.InGroup r.parentThreadCanonicalKey target) : Cohesive s r := by
  intro mc mp hmc _ hmp
  obtain ⟨m, hm, hg⟩ := hc
  obtain ⟨m', hm', hg'⟩ := hp
  obtain rfl := Option.some.inj (hmc.symm.trans hm)
  obtain rfl := Option.some.inj (hmp.symm.trans hm')
  exact hg.trans hg'.symm

theorem cohesive_of_operator {m : MemberRow} (hm : s.findCurrent r.childThreadCanonicalKey = some m)
    (hop : m.provenance = .operator) : Cohesive s r := by
  intro mc _ hmc hprov _
  obtain rfl := Option.some.inj (hmc.symm.trans hm)
  simp [hprov] at hop

end Placing

/-! ## Who is touched -/

section Touched

variable {s s' : Store} {key : Key}

/-- A placement makes nobody automatic that was not. -/
theorem Placed.automatic_of {threadId : Option Nat} {endpoint : ObservedEndpoint} {target : Nat} {anchorKey : Key}
    (h : Placed threadId key endpoint target anchorKey s s') (hs : Memberships s) (hauto : s.Automatic key) {k : Key}
    (hk : s'.Automatic k) : s.Automatic k := by
  by_cases hkey : k = key
  · exact hkey ▸ hauto
  · intro m hm
    exact hk m ((h.findCurrent_of_ne hs hkey).trans hm)

/-- Placing a key that was no member leaves every other key as it was. -/
theorem Placed.new_or_same {threadId : Option Nat} {endpoint : ObservedEndpoint} {target : Nat} {anchorKey : Key}
    (h : Placed threadId key endpoint target anchorKey s s') (hs : Memberships s) (hn : s.findCurrent key = none)
    (k : Key) : s'.findCurrent k = s.findCurrent k ∨
      ∃ m, s'.findCurrent k = some m ∧ m.groupId = target ∧ m.provenance = .reconciler := by
  by_cases hkey : k = key
  · subst hkey
    have hself := h.findCurrent_self hs
    unfold Store.placedMember at hself
    rw [hn] at hself
    rcases hself with ⟨hrow, -⟩ | ⟨tid, identity, -, hrow⟩
    · exact .inl (hrow.trans hn.symm)
    · exact .inr ⟨_, hrow, rfl, rfl⟩
  · exact .inl (h.findCurrent_of_ne hs hkey)

variable [KeyHash] {parentThreadId : Option Nat} {parentKey : Key} {parent : ObservedEndpoint} {owner : Option Int}
  {g : Nat} {anchor : Key}

/-- Resolving an anchor touches at most the anchor, and only if that was no member. -/
theorem Anchored.new_or_same (h : Anchored parentThreadId parentKey parent owner s g anchor s') (hs : Sound s) (k : Key) :
    s'.findCurrent k = s.findCurrent k ∨
      ∃ m, s'.findCurrent k = some m ∧ m.groupId = g ∧ m.provenance = .reconciler := by
  cases h with
  | member => exact .inl rfl
  | root _ _ _ _ s₁ _ hroot hnone _ hopen hp =>
    rw [← hopen.findCurrent k]
    exact hp.new_or_same (hopen.memberships hs.memberships) ((hopen.findCurrent anchor).trans (hnone anchor hroot.1)) k

theorem Anchored.automatic_iff (h : Anchored parentThreadId parentKey parent owner s g anchor s') (hs : Sound s)
    {k : Key} : s'.Automatic k ↔ s.Automatic k := by
  constructor
  · cases h with
    | member => exact id
    | root _ _ _ _ s₁ _ hroot hnone _ hopen hp =>
      intro hk m hm
      have hn : s₁.findCurrent anchor = none := (hopen.findCurrent anchor).trans (hnone anchor hroot.1)
      exact hp.automatic_of (hopen.memberships hs.memberships) (fun m hm => by simp [hn] at hm) hk m
        ((hopen.findCurrent k).trans hm)
  · intro hk m hm
    rcases h.new_or_same hs k with hsame | ⟨m', hm', -, hprov⟩
    · exact hk m (hsame ▸ hm)
    · obtain rfl := Option.some.inj (hm.symm.trans hm')
      exact hprov

end Touched

/-! ## Reassignment -/

/-- The worklist invariant. Enqueued keys are the operator's or in the target, queued ones are in the
target, as are the parents of the relations still to be looked at; and every other relation is cohesive. -/
structure Cohering (s₀ : Store) (target : Nat) (todo : List RelationRow) (queue enqueued : List Key) (s : Store) :
    Prop where
  keeps : RegroupOnly s₀ s
  kin : ∀ r ∈ s₀.relations, r.isActive = true → Kin s r
  seen : ∀ k ∈ enqueued, s.InGroup k target ∨ ∃ m, s.findCurrent k = some m ∧ m.provenance = .operator
  queued : ∀ k ∈ queue, k ∈ enqueued ∧ s.InGroup k target
  waiting : ∀ r ∈ todo, r ∈ s₀.relations ∧ r.isActive = true ∧ s.InGroup r.parentThreadCanonicalKey target
  cohesive : ∀ r ∈ s₀.relations, r.isActive = true → r.parentThreadCanonicalKey ∈ queue ∨ r ∈ todo ∨ Cohesive s r

theorem Cohering.reassigns (s₀ : Store) (hf : RelationForest s₀) (target : Nat) : Reassigns target (Cohering s₀ target) where
  pop h := by
    refine ⟨h.keeps, h.kin, h.seen, fun k hk => h.queued k (by simp [hk]), fun r hr => ?_, fun r hr ha => ?_⟩
    · obtain ⟨hmem, hp, hact⟩ := mem_listActiveByParent.1 hr
      exact ⟨h.keeps.relations ▸ hmem, hact, hp ▸ (h.queued _ (by simp)).2⟩
    · rcases h.cohesive r hr ha with hq | ht | hc
      · rcases List.mem_cons.1 hq with hp | hq
        · exact .inr (.inl (mem_listActiveByParent.2 ⟨h.keeps.relations.symm ▸ hr, hp, ha⟩))
        · exact .inl hq
      · simp at ht
      · exact .inr (.inr hc)
  seen {r todo queue enqueued s} h hseen := by
    refine ⟨h.keeps, h.kin, h.seen, h.queued, fun q hq => h.waiting q (by simp [hq]), fun q hq ha => ?_⟩
    rcases h.cohesive q hq ha with hq' | ht | hc
    · exact .inl hq'
    · rcases List.mem_cons.1 ht with rfl | ht
      · refine .inr (.inr ?_)
        rcases h.seen _ hseen with hin | ⟨m, hm, hop⟩
        · exact cohesive_of_inGroup hin (h.waiting q (by simp)).2.2
        · exact cohesive_of_operator hm hop
      · exact .inr (.inl ht)
    · exact .inr (.inr hc)
  fixed {r todo queue enqueued s m} h hnew hm hop := by
    refine ⟨h.keeps, h.kin, fun k hk => ?_, fun k hk => ?_, fun q hq => h.waiting q (by simp [hq]), fun q hq ha => ?_⟩
    · rcases List.mem_cons.1 hk with rfl | hk
      · exact .inr ⟨m, hm, hop⟩
      · exact h.seen k hk
    · exact ⟨List.mem_cons_of_mem _ (h.queued k hk).1, (h.queued k hk).2⟩
    · rcases h.cohesive q hq ha with hq' | ht | hc
      · exact .inl hq'
      · rcases List.mem_cons.1 ht with rfl | ht
        · exact .inr (.inr (cohesive_of_operator hm hop))
        · exact .inr (.inl ht)
      · exact .inr (.inr hc)
  placed {r todo queue enqueued s s'} h hnew hauto hs _ hp := by
    obtain ⟨hr, hra, hparent⟩ := h.waiting r (by simp)
    have hkin := h.kin r hr hra
    have hplacing : Placing r.childThreadCanonicalKey target s s' := hp.placing hs hauto fun hnone => by
      obtain ⟨m, hm⟩ := hkin.child
      exact ⟨m, hm, hkin.detached hnone m hm⟩
    have hne : ∀ k ∈ enqueued, k ≠ r.childThreadCanonicalKey := fun k hk he => hnew (he ▸ hk)
    refine ⟨h.keeps.trans hp.keeps, fun q hq ha => hplacing.kin (h.kin q hq ha), fun k hk => ?_, fun k hk => ?_,
      fun q hq => ?_, fun q hq ha => ?_⟩
    · rcases List.mem_cons.1 hk with rfl | hk
      · exact .inl hplacing.inGroup
      · rcases h.seen k hk with hin | ⟨m, hm, hop⟩
        · exact .inl (hplacing.inGroup_of hin)
        · exact .inr ⟨m, (hplacing.other k (hne k hk)).trans hm, hop⟩
    · rcases List.mem_cons.1 hk with rfl | hk
      · exact ⟨by simp, hplacing.inGroup⟩
      · exact ⟨List.mem_cons_of_mem _ (h.queued k hk).1, hplacing.inGroup_of (h.queued k hk).2⟩
    · obtain ⟨hq', ha, hin⟩ := h.waiting q (by simp [hq])
      exact ⟨hq', ha, hplacing.inGroup_of hin⟩
    · by_cases hc : q.childThreadCanonicalKey = r.childThreadCanonicalKey
      · obtain rfl := hf.child.eq hq ha hr hra hc
        exact .inr (.inr (cohesive_of_inGroup hplacing.inGroup (hplacing.inGroup_of hparent)))
      · by_cases hpk : q.parentThreadCanonicalKey = r.childThreadCanonicalKey
        · exact .inl (by simp [hpk])
        · rcases h.cohesive q hq ha with hq' | ht | hcoh
          · exact .inl (List.mem_cons_of_mem _ hq')
          · rcases List.mem_cons.1 ht with rfl | ht
            · exact absurd rfl hc
            · exact .inr (.inl ht)
          · exact .inr (.inr (hplacing.cohesive_of_ne hc hpk hcoh))

end MemoryStore.ThreadGroup
