/-
Anchors and the reassignment of descendants: the walk of `resolve_anchor_group`
to the topmost key, and the worklist of `reassign_automatic_descendants`.

A property of a reassignment is proved by an invariant of its worklist
(`Reassigns`), indexed by the relations of the popped parent still to be looked
at, the queue and the keys enqueued so far. The rule also settles that the step
budget never runs out: every step pops a key, and a key is enqueued once.
-/
import MemoryStore.ThreadGroup.Membership

namespace MemoryStore.ThreadGroup

open Tx Table Forest

/-- The active relations form a forest: one parent for each child, and no cycle. -/
structure RelationForest (s : Store) : Prop where
  child : UniqueWhere RelationRow.isActive RelationRow.childThreadCanonicalKey s.relations
  acyclic : Acyclic s.activeParent

theorem findActiveByChild_mem {s : Store} {key : Key} {r : RelationRow} (h : s.findActiveByChild key = some r) :
    r ∈ s.relations ∧ r.isActive = true ∧ r.childThreadCanonicalKey = key := find?_mem h

theorem RelationForest.findActiveByChild_eq_some {s : Store} (h : RelationForest s) {key : Key} {r : RelationRow} :
    s.findActiveByChild key = some r ↔ r ∈ s.relations ∧ r.isActive = true ∧ r.childThreadCanonicalKey = key :=
  h.child.find?_eq_some

theorem activeParent_eq_some {s : Store} {key parent : Key} :
    s.activeParent key = some parent ↔
      ∃ r, s.findActiveByChild key = some r ∧ r.parentThreadCanonicalKey = parent := by
  simp [Store.activeParent]

theorem activeParent_eq_none {s : Store} {key : Key} : s.activeParent key = none ↔ s.findActiveByChild key = none := by
  simp [Store.activeParent]

theorem child_mem_of_activeParent (s : Store) (key parent : Key) (h : s.activeParent key = some parent) :
    key ∈ s.relations.map RelationRow.childThreadCanonicalKey := by
  obtain ⟨r, hr, -⟩ := activeParent_eq_some.1 h
  obtain ⟨hmem, -, rfl⟩ := findActiveByChild_mem hr
  exact List.mem_map_of_mem hmem

/-! ## The walk to the anchor -/

/-- Where the thread and endpoint of a walk's last key come from: the walk's own
start, if that has no parent, or the relation it climbed last. -/
def Store.anchorOrigin (s : Store) (start : Key × Option Nat × ObservedEndpoint)
    (anchor : Key × Option Nat × ObservedEndpoint) : Prop :=
  (s.activeParent start.1 = none ∧ anchor = start) ∨
    (s.activeParent start.1 ≠ none ∧ ∃ r ∈ s.relations, r.isActive = true ∧
      anchor = (r.parentThreadCanonicalKey, r.parentThreadId, r.parentEndpoint))

/-- A climb starts where it is, or with the step to the parent. -/
theorem climbs_cons {s : Store} {key k : Key} {r : RelationRow} (hr : s.findActiveByChild key = some r)
    (hc : Climbs s.activeParent key k) : k = key ∨ Climbs s.activeParent r.parentThreadCanonicalKey k := by
  rcases hc.cases_head with rfl | ⟨p, hp, hpk⟩
  · exact .inl rfl
  · obtain ⟨r', hr', rfl⟩ := activeParent_eq_some.1 hp
    obtain rfl : r = r' := Option.some.inj (hr.symm.trans hr')
    exact .inr hpk

/-- The walk stops at the first member on the way up. -/
theorem anchorWalk_member {s : Store} : ∀ {steps visited key threadId endpoint groupId anchor},
    s.anchorWalk steps visited key threadId endpoint = .member groupId anchor →
      Climbs s.activeParent key anchor ∧ (∃ m, s.findCurrent anchor = some m ∧ m.groupId = groupId) ∧
        ∀ k, Climbs s.activeParent key k → s.findCurrent k = none ∨ Climbs s.activeParent anchor k
  | 0, _, _, _, _, _, _, h => by simp [Store.anchorWalk] at h
  | steps + 1, visited, key, threadId, endpoint, groupId, anchor, h => by
    simp only [Store.anchorWalk] at h
    split at h
    · simp at h
    · split at h
      · next m hm =>
        obtain ⟨rfl, rfl⟩ := AnchorEnd.member.inj h
        exact ⟨.refl, ⟨m, hm, rfl⟩, fun k hk => .inr hk⟩
      · next hn =>
        split at h
        · simp at h
        · next r hr =>
          obtain ⟨hc, hm, hfirst⟩ := anchorWalk_member h
          refine ⟨.head (activeParent_eq_some.2 ⟨r, hr, rfl⟩) hc, hm, fun k hk => ?_⟩
          rcases climbs_cons hr hk with rfl | hk
          · exact .inl hn
          · exact hfirst k hk

/-- A walk that ends at a root met no member. -/
theorem anchorWalk_root {s : Store} : ∀ {steps visited key threadId endpoint anchor threadId' endpoint'},
    s.anchorWalk steps visited key threadId endpoint = .root anchor threadId' endpoint' →
      IsRoot s.activeParent key anchor ∧ (∀ k, Climbs s.activeParent key k → s.findCurrent k = none) ∧
        s.anchorOrigin (key, threadId, endpoint) (anchor, threadId', endpoint')
  | 0, _, _, _, _, _, _, _, h => by simp [Store.anchorWalk] at h
  | steps + 1, visited, key, threadId, endpoint, anchor, threadId', endpoint', h => by
    simp only [Store.anchorWalk] at h
    split at h
    · simp at h
    · split at h
      · simp at h
      · next hn =>
        split at h
        · next hr =>
          obtain ⟨rfl, rfl, rfl⟩ := AnchorEnd.root.inj h
          have hnone := activeParent_eq_none.2 hr
          exact ⟨⟨.refl, hnone⟩, fun k hk => climbs_of_none hnone hk ▸ hn, .inl ⟨hnone, rfl⟩⟩
        · next r hr =>
          obtain ⟨⟨hc, hroot⟩, hm, ho⟩ := anchorWalk_root h
          have hup := activeParent_eq_some.2 ⟨r, hr, rfl⟩
          refine ⟨⟨.head hup hc, hroot⟩, fun k hk => ?_, .inr ⟨by simp [hup], ?_⟩⟩
          · rcases climbs_cons hr hk with rfl | hk
            · exact hn
            · exact hm k hk
          · rcases ho with ⟨-, ho⟩ | ⟨-, ho⟩
            · obtain ⟨hmem, hact, -⟩ := findActiveByChild_mem hr
              exact ⟨r, hmem, hact, ho⟩
            · exact ho

/-- In a forest the visited guard never stops the walk. -/
theorem RelationForest.anchorWalk_ne_revisited {s : Store} (h : RelationForest s) :
    ∀ {steps visited key threadId endpoint}, (∀ v ∈ visited, Descends s.activeParent v key) →
      ∀ k t e, s.anchorWalk steps visited key threadId endpoint ≠ .revisited k t e
  | 0, _, _, _, _, _, _, _, _, he => by simp [Store.anchorWalk] at he
  | steps + 1, visited, key, threadId, endpoint, hv, k, t, e, he => by
    simp only [Store.anchorWalk] at he
    split at he
    · next hk => exact h.acyclic key (hv key hk)
    · split at he
      · simp at he
      · split at he
        · simp at he
        · next r hr =>
          have hup : Up s.activeParent key r.parentThreadCanonicalKey := activeParent_eq_some.2 ⟨r, hr, rfl⟩
          refine h.anchorWalk_ne_revisited (fun v hv' => ?_) k t e he
          rcases List.mem_cons.1 hv' with rfl | hv'
          · exact .single hup
          · exact (hv v hv').tail hup

/-- The walk never runs out of steps. -/
theorem anchorWalk_ne_exhausted {s : Store} : ∀ {steps visited key threadId endpoint}, visited.Nodup →
    visited ⊆ s.relations.map RelationRow.childThreadCanonicalKey →
    s.relations.length < steps + visited.length → s.anchorWalk steps visited key threadId endpoint ≠ .exhausted
  | 0, visited, _, _, _, hn, hs, hf, _ => by
    have := (hn.subperm hs).length_le
    simp only [List.length_map] at this
    omega
  | steps + 1, visited, key, threadId, endpoint, hn, hs, hf, he => by
    simp only [Store.anchorWalk] at he
    split at he
    · simp at he
    · next hk =>
      split at he
      · simp at he
      · split at he
        · simp at he
        · next r hr =>
          have hmem := child_mem_of_activeParent s key _ (activeParent_eq_some.2 ⟨r, hr, rfl⟩)
          exact anchorWalk_ne_exhausted (List.nodup_cons.2 ⟨hk, hn⟩) (List.cons_subset.2 ⟨hmem, hs⟩)
            (by simp only [List.length_cons]; omega) he

/-- **Anchor walks end** at a member, or at a root without one. -/
theorem RelationForest.anchorWalk_ends {s : Store} (h : RelationForest s) (key : Key) (threadId : Option Nat)
    (endpoint : ObservedEndpoint) :
    (∃ g k, s.anchorWalk s.walkSteps [] key threadId endpoint = .member g k) ∨
      ∃ k t e, s.anchorWalk s.walkSteps [] key threadId endpoint = .root k t e := by
  cases hw : s.anchorWalk s.walkSteps [] key threadId endpoint with
  | member g k => exact .inl ⟨g, k, rfl⟩
  | root k t e => exact .inr ⟨k, t, e, rfl⟩
  | revisited k t e => exact absurd hw (h.anchorWalk_ne_revisited (by simp) k t e)
  | exhausted =>
    exact absurd hw (anchorWalk_ne_exhausted List.nodup_nil (List.nil_subset _) (by simp [Store.walkSteps]))

/-! ## The worklist -/

/-- What a worklist invariant has to stand: popping a key, and each of the three
things that can happen to a child of the popped key. -/
structure Reassigns (target : Nat) (I : List RelationRow → List Key → List Key → Store → Prop) : Prop where
  pop : ∀ {parent queue enqueued s}, I [] (parent :: queue) enqueued s →
    I (s.listActiveByParent parent) queue enqueued s
  seen : ∀ {r todo queue enqueued s}, I (r :: todo) queue enqueued s → r.childThreadCanonicalKey ∈ enqueued →
    I todo queue enqueued s
  fixed : ∀ {r todo queue enqueued s m}, I (r :: todo) queue enqueued s → r.childThreadCanonicalKey ∉ enqueued →
    s.findCurrent r.childThreadCanonicalKey = some m → m.provenance = .operator →
    I todo queue (r.childThreadCanonicalKey :: enqueued) s
  placed : ∀ {r todo queue enqueued s s'}, I (r :: todo) queue enqueued s → r.childThreadCanonicalKey ∉ enqueued →
    (∀ m, s.findCurrent r.childThreadCanonicalKey = some m → m.provenance = .reconciler) →
    Memberships s → s.HasActive target →
    Placed r.childThreadId r.childThreadCanonicalKey r.childEndpoint target "" s s' →
    I todo (r.childThreadCanonicalKey :: queue) (r.childThreadCanonicalKey :: enqueued) s'

/-- An invariant that rests on a fixed fact. -/
theorem Reassigns.given {target : Nat} {I : List RelationRow → List Key → List Key → Store → Prop} {P : Prop}
    (h : P → Reassigns target I) : Reassigns target fun todo queue enqueued s => P ∧ I todo queue enqueued s where
  pop hi := ⟨hi.1, (h hi.1).pop hi.2⟩
  seen hi hs := ⟨hi.1, (h hi.1).seen hi.2 hs⟩
  fixed hi hn hm hop := ⟨hi.1, (h hi.1).fixed hi.2 hn hm hop⟩
  placed hi hn hauto hm ht hp := ⟨hi.1, (h hi.1).placed hi.2 hn hauto hm ht hp⟩

/-- An error of a reassignment: the child of some relation has an endpoint that cannot be stored. -/
def Store.UnplaceableChild (s : Store) (e : TxError) : Prop :=
  ∃ r ∈ s.relations, r.isActive = true ∧ Unplaceable r.childEndpoint e

/-- What every point of a reassignment keeps. -/
structure Reassigning (s₀ : Store) (target : Nat) (s : Store) : Prop where
  memberships : Memberships s
  active : s.HasActive target
  keeps : RegroupOnly s₀ s
  redirects : RedirectsResolve s₀ → RedirectsResolve s

theorem Reassigning.step {s₀ s s' : Store} {target : Nat} (h : Reassigning s₀ target s) {threadId : Option Nat}
    {key : Key} {endpoint : ObservedEndpoint} {anchorKey : Key}
    (hp : Placed threadId key endpoint target anchorKey s s') : Reassigning s₀ target s' where
  memberships := hp.memberships h.memberships h.active
  active := hp.hasActive_target h.active
  keeps := h.keeps.trans hp.keeps
  redirects hr := hp.redirects (h.redirects hr) h.active

theorem mem_listActiveByParent {s : Store} {key : Key} {r : RelationRow} :
    r ∈ s.listActiveByParent key ↔ r ∈ s.relations ∧ r.parentThreadCanonicalKey = key ∧ r.isActive = true := by
  rw [Store.listActiveByParent, List.mem_insertionSort, List.mem_filter]
  simp

/-- The enqueued keys are distinct, and all but the first of them children of active relations. -/
structure Worklist (s₀ : Store) (start : Key) (enqueued : List Key) : Prop where
  nodup : enqueued.Nodup
  subset : enqueued ⊆ start :: s₀.relations.map RelationRow.childThreadCanonicalKey

theorem Worklist.length_le {s₀ : Store} {start : Key} {enqueued : List Key} (h : Worklist s₀ start enqueued) :
    enqueued.length ≤ s₀.walkSteps := by
  have := (h.nodup.subperm h.subset).length_le
  simpa [Store.walkSteps] using this

theorem Worklist.cons {s₀ : Store} {start : Key} {enqueued : List Key} {r : RelationRow}
    (h : Worklist s₀ start enqueued) (hr : r ∈ s₀.relations) (hn : r.childThreadCanonicalKey ∉ enqueued) :
    Worklist s₀ start (r.childThreadCanonicalKey :: enqueued) :=
  ⟨List.nodup_cons.2 ⟨hn, h.nodup⟩,
    List.cons_subset.2 ⟨List.mem_cons_of_mem _ (List.mem_map_of_mem hr), h.subset⟩⟩

section Rule

variable {s₀ : Store} {target : Nat} {I : List RelationRow → List Key → List Key → Store → Prop} {start : Key}

theorem reassignChildren_rule (hI : Reassigns target I) : ∀ {todo queue enqueued s},
    (∀ r ∈ todo, r ∈ s₀.relations ∧ r.isActive = true) → Reassigning s₀ target s →
    Worklist s₀ start enqueued → I todo queue enqueued s →
    wp (reassignChildren target todo queue enqueued)
      (fun out s' => I [] out.1 out.2 s' ∧ Reassigning s₀ target s' ∧ Worklist s₀ start out.2 ∧
        out.1.length + enqueued.length ≤ queue.length + out.2.length)
      s₀.UnplaceableChild s
  | [], queue, enqueued, s, _, hs, hw, hi => ⟨hi, hs, hw, le_rfl⟩
  | r :: todo, queue, enqueued, s, htodo, hs, hw, hi => by
    have hrest : ∀ q ∈ todo, q ∈ s₀.relations ∧ q.isActive = true := fun q hq => htodo q (by simp [hq])
    obtain ⟨hr, hra⟩ := htodo r (by simp)
    simp only [reassignChildren]
    split
    · next hseen => exact reassignChildren_rule hI hrest hs hw (hI.seen hi hseen)
    · next hnew =>
      simp only [wp_bind, wp_get]
      cases hm : s.findCurrent r.childThreadCanonicalKey with
      | none =>
        simp only [Option.any_none, Bool.false_eq_true, if_false, wp_bind]
        refine (placeMember_spec hs.memberships hs.active ..).mono (fun _ s₁ hp => ?_)
          fun e he => ⟨r, hr, hra, he⟩
        refine (reassignChildren_rule hI hrest (hs.step hp) (hw.cons hr hnew)
          (hI.placed hi hnew (by simp [hm]) hs.memberships hs.active hp)).imp fun out s' hout => ?_
        obtain ⟨h₁, h₂, h₃, h₄⟩ := hout
        refine ⟨h₁, h₂, h₃, ?_⟩
        simp only [List.length_cons] at h₄
        omega
      | some m =>
        cases hprov : m.provenance with
        | operator =>
          simp only [Option.any_some, hprov, decide_true, if_true]
          refine (reassignChildren_rule hI hrest hs (hw.cons hr hnew) (hI.fixed hi hnew hm hprov)).imp
            fun out s' hout => ?_
          obtain ⟨h₁, h₂, h₃, h₄⟩ := hout
          refine ⟨h₁, h₂, h₃, ?_⟩
          simp only [List.length_cons] at h₄
          omega
        | reconciler =>
          simp only [Option.any_some, hprov, reduceCtorEq, decide_false, Bool.false_eq_true, if_false, wp_bind]
          refine (placeMember_spec hs.memberships hs.active ..).mono (fun _ s₁ hp => ?_)
            fun e he => ⟨r, hr, hra, he⟩
          have hauto : ∀ m', s.findCurrent r.childThreadCanonicalKey = some m' → m'.provenance = .reconciler := by
            intro m' hm'
            obtain rfl : m = m' := Option.some.inj (hm.symm.trans hm')
            exact hprov
          refine (reassignChildren_rule hI hrest (hs.step hp) (hw.cons hr hnew)
            (hI.placed hi hnew hauto hs.memberships hs.active hp)).imp fun out s' hout => ?_
          obtain ⟨h₁, h₂, h₃, h₄⟩ := hout
          refine ⟨h₁, h₂, h₃, ?_⟩
          simp only [List.length_cons] at h₄
          omega

theorem reassignLoop_rule (hI : Reassigns target I) : ∀ {steps queue enqueued s},
    s₀.walkSteps + queue.length ≤ steps + enqueued.length → Reassigning s₀ target s →
    Worklist s₀ start enqueued → I [] queue enqueued s →
    wp (reassignLoop target steps queue enqueued)
      (fun _ s' => (∃ enqueued', I [] [] enqueued' s') ∧ Reassigning s₀ target s')
      s₀.UnplaceableChild s
  | steps, [], enqueued, s, _, hs, _, hi => by
    cases steps <;> exact ⟨⟨enqueued, hi⟩, hs⟩
  | 0, p :: queue, enqueued, s, hf, _, hw, _ => by
    have := hw.length_le
    simp only [List.length_cons] at hf
    omega
  | steps + 1, p :: queue, enqueued, s, hf, hs, hw, hi => by
    simp only [reassignLoop, wp_bind, wp_get]
    refine (reassignChildren_rule hI (fun r hr => ?_) hs hw (hI.pop hi)).imp fun out s₁ hout => ?_
    · obtain ⟨hmem, -, hact⟩ := mem_listActiveByParent.1 hr
      exact ⟨hs.keeps.relations ▸ hmem, hact⟩
    · obtain ⟨h₁, h₂, h₃, h₄⟩ := hout
      refine reassignLoop_rule hI ?_ h₂ h₃ h₁
      simp only [List.length_cons] at hf
      omega

/-- **The reassignment rule.** An invariant of the worklist that holds with the
start key queued holds with nothing queued at the end, and the end is reached. -/
theorem reassign_rule (hI : Reassigns target I) {s : Store} (h : Memberships s) (ht : s.HasActive target)
    (hi : I [] [start] [start] s) :
    wp (reassignAutomaticDescendants start target)
      (fun _ s' => (∃ enqueued, I [] [] enqueued s') ∧ Reassigning s target s') s.UnplaceableChild s := by
  simp only [reassignAutomaticDescendants, wp_bind, wp_get]
  have hw : Worklist s start [start] := ⟨by simp, by simp⟩
  exact reassignLoop_rule hI (by simp) ⟨h, ht, refl_of _ s, id⟩ hw hi

end Rule

/-! ## The anchor group -/

variable [KeyHash]

/-- A group is found under its key, or made. -/
inductive Opened (s : Store) (rootKey : Key) (owner : Option Int) : Nat → Store → Prop where
  | found (g : GroupRow) (hg : g ∈ s.groups) (ha : g.isActive = true)
      (hk : g.groupCanonicalKey = reconcilerGroupCanonicalKey rootKey) : Opened s rootKey owner g.id s
  | made (userId : Int) (ho : owner = some userId)
      (hn : s.findActiveByCanonicalKey (reconcilerGroupCanonicalKey rootKey) = none) :
      Opened s rootKey owner s.nextId
        (s.addGroup userId (reconcilerGroupCanonicalKey rootKey) none .reconciler)

/-- The error of a group that has to be made for nobody. -/
def Ownerless (owner : Option Int) (e : TxError) : Prop :=
  owner = none ∧ e = .bail "cannot create a ThreadGroup without a saved subject ThreadGroup owner"

theorem findOrCreateReconcilerGroup_spec (s : Store) (rootKey : Key) (owner : Option Int) :
    wp (findOrCreateReconcilerGroup rootKey owner) (fun g s' => Opened s rootKey owner g s') (Ownerless owner) s := by
  simp only [findOrCreateReconcilerGroup, wp_bind, wp_get]
  split
  · next g hg =>
    obtain ⟨hmem, hact, hkey⟩ := find?_mem hg
    exact .found g hmem hact hkey
  · next hn =>
    cases owner with
    | none => exact ⟨rfl, rfl⟩
    | some userId =>
      rw [wp_createGroup]
      exact ⟨fun _ => .made userId rfl hn, by simp [hn]⟩

section Opened

variable {s s' : Store} {rootKey : Key} {owner : Option Int} {g : Nat}

theorem Opened.keeps (h : Opened s rootKey owner g s') : RegroupOnly s s' := by
  cases h with
  | found => exact refl_of _ s
  | made => exact ⟨rfl, Nat.le_succ _⟩

theorem Opened.memberships (h : Opened s rootKey owner g s') (hs : Memberships s) : Memberships s' := by
  cases h with
  | found => exact hs
  | made userId _ hn => exact hs.addGroup userId none .reconciler hn

theorem Opened.hasActive (h : Opened s rootKey owner g s') : s'.HasActive g := by
  cases h with
  | found row hg ha => exact ⟨row, hg, rfl, ha⟩
  | made => exact Memberships.hasActive_addGroup ..

theorem Opened.findCurrent (h : Opened s rootKey owner g s') (key : Key) : s'.findCurrent key = s.findCurrent key := by
  cases h <;> rfl

theorem Opened.redirects (h : Opened s rootKey owner g s') (hr : RedirectsResolve s) : RedirectsResolve s' := by
  cases h with
  | found => exact hr
  | made => exact hr.addGroup _ _ _ _

end Opened

/-- **What resolving an anchor can do.** It answers with the group of the first
member on the way up; without one, with the group of the topmost key, where that
key is placed if its thread is known. -/
inductive Anchored (parentThreadId : Option Nat) (parentKey : Key) (parent : ObservedEndpoint) (owner : Option Int)
    (s : Store) : Nat → Key → Store → Prop where
  | member (anchor : Key) (m : MemberRow) (hc : Climbs s.activeParent parentKey anchor)
      (hm : s.findCurrent anchor = some m)
      (hfirst : ∀ k, Climbs s.activeParent parentKey k → s.findCurrent k = none ∨ Climbs s.activeParent anchor k) :
      Anchored parentThreadId parentKey parent owner s m.groupId anchor s
  | root (anchor : Key) (threadId : Option Nat) (endpoint : ObservedEndpoint) (g : Nat) (s₁ s' : Store)
      (hroot : IsRoot s.activeParent parentKey anchor)
      (hnone : ∀ k, Climbs s.activeParent parentKey k → s.findCurrent k = none)
      (horigin : s.anchorOrigin (parentKey, parentThreadId, parent) (anchor, threadId, endpoint))
      (hopen : Opened s anchor owner g s₁) (hp : Placed threadId anchor endpoint g anchor s₁ s') :
      Anchored parentThreadId parentKey parent owner s g anchor s'

/-- The errors of resolving an anchor. -/
def Store.Unanchored (s : Store) (parent : ObservedEndpoint) (owner : Option Int) (e : TxError) : Prop :=
  Ownerless owner e ∨ Unplaceable parent e ∨ ∃ r ∈ s.relations, r.isActive = true ∧ Unplaceable r.parentEndpoint e

theorem resolveAnchorGroup_spec {s : Store} (h : Memberships s) (hf : RelationForest s) (parentThreadId : Option Nat)
    (parentKey : Key) (parent : ObservedEndpoint) (owner : Option Int) :
    wp (resolveAnchorGroup parentThreadId parentKey parent owner)
      (fun out s' => Anchored parentThreadId parentKey parent owner s out.1 out.2 s')
      (s.Unanchored parent owner) s := by
  simp only [resolveAnchorGroup, wp_bind, wp_get]
  rcases hf.anchorWalk_ends parentKey parentThreadId parent with ⟨g, k, hw⟩ | ⟨k, t, e, hw⟩
  · simp only [hw]
    obtain ⟨hc, ⟨m, hm, rfl⟩, hfirst⟩ := anchorWalk_member hw
    exact .member k m hc hm hfirst
  · simp only [hw]
    obtain ⟨hroot, hnone, ho⟩ := anchorWalk_root hw
    have hm := hnone k hroot.1
    simp only [anchorAt, wp_bind]
    refine (findOrCreateReconcilerGroup_spec s k owner).mono (fun g s₁ hopen => ?_) fun _ he => .inl he
    have hm₁ : s₁.findCurrent k = none := (hopen.findCurrent k).trans hm
    simp only [wp_get, hm₁, Option.isNone_none, if_true, wp_bind, wp_pure]
    refine (placeMember_spec (hopen.memberships h) hopen.hasActive ..).mono
      (fun _ s' hp => .root k t e g s₁ s' hroot hnone ho hopen hp) fun err he => ?_
    rcases ho with ⟨-, ho⟩ | ⟨-, r, hr, ha, ho⟩
    · obtain ⟨-, -, rfl⟩ := by simpa using ho
      exact .inr (.inl he)
    · obtain ⟨-, -, rfl⟩ := by simpa using ho
      exact .inr (.inr ⟨r, hr, ha, he⟩)

section Anchored

variable {parentThreadId : Option Nat} {parentKey : Key} {parent : ObservedEndpoint} {owner : Option Int}
  {s s' : Store} {g : Nat} {anchor : Key}

/-- After resolving an anchor its group is active, and the tables are in order. -/
theorem Anchored.reassigning (h : Anchored parentThreadId parentKey parent owner s g anchor s') (hs : Memberships s) :
    Reassigning s g s' := by
  cases h with
  | member _ m _ hm _ => exact ⟨hs, hs.hasActive_of_findCurrent hm, refl_of _ s, id⟩
  | root _ t e _ s₁ _ _ _ _ hopen hp =>
    exact Reassigning.step ⟨hopen.memberships hs, hopen.hasActive, hopen.keeps, hopen.redirects⟩ hp

end Anchored

/-! ## The whole placement of a subject -/

/-- The errors of `ensure_membership`. -/
def Store.Unensured (s : Store) (subject parent : ObservedEndpoint) (owner : Option Int) (e : TxError) : Prop :=
  s.Unanchored parent owner e ∨ Unplaceable subject e ∨ s.UnplaceableChild e

/-- **The membership rule.** An operator's member stays. Otherwise the anchor is
resolved, the subject placed in its group, and a worklist invariant carried from
there through the descendants. -/
theorem ensureMembership_rule {I : Nat → List RelationRow → List Key → List Key → Store → Prop} {s : Store}
    (hI : ∀ target, Reassigns target (I target)) (h : Memberships s) (hf : RelationForest s) {subjectThreadId : Nat}
    {subjectKey : Key} {subject : ObservedEndpoint} {parentThreadId : Option Nat} {parentKey : Key}
    {parent : ObservedEndpoint} {owner : Option Int}
    (hinit : (∀ m, s.findCurrent subjectKey = some m → m.provenance = .reconciler) →
      ∀ target anchor s₁ s₂, Anchored parentThreadId parentKey parent owner s target anchor s₁ →
        Reassigning s target s₁ → Placed (some subjectThreadId) subjectKey subject target anchor s₁ s₂ →
        I target [] [subjectKey] [subjectKey] s₂) :
    wp (ensureMembership subjectThreadId subjectKey subject parentThreadId parentKey parent owner)
      (fun _ s' => (s' = s ∧ ∃ m, s.findCurrent subjectKey = some m ∧ m.provenance = .operator) ∨
        ∃ target, (∃ enqueued, I target [] [] enqueued s') ∧ Reassigning s target s')
      (s.Unensured subject parent owner) s := by
  simp only [ensureMembership, wp_bind, wp_get]
  have hauto : (s.findCurrent subjectKey).any (·.provenance = .operator) = false →
      ∀ m, s.findCurrent subjectKey = some m → m.provenance = .reconciler := by
    intro hany m hm
    cases hprov : m.provenance with
    | reconciler => rfl
    | operator => simp [hm, hprov] at hany
  split
  · next hop =>
    cases hm : s.findCurrent subjectKey with
    | none => simp [hm] at hop
    | some m => exact .inl ⟨rfl, m, rfl, by simpa [hm] using hop⟩
  · next hop =>
    simp only [wp_bind]
    refine (resolveAnchorGroup_spec h hf ..).mono (fun out s₁ ha => ?_) fun _ he => .inl he
    have h₁ := ha.reassigning h
    refine (placeMember_spec h₁.memberships h₁.active ..).mono (fun _ s₂ hp => ?_) fun _ he => .inr (.inl he)
    have h₂ := h₁.step hp
    refine (reassign_rule (hI out.1) h₂.memberships h₂.active
      (hinit (hauto (by simpa using hop)) out.1 out.2 s₁ s₂ ha h₁ hp)).mono (fun _ s' hi => ?_)
      fun _ he => .inr (.inr ?_)
    · exact .inr ⟨out.1, hi.1, hi.2.memberships, hi.2.active, h₂.keeps.trans hi.2.keeps,
        fun hr => hi.2.redirects (h₂.redirects hr)⟩
    · rwa [Store.UnplaceableChild, ← h₂.keeps.relations]

end MemoryStore.ThreadGroup
