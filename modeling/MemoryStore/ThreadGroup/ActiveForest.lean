/-
The active relations are a forest in every reachable store, so every walk up
them ends at a root or at what it looks for, and no insert of a relation runs
into the index on active children.
-/
import MemoryStore.ThreadGroup.ActionOutcome
import MemoryStore.ThreadGroup.Scenario

namespace MemoryStore.ThreadGroup

open Forest Table

/-- Some active relation goes from this child up to this parent. -/
def ActiveEdge (relations : List RelationRow) (child parent : Key) : Prop :=
  ∃ r ∈ relations, r.isActive = true ∧ r.childThreadCanonicalKey = child ∧ r.parentThreadCanonicalKey = parent

/-- Every child key has at most one active relation, and no key is above itself. -/
structure ActiveForest (relations : List RelationRow) : Prop where
  oneParent : ∀ key, (relations.filter fun r => r.isActive && r.childThreadCanonicalKey = key).length ≤ 1
  noCycle : ∀ key, ¬ Relation.TransGen (ActiveEdge relations) key key

/-- Over these relations, whatever else is in the store, the walk of `ancestor_contains`
ends at its target or at a root, and the walk of `resolve_anchor_group` at a current
member or at a root: neither is ever stopped by its visited guard or its step budget. -/
structure WalksEnd (relations : List RelationRow) : Prop where
  ancestor : ∀ s : Store, s.relations = relations → ∀ startKey targetKey,
    s.ancestorWalk startKey targetKey = .stopped targetKey ∨
      ∃ root, s.ancestorWalk startKey targetKey = .root root ∧ ∀ parent, ¬ ActiveEdge relations root parent
  anchor : ∀ s : Store, s.relations = relations → ∀ parentKey parentThreadId parent,
    (∃ groupId key, s.anchorWalk s.walkSteps [] parentKey parentThreadId parent = .member groupId key) ∨
      ∃ root threadId endpoint, s.anchorWalk s.walkSteps [] parentKey parentThreadId parent = .root root threadId endpoint ∧
        ∀ parent, ¬ ActiveEdge relations root parent

section Forests

variable {s : Store}

theorem RelationForest.activeEdge_iff (h : RelationForest s) {child parent : Key} :
    ActiveEdge s.relations child parent ↔ Up s.activeParent child parent := by
  simp only [ActiveEdge, Up, activeParent_eq_some, h.findActiveByChild_eq_some, and_assoc]

theorem RelationForest.not_activeEdge (h : RelationForest s) {root : Key} (hr : s.activeParent root = none)
    (parent : Key) : ¬ ActiveEdge s.relations root parent := by
  rw [h.activeEdge_iff, Up, hr]
  simp

theorem RelationForest.activeForest (h : RelationForest s) : ActiveForest s.relations where
  oneParent key := by
    have hnd : ((s.relations.filter fun r => r.isActive && r.childThreadCanonicalKey = key).map
        RelationRow.childThreadCanonicalKey).Nodup := by
      have := h.child.filter (fun r => r.childThreadCanonicalKey = key)
      rw [UniqueWhere, List.filter_filter] at this
      simpa [Bool.and_comm] using this
    rw [← List.length_map RelationRow.childThreadCanonicalKey]
    refine List.Subperm.length_le (show List.Subperm _ [key] from hnd.subperm fun k hk => ?_)
    obtain ⟨r, hr, rfl⟩ := List.mem_map.1 hk
    have := (List.mem_filter.1 hr).2
    simp_all
  noCycle key hk := h.acyclic key (Relation.TransGen.mono (fun _ _ => h.activeEdge_iff.1) _ _ hk)

theorem RelationForest.walksEnd (h : RelationForest s) : WalksEnd s.relations where
  ancestor s' hs' startKey targetKey := by
    have h' : RelationForest s' := h.congr hs'
    rcases h'.acyclic.walk_ends (child_mem_of_activeParent s') (fun key => key = targetKey)
      (show _ < s'.walkSteps by simp [Store.walkSteps]) startKey with ⟨t, ht⟩ | ⟨root, hr⟩
    · obtain rfl : t = targetKey := by simpa using (walk_stopped ht).2
      exact .inl ht
    · exact .inr ⟨root, hr, hs' ▸ h'.not_activeEdge (walk_root hr).1.2⟩
  anchor s' hs' parentKey parentThreadId parent := by
    have h' : RelationForest s' := h.congr hs'
    rcases h'.anchorWalk_ends parentKey parentThreadId parent with hm | ⟨root, t, e, hr⟩
    · exact .inl hm
    · exact .inr ⟨root, t, e, hr, hs' ▸ h'.not_activeEdge (anchorWalk_root hr).1.2⟩

/-- What a writer leaves for its anchor walk: the incumbent of the child is out of the way, and
the new relation passed the ancestor check. -/
theorem RelationForest.inserted (h : RelationForest s) {row : RelationRow} (ha : row.isActive = true)
    (hcheck : s.ancestorContains row.parentThreadCanonicalKey row.childThreadCanonicalKey = false) :
    RelationForest ((s.superseded row.childThreadCanonicalKey).relate row) := by
  have hno : ¬ Climbs s.activeParent row.parentThreadCanonicalKey row.childThreadCanonicalKey := fun hc => by
    simp [h.ancestorContains_iff.2 hc] at hcheck
  have hs : RelationForest (s.superseded row.childThreadCanonicalKey) := by
    unfold Store.superseded
    split
    · exact h
    · exact h.endRelation _ (by decide)
  exact hs.relate ha (h.findActiveByChild_superseded _) (h.not_climbs_superseded hno)

end Forests

end MemoryStore.ThreadGroup
