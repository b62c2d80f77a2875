/-
The two cycle tests. `would_create_cycle` goes down from the proposed child over
any list of edges; `ancestor_contains` goes up from the proposed parent, in a
database where a child has one active parent. Both answer whether the new edge
closes a cycle, and they agree where both apply.
-/
import MemoryStore.ThreadGroup.Adoption

namespace MemoryStore.ThreadGroup

open Forest Table

/-- `children_by_parent`: the children of a key, in the order of the edges. -/
def childrenByParent (activeEdges : List (Key × Key)) (key : Key) : List Key :=
  (activeEdges.filter fun edge => edge.1 = key).map Prod.snd

/-- The loop of `would_create_cycle`, with the top of `pending` first and a step budget; `none` when it runs out. -/
def cycleLoop (activeEdges : List (Key × Key)) (parentKey : Key) : Nat → List Key → List Key → Option Bool
  | 0, _, _ => none
  | _ + 1, [], _ => some false
  | steps + 1, current :: pending, visited =>
    if current ∈ visited then cycleLoop activeEdges parentKey steps pending visited
    else if current = parentKey then some true
    else cycleLoop activeEdges parentKey steps ((childrenByParent activeEdges current).reverse ++ pending)
      (current :: visited)

/-- `would_create_cycle`; each edge is pushed once, so the budget is enough (`cycleLoop_ends`). -/
def wouldCreateCycle (activeEdges : List (Key × Key)) (parentKey childKey : Key) : Bool :=
  if parentKey = childKey then true
  else (cycleLoop activeEdges parentKey (activeEdges.length + 2) [childKey] []).getD false

section Loop

variable {activeEdges : List (Key × Key)} {parentKey : Key}

/-- From a child to a parent. -/
def ToParent (activeEdges : List (Key × Key)) (child parent : Key) : Prop := (parent, child) ∈ activeEdges

/-- From a parent to a child. -/
def ToChild (activeEdges : List (Key × Key)) (parent child : Key) : Prop := (parent, child) ∈ activeEdges

theorem mem_childrenByParent {key child : Key} : child ∈ childrenByParent activeEdges key ↔ ToChild activeEdges key child := by
  simp [childrenByParent, ToChild]

/-- The edges that leave keys not yet visited. -/
def unvisitedEdges (activeEdges : List (Key × Key)) (visited : List Key) : List (Key × Key) :=
  activeEdges.filter fun edge => edge.1 ∉ visited

theorem length_unvisitedEdges {current : Key} {visited : List Key} (hn : current ∉ visited) :
    (unvisitedEdges activeEdges visited).length =
      (unvisitedEdges activeEdges (current :: visited)).length + (childrenByParent activeEdges current).length := by
  unfold unvisitedEdges childrenByParent
  induction activeEdges with
  | nil => rfl
  | cons edge rest ih =>
    by_cases hc : edge.1 = current
    · have hv : edge.1 ∉ visited := hc ▸ hn
      simp only [List.filter_cons, hc, hn, not_false_eq_true, decide_true, if_true, List.length_cons, List.mem_cons,
        true_or, not_true_eq_false, decide_false, Bool.false_eq_true, if_false, List.map_cons] at ih ⊢
      omega
    · by_cases hv : edge.1 ∈ visited
      · simpa [List.filter_cons, hc, hv] using ih
      · simp only [List.filter_cons, hc, hv, not_false_eq_true, decide_true, if_true, List.length_cons, List.mem_cons,
          false_or, decide_false, Bool.false_eq_true, if_false] at ih ⊢
        omega

/-- **The loop ends** within one step for each pending key and each edge not yet pushed, and one more. -/
theorem cycleLoop_ends : ∀ {steps : Nat} {pending visited : List Key},
    pending.length + (unvisitedEdges activeEdges visited).length < steps →
      (cycleLoop activeEdges parentKey steps pending visited).isSome = true
  | 0, _, _, h => by omega
  | steps + 1, [], _, _ => rfl
  | steps + 1, current :: pending, visited, h => by
    simp only [List.length_cons] at h
    simp only [cycleLoop]
    split
    · exact cycleLoop_ends (by omega)
    · next hn =>
      split
      · rfl
      · have hlen := @length_unvisitedEdges activeEdges current visited hn
        refine cycleLoop_ends ?_
        simp only [List.length_append, List.length_reverse]
        omega

/-- What the loop keeps: visited keys are not the parent, and their children are visited or pending. -/
structure Searching (activeEdges : List (Key × Key)) (parentKey : Key) (pending visited : List Key) : Prop where
  missed : parentKey ∉ visited
  closed : ∀ a ∈ visited, ∀ b, ToChild activeEdges a b → b ∈ visited ∨ b ∈ pending

theorem Searching.visit {current : Key} {pending visited : List Key}
    (h : Searching activeEdges parentKey (current :: pending) visited) (hne : current ≠ parentKey) :
    Searching activeEdges parentKey ((childrenByParent activeEdges current).reverse ++ pending) (current :: visited) where
  missed hm := by
    rcases List.mem_cons.1 hm with he | hm
    · exact hne he.symm
    · exact h.missed hm
  closed a ha b hab := by
    rcases List.mem_cons.1 ha with rfl | ha
    · exact .inr (List.mem_append_left _ (List.mem_reverse.2 (mem_childrenByParent.2 hab)))
    · rcases h.closed a ha b hab with hb | hb
      · exact .inl (List.mem_cons_of_mem _ hb)
      · rcases List.mem_cons.1 hb with rfl | hb
        · exact .inl List.mem_cons_self
        · exact .inr (List.mem_append_right _ hb)

/-- The answer: some pending key leads down to the parent. -/
theorem cycleLoop_iff : ∀ {steps : Nat} {pending visited : List Key} {found : Bool},
    Searching activeEdges parentKey pending visited → cycleLoop activeEdges parentKey steps pending visited = some found →
      (found = true ↔ ∃ k ∈ pending, Relation.ReflTransGen (ToChild activeEdges) k parentKey)
  | 0, _, _, _, _, h => by simp [cycleLoop] at h
  | steps + 1, [], visited, found, _, h => by
    obtain rfl : false = found := Option.some.inj h
    simp
  | steps + 1, current :: pending, visited, found, hs, h => by
    simp only [cycleLoop] at h
    split at h
    · next hv =>
      have hs' : Searching activeEdges parentKey pending visited := ⟨hs.missed, fun a ha b hab => by
        rcases hs.closed a ha b hab with hb | hb
        · exact .inl hb
        · rcases List.mem_cons.1 hb with rfl | hb
          · exact .inl hv
          · exact .inr hb⟩
      rw [cycleLoop_iff hs' h]
      constructor
      · rintro ⟨k, hk, hp⟩
        exact ⟨k, List.mem_cons_of_mem _ hk, hp⟩
      · rintro ⟨k, hk, hp⟩
        rcases List.mem_cons.1 hk with rfl | hk
        · -- A path from a visited key leaves the visited keys through a pending one.
          have hleave : ∀ a, Relation.ReflTransGen (ToChild activeEdges) a parentKey → a ∈ visited →
              ∃ k ∈ pending, Relation.ReflTransGen (ToChild activeEdges) k parentKey := by
            intro a ha
            induction ha using Relation.ReflTransGen.head_induction_on with
            | refl => exact fun hm => absurd hm hs.missed
            | head hab hb ih =>
              intro hm
              rcases hs'.closed _ hm _ hab with hv' | hp'
              · exact ih hv'
              · exact ⟨_, hp', hb⟩
          exact hleave k hp hv
        · exact ⟨k, hk, hp⟩
    · next hv =>
      split at h
      · next he =>
        obtain rfl : true = found := Option.some.inj h
        exact iff_of_true rfl ⟨current, List.mem_cons_self, he ▸ .refl⟩
      · next hne =>
        rw [cycleLoop_iff (hs.visit hne) h]
        constructor
        · rintro ⟨k, hk, hp⟩
          rcases List.mem_append.1 hk with hk | hk
          · exact ⟨current, List.mem_cons_self, .head (mem_childrenByParent.1 (List.mem_reverse.1 hk)) hp⟩
          · exact ⟨k, List.mem_cons_of_mem _ hk, hp⟩
        · rintro ⟨k, hk, hp⟩
          rcases List.mem_cons.1 hk with rfl | hk
          · rcases hp.cases_head with rfl | ⟨b, hb, hbp⟩
            · exact absurd rfl hne
            · exact ⟨b, List.mem_append_left _ (List.mem_reverse.2 (mem_childrenByParent.2 hb)), hbp⟩
          · exact ⟨k, List.mem_append_right _ hk, hp⟩

theorem cycleLoop_eq (childKey : Key) {steps : Nat} (h : activeEdges.length + 2 ≤ steps) :
    ∃ found, cycleLoop activeEdges parentKey steps [childKey] [] = some found ∧
      (found = true ↔ Relation.ReflTransGen (ToChild activeEdges) childKey parentKey) := by
  have hlen : (unvisitedEdges activeEdges []).length ≤ activeEdges.length := List.length_filter_le _ _
  have hends : (cycleLoop activeEdges parentKey steps [childKey] []).isSome = true :=
    cycleLoop_ends (by simp only [List.length_singleton]; omega)
  obtain ⟨found, hfound⟩ := Option.isSome_iff_exists.1 hends
  refine ⟨found, hfound, (cycleLoop_iff ⟨by simp, by simp⟩ hfound).trans ?_⟩
  simp

theorem wouldCreateCycle_iff (childKey : Key) : wouldCreateCycle activeEdges parentKey childKey = true ↔
    Relation.ReflTransGen (ToChild activeEdges) childKey parentKey := by
  unfold wouldCreateCycle
  split
  · next he => exact iff_of_true rfl (he ▸ .refl)
  · obtain ⟨found, hfound, hiff⟩ := @cycleLoop_eq activeEdges parentKey childKey _ (Nat.le_refl _)
    rw [hfound]
    exact hiff

end Loop

/-! ## The database walk -/

/-- The active relations as edges from parent to child. -/
def Store.activeEdges (s : Store) : List (Key × Key) :=
  (s.relations.filter RelationRow.isActive).map fun r => (r.parentThreadCanonicalKey, r.childThreadCanonicalKey)

/-- With one active parent for each child, the edges are the way up. -/
theorem toParent_activeEdges {s : Store} (h : UniqueWhere RelationRow.isActive RelationRow.childThreadCanonicalKey s.relations)
    (child parent : Key) : ToParent s.activeEdges child parent ↔ s.activeParent child = some parent := by
  have hfind : ∀ {r}, s.findActiveByChild child = some r ↔ r ∈ s.relations ∧ r.isActive = true ∧
      r.childThreadCanonicalKey = child := h.find?_eq_some
  simp only [ToParent, Store.activeEdges, List.mem_map, List.mem_filter, Prod.mk.injEq, activeParent_eq_some, hfind]
  constructor
  · rintro ⟨r, ⟨hr, ha⟩, rfl, rfl⟩
    exact ⟨r, ⟨hr, ha, rfl⟩, rfl⟩
  · rintro ⟨r, ⟨hr, ha, rfl⟩, rfl⟩
    exact ⟨r, ⟨hr, ha⟩, rfl, rfl⟩

theorem ancestorContains_iff_climbs (s : Store) (start target : Key) :
    s.ancestorContains start target = true ↔ Climbs s.activeParent start target := by
  have hstops := walk_stops_iff (child_mem_of_activeParent s) (fun key => key = target)
    (show _ < s.walkSteps by simp [Store.walkSteps]) start
  have hanswer : s.ancestorContains start target = true ↔ ∃ t, s.ancestorWalk start target = .stopped t := by
    unfold Store.ancestorContains
    split
    · next t ht => exact iff_of_true rfl ⟨t, ht⟩
    · next hnot => exact iff_of_false (by simp) fun hex => hex.elim hnot
  rw [hanswer]
  refine hstops.trans ⟨fun hex => ?_, fun hc => ⟨target, hc, by simp⟩⟩
  obtain ⟨t, hc, ht⟩ := hex
  obtain rfl : t = target := by simpa using ht
  exact hc

/-! ## The cycle test -/

theorem reflTransGen_toChild {activeEdges : List (Key × Key)} {child parent : Key} :
    Relation.ReflTransGen (ToChild activeEdges) child parent ↔ Relation.ReflTransGen (ToParent activeEdges) parent child := by
  rw [← Relation.reflTransGen_swap]
  rfl

/-- A way back to the child need not take the new edge. -/
theorem back_without_new {activeEdges : List (Key × Key)} {child parent : Key} :
    Relation.ReflTransGen (ToParent ((parent, child) :: activeEdges)) parent child ↔
      Relation.ReflTransGen (ToParent activeEdges) parent child := by
  constructor
  · have hold : ∀ a, Relation.ReflTransGen (ToParent ((parent, child) :: activeEdges)) a child →
        Relation.ReflTransGen (ToParent activeEdges) a child := by
      intro a h
      induction h using Relation.ReflTransGen.head_induction_on with
      | refl => exact .refl
      | head hab _ ih =>
        rcases List.mem_cons.1 hab with he | hab
        · obtain ⟨-, rfl⟩ := Prod.mk.inj he
          exact .refl
        · exact .head hab ih
    exact hold parent
  · exact fun h => Relation.ReflTransGen.mono (fun _ _ hab => List.mem_cons_of_mem _ hab) _ _ h

/-- **The cycle test is exact.** Whatever the edges, the loop ends, and it answers whether the child is the parent or the
new edge from the child to the parent lies on a cycle: whether the parent leads back to the child. Where a child has one
active parent at most, the database walk gives the same answer. -/
theorem wouldCreateCycle_exact (activeEdges : List (Key × Key)) (parentKey childKey : Key) :
    (∀ steps, activeEdges.length + 2 ≤ steps →
      (cycleLoop activeEdges parentKey steps [childKey] []).isSome = true) ∧
    (wouldCreateCycle activeEdges parentKey childKey = true ↔ childKey = parentKey ∨
      Relation.TransGen (ToParent ((parentKey, childKey) :: activeEdges)) parentKey childKey) ∧
    (∀ s : Store, UniqueWhere RelationRow.isActive RelationRow.childThreadCanonicalKey s.relations →
      wouldCreateCycle s.activeEdges parentKey childKey = s.ancestorContains parentKey childKey) := by
  refine ⟨fun steps h => ?_, ?_, fun s hs => ?_⟩
  · obtain ⟨found, hfound, -⟩ := @cycleLoop_eq activeEdges parentKey childKey steps h
    rw [hfound]
    rfl
  · rw [wouldCreateCycle_iff, reflTransGen_toChild, ← back_without_new, Relation.reflTransGen_iff_eq_or_transGen]
  · rw [Bool.eq_iff_iff, wouldCreateCycle_iff, reflTransGen_toChild, ancestorContains_iff_climbs]
    have hup : ToParent s.activeEdges = Up s.activeParent := by
      funext a b
      exact propext (toParent_activeEdges hs a b)
    rw [hup]

/-- An active relation between two keys. -/
def activeRelation (id : Nat) (parentKey childKey : Key) : RelationRow where
  id := id
  parentThreadId := none
  childThreadId := none
  parentThreadCanonicalKey := parentKey
  childThreadCanonicalKey := childKey
  parentUserId := 1
  parentIdentity := none
  childUserId := 1
  childIdentity := none
  relationType := .delegated
  state := .active
  selection := .sourceStrong 1

/-- Two tables that hold a cycle already, and a child that is on no cycle. -/
theorem cycle_tests_agree_on_a_cycle :
    wouldCreateCycle { Store.empty with relations := [activeRelation 1 "a" "b", activeRelation 2 "b" "a"] }.activeEdges "a" "c" =
      { Store.empty with relations := [activeRelation 1 "a" "b", activeRelation 2 "b" "a"] }.ancestorContains "a" "c" :=
  (wouldCreateCycle_exact [] "a" "c").2.2 { Store.empty with relations := [activeRelation 1 "a" "b", activeRelation 2 "b" "a"] }
    (by unfold UniqueWhere; decide)

end MemoryStore.ThreadGroup
