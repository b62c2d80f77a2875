/-
The cycle report of the relation repair
(`grpc-admin/src/db_migrate/thread_groups_user_ids_v3.rs`): the keys of the projected
relations that lie on a directed cycle, found as the strongly connected components
with two keys or a self edge.
-/
import MemoryStore.Lib.Components
import MemoryStore.Lib.KeyMap

namespace MemoryStore.DataMigration

open Components

/-! ## The report -/

/-- `entry(key).or_default()` -/
def touch (map : KeyMap String (List String)) (key : String) : KeyMap String (List String) :=
  map.insert key ((map.lookup key).getD [])

/-- One edge in a map from the one end to the others: both ends become keys. -/
def addEdge (map : KeyMap String (List String)) (edge : String × String) : KeyMap String (List String) :=
  touch (map.push edge.1 edge.2) edge.2

/-- `sort_unstable` and `dedup`. -/
def sortDedup (keys : List String) : List String := (keys.insertionSort (· ≤ ·)).dedup

/-- The entry of a key, sorted and without duplicates. -/
def entryOf (map : KeyMap String (List String)) (node : String) : List String := sortDedup ((map.lookup node).getD [])

/-- The keys of the components with two keys or a self edge. -/
def cyclicKeys (next : String → List String) (components : List (List String)) : List String :=
  (components.filter fun component => 1 < component.length || component.any fun node => node ∈ next node).flatten

/-- `find_cycle_nodes_from_edges`. A step of each loop is counted; they end within the count. -/
def findCycleNodesFromEdges (edges : List (String × String)) : Option (List String) :=
  let adjacency := edges.foldl addEdge ∅
  let reverse := (edges.map Prod.swap).foldl addEdge ∅
  let nodes := adjacency.keys.insertionSort (· ≤ ·)
  let steps := weight (entryOf adjacency) nodes [] + 2
  match finishAll (entryOf adjacency) steps nodes [] [] with
  | none => none
  | some finished =>
    (gatherAll (entryOf reverse) steps finished []).map (cyclicKeys (entryOf adjacency))

/-- `find_cycle_nodes` -/
def findCycleNodes (adjacency : KeyMap String (List String)) : Option (List String) :=
  findCycleNodesFromEdges (adjacency.entries.flatMap fun entry => entry.2.map (entry.1, ·))

/-! ## The projected relations -/

structure RelationRow where
  parentKey : String
  childKey : String
  state : String
  deriving DecidableEq, Repr

structure MismatchRow where
  oldKey : String
  savedKey : String
  deriving DecidableEq, Repr

/-- A key as the repair would have it; of two mismatches of one key the later counts. -/
def project (mismatches : List MismatchRow) (key : String) : String :=
  ((mismatches.filter (·.oldKey = key)).getLast?.map MismatchRow.savedKey).getD key

/-- The edges of the active relations under the repair. -/
def projectedEdges (relations : List RelationRow) (mismatches : List MismatchRow) : List (String × String) :=
  (relations.filter (·.state = "active")).map fun r => (project mismatches r.parentKey, project mismatches r.childKey)

/-- `cyclic_nodes` of `inspect_projected_relation_graph`. -/
def cyclicNodes (relations : List RelationRow) (mismatches : List MismatchRow) : Option (List String) :=
  findCycleNodes ((projectedEdges relations mismatches).foldl addEdge ∅)

/-! ## The maps -/

theorem mem_sortDedup {keys : List String} {key : String} : key ∈ sortDedup keys ↔ key ∈ keys := by
  rw [sortDedup, List.mem_dedup, List.mem_insertionSort]

theorem lookup_touch (map : KeyMap String (List String)) (key k : String) :
    (touch map key).lookup k = if k = key then some ((map.lookup key).getD []) else map.lookup k := by
  unfold touch
  split
  next h => rw [h, AList.lookup_insert]
  next h => rw [AList.lookup_insert_ne h]

theorem mem_lookup_addEdge (map : KeyMap String (List String)) (edge : String × String) (a b : String) :
    b ∈ ((addEdge map edge).lookup a).getD [] ↔ b ∈ (map.lookup a).getD [] ∨ (a, b) = edge := by
  obtain ⟨parent, child⟩ := edge
  have htouch : ∀ m : KeyMap String (List String), ((touch m child).lookup a).getD [] = (m.lookup a).getD [] := by
    intro m
    rw [lookup_touch]
    split
    next h => rw [h, Option.getD_some]
    next h => rfl
  rw [addEdge, htouch, KeyMap.lookup_push]
  by_cases ha : a = parent
  · subst ha
    simp
  · simp [ha]

theorem isSome_lookup_addEdge (map : KeyMap String (List String)) (edge : String × String) (k : String) :
    ((addEdge map edge).lookup k).isSome ↔ (map.lookup k).isSome ∨ k = edge.1 ∨ k = edge.2 := by
  rw [addEdge, lookup_touch]
  by_cases h2 : k = edge.2
  · simp [h2]
  · rw [if_neg h2, KeyMap.lookup_push]
    by_cases h1 : k = edge.1 <;> simp [h1, h2]

/-- Both maps hold the edges, and their keys are the ends of the edges. -/
theorem foldl_addEdge (edges : List (String × String)) : ∀ map : KeyMap String (List String),
    (∀ a b, b ∈ ((edges.foldl addEdge map).lookup a).getD [] ↔ b ∈ (map.lookup a).getD [] ∨ (a, b) ∈ edges) ∧
      ∀ k, ((edges.foldl addEdge map).lookup k).isSome ↔
        (map.lookup k).isSome ∨ ∃ edge ∈ edges, k = edge.1 ∨ k = edge.2 := by
  induction edges with
  | nil => intro map; simp
  | cons edge edges ih =>
    intro map
    obtain ⟨hedge, hkey⟩ := ih (addEdge map edge)
    refine ⟨fun a b => ?_, fun k => ?_⟩
    · rw [List.foldl_cons, hedge, mem_lookup_addEdge, List.mem_cons, or_assoc]
    · rw [List.foldl_cons, hkey, isSome_lookup_addEdge, List.exists_mem_cons_iff, or_assoc]

theorem mem_entryOf {edges : List (String × String)} {a b : String} :
    b ∈ entryOf (edges.foldl addEdge ∅) a ↔ (a, b) ∈ edges := by
  rw [entryOf, mem_sortDedup, (foldl_addEdge edges ∅).1, AList.lookup_empty]
  simp

theorem mem_keys_edges {edges : List (String × String)} {k : String} :
    k ∈ (edges.foldl addEdge ∅).keys ↔ ∃ edge ∈ edges, k = edge.1 ∨ k = edge.2 := by
  rw [KeyMap.mem_keys_iff, (foldl_addEdge edges ∅).2, AList.lookup_empty]
  simp

/-! ## Exactness -/

/-- A key that a path of at least one edge leads from and back to. -/
def OnCycle (edges : List (String × String)) (key : String) : Prop :=
  Relation.TransGen (fun parent child => (parent, child) ∈ edges) key key

/-- The report is made, and it is the keys on a cycle; so it is empty exactly when there is no cycle. -/
def CycleReport (edges : List (String × String)) (report : Option (List String)) : Prop :=
  ∃ cyclic, report = some cyclic ∧ (∀ key, key ∈ cyclic ↔ OnCycle edges key) ∧
    (cyclic = [] ↔ ∀ key, ¬OnCycle edges key)

/-- The components with two keys or a self edge are made of the keys on cycles. -/
theorem mem_cyclic_iff {next : String → List String} {edges : List (String × String)}
    (hnext : ∀ a b, b ∈ next a ↔ (a, b) ∈ edges) {component : List String} (hc : IsComponent next component)
    {key : String} (hkey : key ∈ component) :
    (1 < component.length || component.any fun node => node ∈ next node) = true ↔ OnCycle edges key := by
  obtain ⟨hn, root, hmem⟩ := hc
  have hstep : (fun a b => b ∈ next a) = fun a b => (a, b) ∈ edges := by
    funext a b
    exact propext (hnext a b)
  have hreach : ∀ {a b : String}, Reaches next a b ↔ Relation.ReflTransGen (fun a b => (a, b) ∈ edges) a b := by
    intro a b
    unfold Reaches
    rw [hstep]
  have hmutual : ∀ {a b : String}, a ∈ component → b ∈ component → Reaches next a b := fun ha hb =>
    Relation.ReflTransGen.trans ((hmem _).1 ha).1 ((hmem _).1 hb).2
  have htwo : ∀ {other : String}, other ∈ component → other ≠ key → OnCycle edges key := by
    intro other hother hne
    have hthere := hreach.1 (hmutual hkey hother)
    have hback := hreach.1 (hmutual hother hkey)
    rcases Relation.reflTransGen_iff_eq_or_transGen.1 hthere with heq | hpath
    · exact absurd heq hne
    · exact hpath.trans_left hback
  simp only [Bool.or_eq_true, decide_eq_true_eq, List.any_eq_true]
  constructor
  · rintro (hlen | ⟨node, hnode, hself⟩)
    · obtain ⟨other, hother, hne⟩ : ∃ other ∈ component, other ≠ key := by
        by_contra hall
        simp only [not_exists, not_and, not_not] at hall
        have hle : component.length ≤ [key].length :=
          (List.subperm_of_subset hn fun x hx => List.mem_singleton.2 (hall x hx)).length_le
        simp only [List.length_singleton] at hle
        omega
      exact htwo hother hne
    · by_cases heq : node = key
      · subst heq
        exact .single ((hnext _ _).1 hself)
      · exact htwo hnode heq
  · intro hcycle
    obtain ⟨child, hedge, hback⟩ := Relation.TransGen.head'_iff.1 hcycle
    have hchild : child ∈ component := by
      refine (hmem child).2 ⟨Relation.ReflTransGen.trans (hreach.2 hback) ((hmem key).1 hkey).1, ?_⟩
      exact Relation.ReflTransGen.tail ((hmem key).1 hkey).2 ((hnext key child).2 hedge)
    by_cases heq : child = key
    · subst heq
      exact .inr ⟨child, hkey, (hnext _ _).2 hedge⟩
    · left
      have hle : [child, key].length ≤ component.length := by
        refine (List.subperm_of_subset (by simpa using heq) fun x hx => ?_).length_le
        rcases List.mem_cons.1 hx with rfl | hx
        · exact hchild
        · obtain rfl := List.mem_singleton.1 hx
          exact hkey
      exact hle

theorem findCycleNodesFromEdges_exact (edges : List (String × String)) :
    CycleReport edges (findCycleNodesFromEdges edges) := by
  let next := entryOf (edges.foldl addEdge ∅)
  let prev := entryOf ((edges.map Prod.swap).foldl addEdge ∅)
  let nodes := (edges.foldl addEdge ∅).keys.insertionSort (· ≤ ·)
  have hnext : ∀ a b, b ∈ next a ↔ (a, b) ∈ edges := fun a b => mem_entryOf
  have hprev : ∀ a b, b ∈ prev a ↔ (b, a) ∈ edges := by
    intro a b
    rw [show b ∈ prev a ↔ (a, b) ∈ edges.map Prod.swap from mem_entryOf]
    simp
  have hnodes : ∀ k, k ∈ nodes ↔ ∃ edge ∈ edges, k = edge.1 ∨ k = edge.2 := by
    intro k
    rw [show k ∈ nodes ↔ _ from List.mem_insertionSort _, mem_keys_edges]
  have hnd : nodes.Nodup := (List.perm_insertionSort _ _).nodup_iff.2 (edges.foldl addEdge ∅).keys_nodup
  obtain ⟨finished, components, hfinish, hgather, hexact, hcover⟩ := components_exact
    (fun x _ y hy => (hnodes y).2 ⟨(x, y), (hnext x y).1 hy, .inr rfl⟩)
    (fun x _ y hy => (hnodes y).2 ⟨(y, x), (hprev x y).1 hy, .inl rfl⟩)
    (fun a b => (hnext a b).trans (hprev b a).symm) hnd
    (show weight next nodes [] + 1 < weight next nodes [] + 2 by omega)
  have hreport : findCycleNodesFromEdges edges = some (cyclicKeys next components) := by
    show (match finishAll next (weight next nodes [] + 2) nodes [] [] with
      | none => none
      | some finished => (gatherAll prev (weight next nodes [] + 2) finished []).map (cyclicKeys next)) = _
    rw [hfinish]
    dsimp only
    rw [hgather]
    rfl
  have hcyclic : ∀ key, key ∈ cyclicKeys next components ↔ OnCycle edges key := by
    intro key
    rw [cyclicKeys, List.mem_flatten]
    constructor
    · rintro ⟨component, hc, hkey⟩
      obtain ⟨hc, htest⟩ := List.mem_filter.1 hc
      exact (mem_cyclic_iff hnext (hexact component hc) hkey).1 htest
    · intro hcycle
      obtain ⟨child, hedge, -⟩ := Relation.TransGen.head'_iff.1 hcycle
      obtain ⟨component, hc, hkey⟩ := hcover key ((hnodes key).2 ⟨(key, child), hedge, .inl rfl⟩)
      exact ⟨component, List.mem_filter.2 ⟨hc, (mem_cyclic_iff hnext (hexact component hc) hkey).2 hcycle⟩, hkey⟩
  refine ⟨_, hreport, hcyclic, ?_⟩
  rw [List.eq_nil_iff_forall_not_mem]
  exact forall_congr' fun key => not_congr (hcyclic key)

theorem findCycleNodes_exact (edges : List (String × String)) :
    CycleReport edges (findCycleNodes (edges.foldl addEdge ∅)) := by
  have hedges : ∀ a b, (a, b) ∈ ((edges.foldl addEdge ∅).entries.flatMap fun entry => entry.2.map (entry.1, ·)) ↔
      (a, b) ∈ edges := by
    intro a b
    rw [← @mem_entryOf edges a b, entryOf, mem_sortDedup, List.mem_flatMap]
    constructor
    · rintro ⟨⟨k, children⟩, he, hb⟩
      obtain ⟨child, hchild, heq⟩ := List.mem_map.1 hb
      obtain ⟨rfl, rfl⟩ := Prod.mk.inj heq
      rw [AList.mem_lookup_iff.2 he, Option.getD_some]
      exact hchild
    · intro hb
      cases hl : (edges.foldl addEdge ∅).lookup a with
      | none => simp [hl] at hb
      | some children =>
        rw [hl, Option.getD_some] at hb
        exact ⟨⟨a, children⟩, AList.mem_lookup_iff.1 hl, List.mem_map_of_mem hb⟩
  have hcycle : ∀ key, OnCycle ((edges.foldl addEdge ∅).entries.flatMap fun entry => entry.2.map (entry.1, ·)) key ↔
      OnCycle edges key := by
    intro key
    unfold OnCycle
    simp only [hedges]
  obtain ⟨cyclic, hreport, hmem, hempty⟩ := findCycleNodesFromEdges_exact
    ((edges.foldl addEdge ∅).entries.flatMap fun entry => entry.2.map (entry.1, ·))
  simp only [hcycle] at hmem hempty
  exact ⟨cyclic, hreport, hmem, hempty⟩

/-- **The cycle report is exact**: both ways of asking for it end with the keys on a cycle. -/
theorem cycle_report_exact (edges : List (String × String)) :
    CycleReport edges (findCycleNodesFromEdges edges) ∧ CycleReport edges (findCycleNodes (edges.foldl addEdge ∅)) :=
  ⟨findCycleNodesFromEdges_exact edges, findCycleNodes_exact edges⟩

/-- The repair is told of the keys on a cycle of the projected relations. -/
theorem cyclicNodes_exact (relations : List RelationRow) (mismatches : List MismatchRow) :
    CycleReport (projectedEdges relations mismatches) (cyclicNodes relations mismatches) :=
  findCycleNodes_exact _

end MemoryStore.DataMigration
