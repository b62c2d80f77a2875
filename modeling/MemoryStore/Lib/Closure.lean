/-
Exploring a graph with a worklist while others change it. `Explored` holds of
the worklist and the known nodes whatever happens to edges that leave nodes
not yet visited; when the worklist is empty, the known nodes are the nodes
reachable from the start in the graph as it is then.
-/
import Mathlib

namespace Closure

variable {α : Type} {next next' : α → α → Prop} {start : α} {todo known : List α}

/-- An edge that leaves a visited node: one that is known and not on the worklist. -/
def Visited (next : α → α → Prop) (todo known : List α) (a b : α) : Prop :=
  a ∈ known ∧ a ∉ todo ∧ next a b

/-- Known nodes were found along edges of visited nodes, and all edges of visited nodes were followed. -/
structure Explored (next : α → α → Prop) (start : α) (todo known : List α) : Prop where
  root : start ∈ known
  pending : todo ⊆ known
  nodup : todo.Nodup
  found : ∀ k ∈ known, Relation.ReflTransGen (Visited next todo known) start k
  closed : ∀ a b, Visited next todo known a b → b ∈ known

theorem Explored.init : Explored next start [start] [start] where
  root := by simp
  pending := by simp
  nodup := by simp
  found k hk := by
    obtain rfl := List.mem_singleton.1 hk
    exact .refl
  closed a b h := absurd h.1 h.2.1

/-- Visiting the first node of the worklist: its successors become known, and the new ones go on the worklist. -/
theorem Explored.visit {node : α} {todo' known' : List α} (h : Explored next start (node :: todo) known)
    (hknown : ∀ k, k ∈ known' ↔ k ∈ known ∨ next node k) (htodo : ∀ k, k ∈ todo' ↔ k ∈ todo ∨ k ∈ known' ∧ k ∉ known)
    (hnd : todo'.Nodup) : Explored next start todo' known' := by
  obtain ⟨hnot, -⟩ := List.nodup_cons.1 h.nodup
  have hnode : node ∈ known := h.pending (by simp)
  have hnode' : node ∈ known' ∧ node ∉ todo' := by
    refine ⟨(hknown node).2 (.inl hnode), fun hm => ?_⟩
    rcases (htodo node).1 hm with hm | ⟨-, hm⟩
    · exact hnot hm
    · exact hm hnode
  have hvisited : ∀ a b, Visited next (node :: todo) known a b → Visited next todo' known' a b := by
    intro a b ⟨ha, hn, hab⟩
    refine ⟨(hknown a).2 (.inl ha), fun hm => ?_, hab⟩
    rcases (htodo a).1 hm with hm | ⟨-, hm⟩
    · exact hn (List.mem_cons_of_mem _ hm)
    · exact hm ha
  have hold : ∀ k ∈ known, Relation.ReflTransGen (Visited next todo' known') start k := fun k hk =>
    Relation.ReflTransGen.mono hvisited _ _ (h.found k hk)
  refine ⟨(hknown start).2 (.inl h.root), fun k hk => ?_, hnd, fun k hk => ?_, fun a b ⟨ha, hn, hab⟩ => ?_⟩
  · rcases (htodo k).1 hk with hk | ⟨hk, -⟩
    · exact (hknown k).2 (.inl (h.pending (List.mem_cons_of_mem _ hk)))
    · exact hk
  · rcases (hknown k).1 hk with hk | hk
    · exact hold k hk
    · exact (hold node hnode).tail ⟨hnode'.1, hnode'.2, hk⟩
  · have hak : a ∈ known := by
      by_contra hak
      exact hn ((htodo a).2 (.inr ⟨ha, hak⟩))
    by_cases he : a = node
    · exact (hknown b).2 (.inr (he ▸ hab))
    · refine (hknown b).2 (.inl (h.closed a b ⟨hak, fun hm => ?_, hab⟩))
      rcases List.mem_cons.1 hm with hm | hm
      · exact he hm
      · exact hn ((htodo a).2 (.inl hm))

/-- Edges that leave nodes not yet visited may come and go. -/
theorem Explored.congr (h : Explored next start todo known)
    (he : ∀ a ∈ known, a ∉ todo → ∀ b, next' a b ↔ next a b) : Explored next' start todo known where
  root := h.root
  pending := h.pending
  nodup := h.nodup
  found k hk := Relation.ReflTransGen.mono (fun a b ⟨ha, hn, hab⟩ => ⟨ha, hn, (he a ha hn b).2 hab⟩) _ _ (h.found k hk)
  closed a b := fun ⟨ha, hn, hab⟩ => h.closed a b ⟨ha, hn, (he a ha hn b).1 hab⟩

/-- **With an empty worklist**, the known nodes are the reachable ones. -/
theorem Explored.mem_iff (h : Explored next start [] known) {k : α} :
    k ∈ known ↔ Relation.ReflTransGen next start k := by
  constructor
  · intro hk
    exact Relation.ReflTransGen.mono (fun a b hab => hab.2.2) _ _ (h.found k hk)
  · intro hk
    induction hk with
    | refl => exact h.root
    | tail _ hab ih => exact h.closed _ _ ⟨ih, by simp, hab⟩

end Closure

/-!
The number of hops from a start along a relation: what lies at a distance, and
how the nodes at one distance come from those at the distance before.
-/

namespace Hops

variable {α : Type} {r : α → α → Prop} {start x y : α} {j k : Nat}

/-- Reached from the start in exactly so many hops. -/
inductive In (r : α → α → Prop) (start : α) : Nat → α → Prop where
  | start : In r start 0 start
  | hop {k : Nat} {x y : α} (h : In r start k x) (hr : r x y) : In r start (k + 1) y

/-- Reached in so many hops, and not in fewer. -/
def Distance (r : α → α → Prop) (start : α) (k : Nat) (x : α) : Prop :=
  In r start k x ∧ ∀ j, In r start j x → k ≤ j

theorem In.reached (h : In r start k x) : Relation.ReflTransGen r start x := by
  induction h with
  | start => exact .refl
  | hop _ hr ih => exact ih.tail hr

theorem exists_in (h : Relation.ReflTransGen r start x) : ∃ k, In r start k x := by
  induction h with
  | refl => exact ⟨0, .start⟩
  | tail _ hr ih =>
    obtain ⟨k, hk⟩ := ih
    exact ⟨k + 1, hk.hop hr⟩

theorem In.distance (h : In r start k x) : ∃ j, j ≤ k ∧ Distance r start j x := by
  induction k using Nat.strongRecOn with
  | ind k ih =>
    by_cases hmin : ∀ j, In r start j x → k ≤ j
    · exact ⟨k, Nat.le_refl k, h, hmin⟩
    · obtain ⟨j, hj, hlt⟩ : ∃ j, In r start j x ∧ j < k := Classical.byContradiction fun hc =>
        hmin fun j hj => Nat.le_of_not_lt fun hlt => hc ⟨j, hj, hlt⟩
      obtain ⟨i, hi, hd⟩ := ih j hlt hj
      exact ⟨i, by omega, hd⟩

/-- What is reached has a distance. -/
theorem reached_iff : Relation.ReflTransGen r start x ↔ ∃ k, Distance r start k x := by
  constructor
  · intro h
    obtain ⟨k, hk⟩ := exists_in h
    obtain ⟨j, -, hj⟩ := hk.distance
    exact ⟨j, hj⟩
  · rintro ⟨k, hk, -⟩
    exact hk.reached

theorem Distance.unique (h : Distance r start j x) (h' : Distance r start k x) : j = k :=
  Nat.le_antisymm (h.2 k h'.1) (h'.2 j h.1)

theorem distance_zero : Distance r start 0 x ↔ x = start := by
  constructor
  · rintro ⟨h, -⟩
    cases h
    rfl
  · rintro rfl
    exact ⟨.start, fun j _ => Nat.zero_le j⟩

/-- One hop leads at most one further. -/
theorem Distance.next (h : Distance r start k x) (hr : r x y) : ∃ j, j ≤ k + 1 ∧ Distance r start j y :=
  (h.1.hop hr).distance

/-- What is not the start is one hop from something nearer. -/
theorem Distance.pred (h : Distance r start (k + 1) y) : ∃ x, Distance r start k x ∧ r x y := by
  obtain ⟨hin, hmin⟩ := h
  cases hin with
  | @hop _ x _ hx hr =>
    refine ⟨x, ⟨hx, fun j hj => ?_⟩, hr⟩
    have := hmin (j + 1) (hj.hop hr)
    omega

/-- Distances leave no gap. -/
theorem Distance.below : ∀ {k : Nat} {x : α}, Distance r start k x → j ≤ k → ∃ y, Distance r start j y
  | 0, x, h, hj => ⟨x, (Nat.le_zero.1 hj) ▸ h⟩
  | k + 1, x, h, hj => by
    rcases Nat.lt_or_ge j (k + 1) with hlt | hge
    · obtain ⟨y, hy, -⟩ := h.pred
      exact hy.below (Nat.le_of_lt_succ hlt)
    · obtain rfl : j = k + 1 := by omega
      exact ⟨x, h⟩

end Hops
