/-
Orders in which every node comes after its parent, and among the nodes whose
parent is placed the earliest comes first. There is at most one such order, none
when a node is above itself, and it is found by placing an earliest ready node
as long as there is one.
-/
import Mathlib

namespace ReadyOrder

open Relation (TransGen)

variable {α : Type} (parent : α → Option α) (le : α → α → Prop)

/-- It is a node's turn: its parent, when that is one of the nodes, is placed. -/
def Ready (nodes placed : List α) (x : α) : Prop := ∀ p, parent x = some p → p ∈ nodes → p ∈ placed

/-- **All nodes, each after its parent and not before an earlier one whose turn it is.** -/
structure EarliestReady (nodes ordered : List α) : Prop where
  perm : ordered.Perm nodes
  parentFirst : ∀ before x after, ordered = before ++ x :: after → Ready parent nodes before x
  earliest : ∀ before x after, ordered = before ++ x :: after → ∀ y ∈ after, Ready parent nodes before y → le x y

/-- Some of the nodes, placed in such an order. -/
structure Placing (nodes placed : List α) : Prop where
  nodup : placed.Nodup
  sub : placed ⊆ nodes
  parentFirst : ∀ before x after, placed = before ++ x :: after → Ready parent nodes before x
  earliest : ∀ before x after, placed = before ++ x :: after →
    ∀ y ∈ nodes, y ∉ before → y ≠ x → Ready parent nodes before y → le x y

/-- A node and its parent among the nodes. -/
def Edge (nodes : List α) (x p : α) : Prop := p ∈ nodes ∧ parent x = some p

variable {parent le} {nodes nodes' placed ordered ordered' : List α} {x : α}

theorem Ready.mono {placed' : List α} (h : Ready parent nodes placed x) (hsub : placed ⊆ placed') :
    Ready parent nodes placed' x := fun p hp hn => hsub (h p hp hn)

theorem ready_iff_of_perm (h : nodes.Perm nodes') : Ready parent nodes placed x ↔ Ready parent nodes' placed x := by
  unfold Ready
  simp only [h.mem_iff]

theorem EarliestReady.of_perm (h : EarliestReady parent le nodes ordered) (hp : nodes.Perm nodes') :
    EarliestReady parent le nodes' ordered where
  perm := h.perm.trans hp
  parentFirst before x after heq := (ready_iff_of_perm hp).1 (h.parentFirst before x after heq)
  earliest before x after heq y hy hready := h.earliest before x after heq y hy ((ready_iff_of_perm hp).2 hready)

/-! ## Placing one node after the other -/

theorem Placing.nil : Placing parent le nodes [] where
  nodup := List.nodup_nil
  sub := List.nil_subset nodes
  parentFirst before x after h := absurd h (by simp)
  earliest before x after h := absurd h (by simp)

/-- An earliest ready node is placed next. -/
theorem Placing.snoc (h : Placing parent le nodes placed) (hx : x ∈ nodes) (hnew : x ∉ placed)
    (hready : Ready parent nodes placed x)
    (hleast : ∀ y ∈ nodes, y ∉ placed → y ≠ x → Ready parent nodes placed y → le x y) :
    Placing parent le nodes (placed ++ [x]) where
  nodup := by
    rw [List.nodup_append]
    refine ⟨h.nodup, List.nodup_singleton x, fun a ha b hb heq => ?_⟩
    rw [List.mem_singleton.1 hb] at heq
    exact hnew (heq ▸ ha)
  sub := by
    intro y hy
    rcases List.mem_append.1 hy with hy | hy
    · exact h.sub hy
    · rw [List.mem_singleton.1 hy]
      exact hx
  parentFirst before y after heq := by
    rcases List.eq_nil_or_concat after with rfl | ⟨init, z, rfl⟩
    · obtain ⟨rfl, hy⟩ := List.append_inj' heq rfl
      obtain rfl : x = y := by simpa using hy
      exact hready
    · have hlast : placed ++ [x] = (before ++ y :: init) ++ [z] := by simp [heq]
      have hinit : placed = before ++ y :: init := (List.append_inj' hlast rfl).1
      exact h.parentFirst before y init hinit
  earliest before y after heq := by
    rcases List.eq_nil_or_concat after with rfl | ⟨init, z, rfl⟩
    · obtain ⟨rfl, hy⟩ := List.append_inj' heq rfl
      obtain rfl : x = y := by simpa using hy
      exact hleast
    · have hlast : placed ++ [x] = (before ++ y :: init) ++ [z] := by simp [heq]
      have hinit : placed = before ++ y :: init := (List.append_inj' hlast rfl).1
      exact h.earliest before y init hinit

/-- When all nodes are placed, they are in order. -/
theorem Placing.complete (h : Placing parent le nodes placed) (hn : nodes.Nodup) (hall : nodes ⊆ placed) :
    EarliestReady parent le nodes placed where
  perm := (h.nodup.subperm h.sub).antisymm (hn.subperm hall)
  parentFirst := h.parentFirst
  earliest before x after heq y hy hready := by
    have hnodup := h.nodup
    rw [heq, List.nodup_append, List.nodup_cons] at hnodup
    obtain ⟨-, ⟨hx, -⟩, hdisjoint⟩ := hnodup
    have hmem : y ∈ placed := by
      rw [heq]
      exact List.mem_append_right _ (List.mem_cons_of_mem _ hy)
    have hbefore : y ∉ before := fun hb => hdisjoint y hb y (List.mem_cons_of_mem _ hy) rfl
    have hne : y ≠ x := fun heq => hx (heq ▸ hy)
    exact h.earliest before x after heq y (h.sub hmem) hbefore hne hready

/-! ## What an order tells -/

/-- The first node of a list that is not placed, after placed ones only. -/
theorem exists_first : ∀ {l : List α}, (∃ x ∈ l, x ∉ placed) →
    ∃ before x after, l = before ++ x :: after ∧ before ⊆ placed ∧ x ∉ placed
  | [], h => by simp at h
  | a :: l, h => by
    by_cases ha : a ∈ placed
    · have hl : ∃ x ∈ l, x ∉ placed := by
        obtain ⟨x, hx, hnew⟩ := h
        rcases List.mem_cons.1 hx with rfl | hx
        · exact absurd ha hnew
        · exact ⟨x, hx, hnew⟩
      obtain ⟨before, x, after, rfl, hsub, hnew⟩ := exists_first hl
      exact ⟨a :: before, x, after, rfl, List.cons_subset.2 ⟨ha, hsub⟩, hnew⟩
    · exact ⟨[], a, l, rfl, List.nil_subset _, ha⟩

/-- When there is an order, it is some node's turn until all are placed. -/
theorem EarliestReady.exists_ready (h : EarliestReady parent le nodes ordered) (hleft : ∃ x ∈ nodes, x ∉ placed) :
    ∃ x ∈ nodes, x ∉ placed ∧ Ready parent nodes placed x := by
  have hleft' : ∃ x ∈ ordered, x ∉ placed := by
    obtain ⟨x, hx, hnew⟩ := hleft
    exact ⟨x, h.perm.mem_iff.2 hx, hnew⟩
  obtain ⟨before, x, after, heq, hsub, hnew⟩ := exists_first hleft'
  have hx : x ∈ ordered := by simp [heq]
  exact ⟨x, h.perm.mem_iff.1 hx, hnew, (h.parentFirst before x after heq).mono hsub⟩

/-- What is above a node comes before it. -/
theorem EarliestReady.above (h : EarliestReady parent le nodes ordered) {before after : List α}
    (heq : ordered = before ++ x :: after) {p : α} (hp : TransGen (Edge parent nodes) x p) : p ∈ before := by
  induction hp with
  | single hedge => exact h.parentFirst before x after heq _ hedge.2 hedge.1
  | tail _ hedge ih =>
    obtain ⟨front, back, rfl⟩ := List.append_of_mem ih
    have hq := h.parentFirst front _ (back ++ x :: after) (by simp [heq]) _ hedge.2 hedge.1
    exact List.mem_append_left _ hq

/-- **Where there is an order, no node is above itself.** -/
theorem EarliestReady.acyclic (h : EarliestReady parent le nodes ordered) (hn : nodes.Nodup) (x : α) (hx : x ∈ nodes) :
    ¬TransGen (Edge parent nodes) x x := by
  intro hcycle
  obtain ⟨before, after, heq⟩ := List.append_of_mem (h.perm.mem_iff.2 hx)
  have hnodup := h.perm.nodup_iff.2 hn
  rw [heq, List.nodup_append] at hnodup
  exact hnodup.2.2 x (h.above heq hcycle) x List.mem_cons_self rfl

theorem EarliestReady.unique_from (hn : nodes.Nodup) (hle : ∀ a ∈ nodes, ∀ b ∈ nodes, le a b → le b a → a = b)
    (h : EarliestReady parent le nodes ordered) (h' : EarliestReady parent le nodes ordered') :
    ∀ (rest rest' before : List α), ordered = before ++ rest → ordered' = before ++ rest' → rest = rest'
  | [], rest', before, heq, heq' => by
    have hlength := (h.perm.trans h'.perm.symm).length_eq
    rw [heq, heq', List.length_append, List.length_append] at hlength
    exact (List.length_eq_zero_iff.1 (by simpa using hlength.symm)).symm
  | x :: rest, [], before, heq, heq' => by
    have hlength := (h.perm.trans h'.perm.symm).length_eq
    rw [heq, heq', List.length_append, List.length_append] at hlength
    simp at hlength
  | x :: rest, y :: rest', before, heq, heq' => by
    -- a node of one order that is not placed yet is in the rest of the other
    have hlater : ∀ {o o' : List α} {a b : α} {r r' : List α}, EarliestReady parent le nodes o →
        EarliestReady parent le nodes o' → o = before ++ a :: r → o' = before ++ b :: r' → a ≠ b →
        b ∈ nodes ∧ le a b := by
      intro o o' a b r r' ho ho' ha hb hne
      have hbnodes : b ∈ nodes := ho'.perm.mem_iff.1 (by simp [hb])
      have hnodup := ho'.perm.nodup_iff.2 hn
      rw [hb, List.nodup_append] at hnodup
      have hbefore : b ∉ before := fun hin => hnodup.2.2 b hin b List.mem_cons_self rfl
      have hmem : b ∈ before ++ a :: r := ha ▸ ho.perm.mem_iff.2 hbnodes
      have hr : b ∈ r := by simpa [hbefore, hne.symm] using hmem
      exact ⟨hbnodes, ho.earliest before a r ha b hr (ho'.parentFirst before b r' hb)⟩
    by_cases hne : x = y
    · subst hne
      rw [h.unique_from hn hle h' rest rest' (before ++ [x]) (by simp [heq]) (by simp [heq'])]
    · obtain ⟨hy, hxy⟩ := hlater h h' heq heq' hne
      obtain ⟨hx, hyx⟩ := hlater h' h heq' heq (Ne.symm hne)
      exact absurd (hle x hx y hy hxy hyx) hne

/-- **There is at most one such order.** -/
theorem EarliestReady.unique (hn : nodes.Nodup) (hle : ∀ a ∈ nodes, ∀ b ∈ nodes, le a b → le b a → a = b)
    (h : EarliestReady parent le nodes ordered) (h' : EarliestReady parent le nodes ordered') : ordered = ordered' :=
  h.unique_from hn hle h' ordered ordered' [] rfl rfl

end ReadyOrder
