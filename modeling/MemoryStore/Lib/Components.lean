/-
Strongly connected components by two searches with explicit stacks. The first
lists the nodes of a graph in the order a depth-first search finishes them; the
second takes them from the last to the first and gathers what leads to each along
nodes not gathered before. What the first keeps is that of the nodes that lead to
a finished node some node of the same component finishes no earlier, and from that
each gathering is a component.
-/
import MemoryStore.Lib.Closure

namespace Components

variable {α : Type}

/-! ## Reaching -/

/-- A path along the successors. -/
def Reaches (next : α → List α) : α → α → Prop := Relation.ReflTransGen fun a b => b ∈ next a

/-- Two nodes of one component. -/
def Mutual (next : α → List α) (a b : α) : Prop := Reaches next a b ∧ Reaches next b a

variable {next prev : α → List α}

theorem Mutual.symm {a b : α} (h : Mutual next a b) : Mutual next b a := ⟨h.2, h.1⟩

theorem Mutual.trans {a b c : α} (h : Mutual next a b) (h' : Mutual next b c) : Mutual next a c :=
  ⟨Relation.ReflTransGen.trans h.1 h'.1, Relation.ReflTransGen.trans h'.2 h.2⟩

/-- A path out of a set leaves it somewhere. -/
theorem Reaches.leaves {p : α → Prop} {a b : α} (h : Reaches next a b) (ha : p a) (hb : ¬p b) :
    ∃ x y, p x ∧ ¬p y ∧ y ∈ next x ∧ Reaches next a x ∧ Reaches next y b := by
  induction h with
  | refl => exact absurd ha hb
  | @tail x y hax hxy ih =>
    by_cases hx : p x
    · exact ⟨x, y, hx, hb, hxy, hax, .refl⟩
    · obtain ⟨u, v, hu, hv, huv, hau, hvx⟩ := ih hx
      exact ⟨u, v, hu, hv, huv, hau, hvx.tail hxy⟩

/-! ## What the first search keeps -/

/-- The order of finishing, the last first: of the nodes that reach a node some node of the same component is not
finished before it. -/
def Ordered (next : α → List α) (finished : List α) : Prop :=
  ∀ front v back, finished = front ++ v :: back → ∀ u, Reaches next u v → ∃ w, Mutual next u w ∧ w ∉ back

/-- What the search keeps: the grey nodes are those to be finished on the stack. -/
structure Searching (next : α → List α) (stack : List (α × Bool)) (visited finished : List α) : Prop where
  visited_iff : ∀ x, x ∈ visited ↔ x ∈ finished ∨ (x, true) ∈ stack
  fresh : ∀ x ∈ finished, (x, true) ∉ stack
  once : ((stack.filter Prod.snd).map Prod.fst).Nodup
  nodup : finished.Nodup
  chain : stack.Pairwise fun upper lower => lower.2 = true → Reaches next lower.1 upper.1
  closed : ∀ x ∈ finished, ∀ y ∈ next x, y ∈ visited
  pending : ∀ above x below, stack = above ++ (x, true) :: below → ∀ y ∈ next x, y ∈ visited ∨ (y, false) ∈ above
  held : ∀ x ∈ finished, ∀ v, v ∉ finished → Reaches next x v → ∃ g, (g, true) ∈ stack ∧ Mutual next x g
  ordered : Ordered next finished

theorem Searching.start (next : α → List α) {visited finished : List α} (h : Searching next [] visited finished)
    (start : α) : Searching next [(start, false)] visited finished where
  visited_iff x := by
    rw [h.visited_iff]
    simp
  fresh x _ := by simp
  once := by simp
  nodup := h.nodup
  chain := List.pairwise_singleton _ _
  closed := h.closed
  pending above x below he := by
    rcases above with - | ⟨y, above⟩
    · simp at he
    · simp at he
  held x hx v hv hr := by
    obtain ⟨g, hg, -⟩ := h.held x hx v hv hr
    exact absurd hg List.not_mem_nil
  ordered := h.ordered

/-- A node that was visited meanwhile is dropped. -/
theorem Searching.skip {node : α} {stack : List (α × Bool)} {visited finished : List α}
    (h : Searching next ((node, false) :: stack) visited finished) (hv : node ∈ visited) :
    Searching next stack visited finished where
  visited_iff x := by
    rw [h.visited_iff]
    simp
  fresh x hx hm := h.fresh x hx (List.mem_cons_of_mem _ hm)
  once := by simpa using h.once
  nodup := h.nodup
  chain := (List.pairwise_cons.1 h.chain).2
  closed := h.closed
  pending above x below he y hy := by
    rcases h.pending ((node, false) :: above) x below (by rw [he, List.cons_append]) y hy with hy' | hy'
    · exact .inl hy'
    · rcases List.mem_cons.1 hy' with he | hy'
      · obtain ⟨rfl, -⟩ := Prod.mk.inj he
        exact .inl hv
      · exact .inr hy'
  held x hx v hv' hr := by
    obtain ⟨g, hg, hm⟩ := h.held x hx v hv' hr
    rcases List.mem_cons.1 hg with he | hg
    · exact Bool.noConfusion (congrArg Prod.snd he)
    · exact ⟨g, hg, hm⟩
  ordered := h.ordered

/-- The top grey node is finished. -/
theorem Searching.finish {node : α} {stack : List (α × Bool)} {visited finished : List α}
    (h : Searching next ((node, true) :: stack) visited finished) :
    Searching next stack visited (node :: finished) := by
  obtain ⟨hbelow, hrest⟩ := List.pairwise_cons.1 h.chain
  have honce : node ∉ (stack.filter Prod.snd).map Prod.fst ∧ ((stack.filter Prod.snd).map Prod.fst).Nodup := by
    simpa using h.once
  have hnode : (node, true) ∉ stack := fun hm =>
    honce.1 (List.mem_map.2 ⟨(node, true), List.mem_filter.2 ⟨hm, rfl⟩, rfl⟩)
  have hfinished : node ∉ finished := fun hm => h.fresh node hm List.mem_cons_self
  have hclosed : ∀ x ∈ node :: finished, ∀ y ∈ next x, y ∈ visited := by
    intro x hx y hy
    rcases List.mem_cons.1 hx with rfl | hx
    · rcases h.pending [] x stack rfl y hy with hy' | hy'
      · exact hy'
      · exact absurd hy' List.not_mem_nil
    · exact h.closed x hx y hy
  have hvisited : ∀ x, x ∈ visited ↔ x ∈ node :: finished ∨ (x, true) ∈ stack := by
    intro x
    rw [h.visited_iff, List.mem_cons, List.mem_cons, Prod.mk.injEq]
    tauto
  -- a path from the finished nodes leaves them at a grey node, and every grey node left leads to `node`
  have hheld : ∀ v, v ∉ node :: finished → Reaches next node v → ∃ g, (g, true) ∈ stack ∧ Mutual next node g := by
    intro v hv hr
    obtain ⟨x, y, hx, hy, hxy, hnx, -⟩ := hr.leaves (p := (· ∈ node :: finished)) List.mem_cons_self hv
    rcases (hvisited y).1 (hclosed x hx y hxy) with hy' | hy'
    · exact absurd hy' hy
    · exact ⟨y, hy', hnx.tail hxy, hbelow _ hy' rfl⟩
  refine
    { visited_iff := hvisited
      fresh := fun x hx => ?_
      once := honce.2
      nodup := List.nodup_cons.2 ⟨hfinished, h.nodup⟩
      chain := hrest
      closed := hclosed
      pending := fun above x below he y hy => ?_
      held := fun x hx v hv hr => ?_
      ordered := ?_ }
  · rcases List.mem_cons.1 hx with rfl | hx
    · exact hnode
    · exact fun hm => h.fresh x hx (List.mem_cons_of_mem _ hm)
  · rcases h.pending ((node, true) :: above) x below (by rw [he, List.cons_append]) y hy with hy' | hy'
    · exact .inl hy'
    · rcases List.mem_cons.1 hy' with heq | hy'
      · exact Bool.noConfusion (congrArg Prod.snd heq)
      · exact .inr hy'
  · rcases List.mem_cons.1 hx with rfl | hx
    · exact hheld v hv hr
    · obtain ⟨g, hg, hm⟩ := h.held x hx v (fun hv' => hv (List.mem_cons_of_mem _ hv')) hr
      rcases List.mem_cons.1 hg with heq | hg
      · obtain ⟨rfl, -⟩ := Prod.mk.inj heq
        obtain ⟨g', hg', hm'⟩ := hheld v hv (Relation.ReflTransGen.trans hm.2 hr)
        exact ⟨g', hg', hm.trans hm'⟩
      · exact ⟨g, hg, hm⟩
  · intro front v back he u hu
    cases front with
    | nil =>
      obtain ⟨rfl, rfl⟩ := List.cons.inj he
      by_cases hub : u ∈ finished
      · obtain ⟨g, hg, hm⟩ := h.held u hub node hfinished hu
        exact ⟨g, hm, fun hgf => h.fresh g hgf hg⟩
      · exact ⟨u, ⟨.refl, .refl⟩, hub⟩
    | cons w front =>
      obtain ⟨-, rfl⟩ := List.cons.inj he
      exact h.ordered front v back rfl u hu

/-! ## What the second search keeps -/

/-- Back along an edge to a node that was not assigned at the start. -/
def Back (prev : α → List α) (assigned : List α) (a b : α) : Prop := b ∈ prev a ∧ b ∉ assigned

/-- What the gathering keeps: the component and the stack are explored, and with the nodes assigned before they are
all that is assigned. -/
structure Gathering (prev : α → List α) (before : List α) (start : α) (stack assigned component : List α) : Prop where
  explored : Closure.Explored (Back prev before) start stack (component ++ stack)
  nodup : (component ++ stack).Nodup
  assigned_iff : ∀ x, x ∈ assigned ↔ x ∈ before ∨ x ∈ component ++ stack
  fresh : ∀ x ∈ component ++ stack, x ∉ before

theorem Gathering.init (prev : α → List α) {before : List α} {start : α} (h : start ∉ before) :
    Gathering prev before start [start] (start :: before) [] where
  explored := .init
  nodup := List.nodup_singleton _
  assigned_iff x := by
    rw [List.nil_append, List.mem_singleton, List.mem_cons, or_comm]
  fresh x hx := by
    obtain rfl := List.mem_singleton.1 hx
    exact h

theorem reaches_of_back (hedges : ∀ a b, b ∈ next a ↔ a ∈ prev b) {before : List α} {v x : α}
    (h : Relation.ReflTransGen (Back prev before) v x) : Reaches next x v := by
  induction h with
  | refl => exact .refl
  | tail _ hstep ih => exact ih.head ((hedges _ _).2 hstep.1)

/-- **A gathering is a component**, where the nodes assigned before are the components of the nodes finished later. -/
theorem gathered_iff (hedges : ∀ a b, b ∈ next a ↔ a ∈ prev b) {front back before assigned component : List α} {v : α}
    (hordered : Ordered next (front ++ v :: back)) (hclosed : ∀ x ∈ front ++ v :: back, ∀ y ∈ prev x, y ∈ front ++ v :: back)
    (hbefore : ∀ x, x ∈ before ↔ ∃ w ∈ front, Mutual next x w) (hv : v ∉ before)
    (hg : Gathering prev before v [] assigned component) (x : α) : x ∈ component ↔ Mutual next x v := by
  have hmem : x ∈ component ↔ Relation.ReflTransGen (Back prev before) v x := by
    rw [← hg.explored.mem_iff, List.append_nil]
  have hall : ∀ {a b : α}, Reaches next a b → b ∈ front ++ v :: back → a ∈ front ++ v :: back := by
    intro a b hab hb
    induction hab using Relation.ReflTransGen.head_induction_on with
    | refl => exact hb
    | head hstep _ ih => exact hclosed _ ih _ ((hedges _ _).1 hstep)
  constructor
  · intro hx
    have hreach := reaches_of_back hedges (hmem.1 hx)
    have hfresh : x ∉ before := hg.fresh x (List.mem_append_left _ hx)
    obtain ⟨w, hw, hback⟩ := hordered front v back rfl x hreach
    have hwin := hall (Relation.ReflTransGen.trans hw.2 hreach) (List.mem_append_right _ List.mem_cons_self)
    rcases List.mem_append.1 hwin with hwin | hwin
    · exact absurd ((hbefore x).2 ⟨w, hwin, hw⟩) hfresh
    · rcases List.mem_cons.1 hwin with rfl | hwin
      · exact hw
      · exact absurd hwin hback
  · intro hx
    have hpath : ∀ {a : α}, Reaches next a v → Reaches next v a → Relation.ReflTransGen (Back prev before) v a := by
      intro a ha
      induction ha using Relation.ReflTransGen.head_induction_on with
      | refl => exact fun _ => .refl
      | @head a b hstep hbv ih =>
        intro hva
        refine (ih (hva.tail hstep)).tail ⟨(hedges a b).1 hstep, fun hab => hv ?_⟩
        obtain ⟨w, hw, hm⟩ := (hbefore a).1 hab
        have hav : Mutual next v a := ⟨hva, Relation.ReflTransGen.head hstep hbv⟩
        exact (hbefore v).2 ⟨w, hw, hav.trans hm⟩
    exact hmem.2 (hpath hx.1 hx.2)

/-! ## The first search -/

variable [DecidableEq α]

/-- The depth-first search from a stack, with its top first and a step budget; `none` when it runs out. A node is
pushed again under its successors, and finished when it comes back; the last finished node is first. -/
def finishLoop (next : α → List α) : Nat → List (α × Bool) → List α → List α → Option (List α × List α)
  | 0, _, _, _ => none
  | _ + 1, [], visited, finished => some (visited, finished)
  | steps + 1, (node, true) :: stack, visited, finished => finishLoop next steps stack visited (node :: finished)
  | steps + 1, (node, false) :: stack, visited, finished =>
    if node ∈ visited then finishLoop next steps stack visited finished
    else
      finishLoop next steps
        (((next node).filter (· ∉ node :: visited)).map (·, false) ++ (node, true) :: stack) (node :: visited) finished

/-- The search from each node that is not visited yet. -/
def finishAll (next : α → List α) (steps : Nat) : List α → List α → List α → Option (List α)
  | [], _, finished => some finished
  | start :: nodes, visited, finished =>
    if start ∈ visited then finishAll next steps nodes visited finished
    else
      match finishLoop next steps [(start, false)] visited finished with
      | some (visited, finished) => finishAll next steps nodes visited finished
      | none => none

/-- A new node becomes grey, under its successors. -/
theorem Searching.discover {node : α} {stack : List (α × Bool)} {visited finished : List α}
    (h : Searching next ((node, false) :: stack) visited finished) (hv : node ∉ visited) :
    Searching next (((next node).filter (· ∉ node :: visited)).map (·, false) ++ (node, true) :: stack)
      (node :: visited) finished := by
  have hgrey : ∀ x, (x, true) ∈ ((next node).filter (· ∉ node :: visited)).map (·, false) ++ (node, true) :: stack ↔
      x = node ∨ (x, true) ∈ stack := by
    intro x
    simp
  obtain ⟨hbelow, hrest⟩ := List.pairwise_cons.1 h.chain
  refine
    { visited_iff := fun x => ?_
      fresh := fun x hx => ?_
      once := ?_
      nodup := h.nodup
      chain := ?_
      closed := fun x hx y hy => List.mem_cons_of_mem _ (h.closed x hx y hy)
      pending := ?_
      held := fun x hx v hv' hr => ?_
      ordered := h.ordered }
  · rw [hgrey, List.mem_cons, h.visited_iff]
    simp only [List.mem_cons, Prod.mk.injEq, Bool.true_eq_false, and_false, false_or]
    tauto
  · rw [hgrey]
    rintro (rfl | hm)
    · exact hv ((h.visited_iff _).2 (.inl hx))
    · exact h.fresh x hx (List.mem_cons_of_mem _ hm)
  · have hnone : (((next node).filter (· ∉ node :: visited)).map (·, false)).filter Prod.snd = [] := by
      rw [List.filter_eq_nil_iff]
      simp
    have honce : ((stack.filter Prod.snd).map Prod.fst).Nodup := by simpa using h.once
    rw [List.filter_append, hnone, List.nil_append, List.filter_cons_of_pos rfl, List.map_cons, List.nodup_cons]
    refine ⟨fun hm => ?_, honce⟩
    obtain ⟨⟨x, b⟩, hx, hxn⟩ := List.mem_map.1 hm
    obtain ⟨hx, hb⟩ := List.mem_filter.1 hx
    dsimp only at hb hxn
    subst hb hxn
    exact hv ((h.visited_iff x).2 (.inr (List.mem_cons_of_mem _ hx)))
  · rw [List.pairwise_append]
    refine ⟨?_, List.pairwise_cons.2 ⟨hbelow, hrest⟩, ?_⟩
    · rw [List.pairwise_map]
      exact List.pairwise_of_forall fun _ _ h => Bool.noConfusion h
    · intro upper hupper lower hlower hgrey'
      obtain ⟨child, hchild, rfl⟩ := List.mem_map.1 hupper
      have hstep : child ∈ next node := (List.mem_filter.1 hchild).1
      rcases List.mem_cons.1 hlower with rfl | hlower
      · exact .single hstep
      · exact (hbelow lower hlower hgrey').tail hstep
  · intro above x below he y hy
    rcases List.append_eq_append_iff.1 he with ⟨more, rfl, hrows⟩ | ⟨more, hnew, hrows⟩
    · cases more with
      | nil =>
        obtain ⟨hx, -⟩ := List.cons.inj hrows
        obtain ⟨rfl, -⟩ := Prod.mk.inj hx
        by_cases hy' : y ∈ node :: visited
        · exact .inl hy'
        · exact .inr (List.mem_append_left _ (List.mem_map_of_mem (List.mem_filter.2 ⟨hy, by simpa using hy'⟩)))
      | cons entry more =>
        obtain ⟨-, hstack⟩ := List.cons.inj hrows
        rcases h.pending ((node, false) :: more) x below (congrArg ((node, false) :: ·) hstack) y hy with hy' | hy'
        · exact .inl (List.mem_cons_of_mem _ hy')
        · rcases List.mem_cons.1 hy' with heq | hy'
          · obtain ⟨rfl, -⟩ := Prod.mk.inj heq
            exact .inl List.mem_cons_self
          · exact .inr (List.mem_append_right _ (List.mem_cons_of_mem _ hy'))
    · cases more with
      | nil =>
        obtain ⟨hx, -⟩ := List.cons.inj hrows
        obtain ⟨rfl, -⟩ := Prod.mk.inj hx
        rw [List.append_nil] at hnew
        by_cases hy' : y ∈ x :: visited
        · exact .inl hy'
        · exact .inr (hnew ▸ List.mem_map_of_mem (List.mem_filter.2 ⟨hy, by simpa using hy'⟩))
      | cons entry more =>
        obtain ⟨rfl, -⟩ := List.cons.inj hrows
        have hmem : (x, true) ∈ ((next node).filter (· ∉ node :: visited)).map (·, false) :=
          hnew ▸ List.mem_append_right _ List.mem_cons_self
        simp at hmem
  · obtain ⟨g, hg, hm⟩ := h.held x hx v hv' hr
    refine ⟨g, (hgrey g).2 (.inr ?_), hm⟩
    simpa using hg

/-- The loop keeps what it keeps, and visits all that was on the stack. -/
theorem finishLoop_spec : ∀ {steps : Nat} {stack : List (α × Bool)} {visited finished visited' finished' : List α},
    Searching next stack visited finished →
    finishLoop next steps stack visited finished = some (visited', finished') →
      Searching next [] visited' finished' ∧ (∀ x ∈ visited, x ∈ visited') ∧ ∀ e ∈ stack, e.1 ∈ visited'
  | 0, _, _, _, _, _, _, h => by cases h
  | steps + 1, [], visited, finished, _, _, hs, h => by
    obtain ⟨rfl, rfl⟩ := Prod.mk.inj (Option.some.inj h)
    exact ⟨hs, fun x hx => hx, nofun⟩
  | steps + 1, (node, true) :: stack, visited, finished, _, _, hs, h => by
    obtain ⟨hsearch, hvisited, hstack⟩ := finishLoop_spec hs.finish h
    refine ⟨hsearch, hvisited, fun e he => ?_⟩
    rcases List.mem_cons.1 he with rfl | he
    · exact hvisited _ ((hs.visited_iff _).2 (.inr List.mem_cons_self))
    · exact hstack e he
  | steps + 1, (node, false) :: stack, visited, finished, _, _, hs, h => by
    rw [finishLoop] at h
    split at h
    · next hv =>
      obtain ⟨hsearch, hvisited, hstack⟩ := finishLoop_spec (hs.skip hv) h
      refine ⟨hsearch, hvisited, fun e he => ?_⟩
      rcases List.mem_cons.1 he with rfl | he
      · exact hvisited _ hv
      · exact hstack e he
    · next hv =>
      obtain ⟨hsearch, hvisited, hstack⟩ := finishLoop_spec (hs.discover hv) h
      refine ⟨hsearch, fun x hx => hvisited x (List.mem_cons_of_mem _ hx), fun e he => ?_⟩
      rcases List.mem_cons.1 he with rfl | he
      · exact hvisited _ List.mem_cons_self
      · exact hstack e (List.mem_append_right _ (List.mem_cons_of_mem _ he))

/-! ## The first search ends -/

/-- The steps the nodes not visited yet can still cost. -/
def weight (next : α → List α) (nodes visited : List α) : Nat :=
  ((nodes.filter (· ∉ visited)).map fun x => (next x).length + 1).sum

theorem weight_cons (next : α → List α) (x : α) (nodes visited : List α) :
    weight next (x :: nodes) visited =
      (if x ∈ visited then 0 else (next x).length + 1) + weight next nodes visited := by
  unfold weight
  by_cases hx : x ∈ visited <;> simp [hx]

theorem weight_le (next : α → List α) (node : α) (visited : List α) :
    ∀ nodes : List α, weight next nodes (node :: visited) ≤ weight next nodes visited
  | [] => Nat.le_refl _
  | x :: nodes => by
    have ih := weight_le next node visited nodes
    rw [weight_cons, weight_cons]
    by_cases hx : x ∈ visited
    · rw [if_pos hx, if_pos (List.mem_cons_of_mem _ hx)]
      omega
    · rw [if_neg hx]
      split <;> omega

theorem weight_discover (next : α → List α) {node : α} {visited : List α} (hv : node ∉ visited) :
    ∀ {nodes : List α}, node ∈ nodes →
      weight next nodes (node :: visited) + ((next node).length + 1) ≤ weight next nodes visited
  | x :: nodes, hn => by
    have hle := weight_le next node visited nodes
    rw [weight_cons, weight_cons]
    by_cases hx : x = node
    · subst hx
      rw [if_pos List.mem_cons_self, if_neg hv]
      omega
    · have ih := weight_discover next hv ((List.mem_cons.1 hn).resolve_left (Ne.symm hx))
      have hmem : x ∈ node :: visited ↔ x ∈ visited := by simp [hx]
      simp only [hmem]
      omega

/-- **The first search ends** within a step for each entry of the stack and for each node and edge not seen yet, and
one more; it stays among the nodes. -/
theorem finishLoop_ends {nodes : List α} (hnodes : ∀ x ∈ nodes, ∀ y ∈ next x, y ∈ nodes) :
    ∀ {steps : Nat} {stack : List (α × Bool)} {visited finished : List α}, (∀ e ∈ stack, e.1 ∈ nodes) →
      (∀ x ∈ visited, x ∈ nodes) → stack.length + weight next nodes visited < steps →
        ∃ visited' finished', finishLoop next steps stack visited finished = some (visited', finished') ∧
          ∀ x ∈ visited', x ∈ nodes
  | 0, _, _, _, _, _, hlt => by omega
  | steps + 1, [], visited, finished, _, hv, _ => ⟨visited, finished, rfl, hv⟩
  | steps + 1, (node, true) :: stack, visited, finished, hs, hv, hlt => by
    simp only [List.length_cons] at hlt
    rw [finishLoop]
    exact finishLoop_ends hnodes (fun e he => hs e (List.mem_cons_of_mem _ he)) hv (by omega)
  | steps + 1, (node, false) :: stack, visited, finished, hs, hv, hlt => by
    simp only [List.length_cons] at hlt
    have hrest : ∀ e ∈ stack, e.1 ∈ nodes := fun e he => hs e (List.mem_cons_of_mem _ he)
    have hnode : node ∈ nodes := hs _ List.mem_cons_self
    rw [finishLoop]
    split
    · exact finishLoop_ends hnodes hrest hv (by omega)
    · next hnew =>
      refine finishLoop_ends hnodes (fun e he => ?_) (fun x hx => ?_) ?_
      · rcases List.mem_append.1 he with he | he
        · obtain ⟨child, hchild, rfl⟩ := List.mem_map.1 he
          exact hnodes node hnode child (List.mem_filter.1 hchild).1
        · rcases List.mem_cons.1 he with rfl | he
          · exact hnode
          · exact hrest e he
      · rcases List.mem_cons.1 hx with rfl | hx
        · exact hnode
        · exact hv x hx
      · have hweight := weight_discover next hnew hnode
        have hfilter := List.length_filter_le (· ∉ node :: visited) (next node)
        simp only [List.length_append, List.length_map, List.length_cons] at hfilter ⊢
        omega

theorem weight_visited_le (next : α → List α) (visited : List α) :
    ∀ nodes : List α, weight next nodes visited ≤ weight next nodes []
  | [] => Nat.le_refl _
  | x :: nodes => by
    have ih := weight_visited_le next visited nodes
    rw [weight_cons, weight_cons, if_neg List.not_mem_nil]
    split <;> omega

theorem length_le_weight (next : α → List α) : ∀ nodes : List α, nodes.length ≤ weight next nodes []
  | [] => Nat.le_refl _
  | x :: nodes => by
    have ih := length_le_weight next nodes
    rw [weight_cons, if_neg List.not_mem_nil, List.length_cons]
    omega

/-- **The first search finishes every node** it starts from, and only nodes, in an order as it keeps it. -/
theorem finishAll_spec {nodes : List α} (hnodes : ∀ x ∈ nodes, ∀ y ∈ next x, y ∈ nodes) {steps : Nat}
    (hsteps : weight next nodes [] + 1 < steps) : ∀ {starts visited finished : List α}, (∀ x ∈ starts, x ∈ nodes) →
      (∀ x ∈ visited, x ∈ nodes) → Searching next [] visited finished →
        ∃ visited' finished', finishAll next steps starts visited finished = some finished' ∧
          Searching next [] visited' finished' ∧ (∀ x ∈ visited', x ∈ nodes) ∧ (∀ x ∈ visited, x ∈ visited') ∧
            ∀ x ∈ starts, x ∈ visited'
  | [], visited, finished, _, hv, hs => ⟨visited, finished, rfl, hs, hv, fun x hx => hx, nofun⟩
  | start :: starts, visited, finished, hstarts, hv, hs => by
    have hrest : ∀ x ∈ starts, x ∈ nodes := fun x hx => hstarts x (List.mem_cons_of_mem _ hx)
    rw [finishAll]
    split
    next hmem =>
      obtain ⟨visited', finished', hall, hsearch, hin, hkept, hdone⟩ := finishAll_spec hnodes hsteps hrest hv hs
      refine ⟨visited', finished', hall, hsearch, hin, hkept, fun x hx => ?_⟩
      rcases List.mem_cons.1 hx with rfl | hx
      · exact hkept x hmem
      · exact hdone x hx
    next hmem =>
      have hle := weight_visited_le next visited nodes
      have hstart : ∀ e ∈ [(start, false)], e.1 ∈ nodes := by
        intro e he
        obtain rfl := List.mem_singleton.1 he
        exact hstarts start List.mem_cons_self
      have hends : ∃ visited' finished', finishLoop next steps [(start, false)] visited finished =
          some (visited', finished') ∧ ∀ x ∈ visited', x ∈ nodes :=
        finishLoop_ends hnodes hstart hv (by simp only [List.length_singleton]; omega)
      obtain ⟨visited₁, finished₁, hloop, hv₁⟩ := hends
      obtain ⟨hsearch₁, hkept₁, hdone₁⟩ := finishLoop_spec (hs.start next start) hloop
      obtain ⟨visited', finished', hall, hsearch, hin, hkept, hdone⟩ := finishAll_spec hnodes hsteps hrest hv₁ hsearch₁
      rw [hloop]
      refine ⟨visited', finished', hall, hsearch, hin, fun x hx => hkept x (hkept₁ x hx), fun x hx => ?_⟩
      rcases List.mem_cons.1 hx with rfl | hx
      · exact hkept x (hdone₁ _ List.mem_cons_self)
      · exact hdone x hx

/-! ## The second search -/

/-- A predecessor is pushed when it is not assigned yet. -/
def assign (state : List α × List α) (parent : α) : List α × List α :=
  if parent ∈ state.2 then state else (parent :: state.1, parent :: state.2)

/-- The gathering of a component from a stack, with its top first and a step budget. -/
def gatherLoop (prev : α → List α) : Nat → List α → List α → List α → Option (List α × List α)
  | 0, _, _, _ => none
  | _ + 1, [], assigned, component => some (assigned, component)
  | steps + 1, node :: stack, assigned, component =>
    let state := (prev node).foldl assign (stack, assigned)
    gatherLoop prev steps state.1 state.2 (component ++ [node])

/-- The components of the nodes, from the last finished on. -/
def gatherAll (prev : α → List α) (steps : Nat) : List α → List α → Option (List (List α))
  | [], _ => some []
  | start :: finished, assigned =>
    if start ∈ assigned then gatherAll prev steps finished assigned
    else
      match gatherLoop prev steps [start] (start :: assigned) [] with
      | some (assigned, component) => (gatherAll prev steps finished assigned).map (component :: ·)
      | none => none

/-- The predecessors that are not assigned yet go on the stack, each once. -/
theorem foldl_assign : ∀ parents stack assigned : List α, ∃ fresh,
    parents.foldl assign (stack, assigned) = (fresh ++ stack, fresh ++ assigned) ∧ fresh.Nodup ∧
      ∀ x, x ∈ fresh ↔ x ∈ parents ∧ x ∉ assigned
  | [], stack, assigned => ⟨[], rfl, List.nodup_nil, by simp⟩
  | parent :: parents, stack, assigned => by
    rw [List.foldl_cons, assign]
    split
    next hp =>
      dsimp only at hp
      obtain ⟨fresh, hfold, hn, hfresh⟩ := foldl_assign parents stack assigned
      refine ⟨fresh, hfold, hn, fun x => ?_⟩
      rw [hfresh, List.mem_cons]
      constructor
      · exact fun ⟨hx, hxa⟩ => ⟨.inr hx, hxa⟩
      · rintro ⟨rfl | hx, hxa⟩
        · exact absurd hp hxa
        · exact ⟨hx, hxa⟩
    next hp =>
      dsimp only at hp ⊢
      obtain ⟨fresh, hfold, hn, hfresh⟩ := foldl_assign parents (parent :: stack) (parent :: assigned)
      refine ⟨fresh ++ [parent], by rw [hfold]; simp, ?_, fun x => ?_⟩
      · rw [List.nodup_append]
        refine ⟨hn, List.nodup_singleton _, fun a ha b hb heq => ?_⟩
        obtain rfl := List.mem_singleton.1 hb
        exact ((hfresh a).1 ha).2 (heq ▸ List.mem_cons_self)
      · rw [List.mem_append, List.mem_singleton, hfresh, List.mem_cons, List.mem_cons]
        by_cases hx : x = parent
        · subst hx
          simp [hp]
        · simp [hx]

theorem Gathering.gather {before : List α} {start node : α} {stack assigned component fresh : List α}
    (h : Gathering prev before start (node :: stack) assigned component) (hn : fresh.Nodup)
    (hfresh : ∀ x, x ∈ fresh ↔ x ∈ prev node ∧ x ∉ assigned) :
    Gathering prev before start (fresh ++ stack) (fresh ++ assigned) (component ++ [node]) := by
  have hmem : ∀ x, x ∈ component ++ [node] ++ (fresh ++ stack) ↔ x ∈ component ++ node :: stack ∨ x ∈ fresh := by
    intro x
    simp only [List.mem_append, List.mem_cons, List.not_mem_nil, or_false]
    tauto
  have hnew : ∀ x ∈ fresh, x ∉ component ++ node :: stack ∧ x ∉ before := by
    intro x hx
    have hxa := ((hfresh x).1 hx).2
    rw [h.assigned_iff, not_or] at hxa
    exact ⟨hxa.2, hxa.1⟩
  have hstack : (fresh ++ stack).Nodup := by
    have hold : (node :: stack).Nodup := (List.nodup_append.1 h.nodup).2.1
    refine List.nodup_append.2 ⟨hn, (List.nodup_cons.1 hold).2, fun a ha b hb heq => (hnew a ha).1 ?_⟩
    exact heq ▸ List.mem_append_right _ (List.mem_cons_of_mem _ hb)
  refine ⟨h.explored.visit (fun x => ?_) (fun x => ?_) hstack, ?_, fun x => ?_, fun x hx => ?_⟩
  · rw [hmem]
    constructor
    · rintro (hx | hx)
      · exact .inl hx
      · exact .inr ⟨((hfresh x).1 hx).1, (hnew x hx).2⟩
    · rintro (hx | ⟨hx, hxb⟩)
      · exact .inl hx
      · by_cases hk : x ∈ component ++ node :: stack
        · exact .inl hk
        · refine .inr ((hfresh x).2 ⟨hx, fun hxa => ?_⟩)
          rcases (h.assigned_iff x).1 hxa with hxa | hxa
          · exact hxb hxa
          · exact hk hxa
  · rw [hmem, List.mem_append]
    constructor
    · rintro (hx | hx)
      · exact .inr ⟨.inr hx, (hnew x hx).1⟩
      · exact .inl hx
    · rintro (hx | ⟨hx | hx, hk⟩)
      · exact .inr hx
      · exact absurd hx hk
      · exact .inl hx
  · have hperm : (component ++ [node] ++ (fresh ++ stack)).Perm (fresh ++ (component ++ node :: stack)) := by
      have hlast : fresh ++ (component ++ node :: stack) = fresh ++ (component ++ [node] ++ stack) := by simp
      rw [hlast]
      exact List.perm_append_comm_assoc _ _ _
    rw [hperm.nodup_iff, List.nodup_append]
    refine ⟨hn, h.nodup, fun a ha b hb heq => (hnew a ha).1 (heq ▸ hb)⟩
  · rw [List.mem_append, h.assigned_iff, hmem]
    tauto
  · rcases (hmem x).1 hx with hx | hx
    · exact h.fresh x hx
    · exact (hnew x hx).2

/-- **What is gathered**: the nodes that lead to the start along nodes that were not assigned before. -/
theorem gatherLoop_spec {before : List α} {start : α} :
    ∀ {steps : Nat} {stack assigned component assigned' component' : List α},
      Gathering prev before start stack assigned component →
      gatherLoop prev steps stack assigned component = some (assigned', component') →
        Gathering prev before start [] assigned' component'
  | 0, _, _, _, _, _, _, h => by cases h
  | steps + 1, [], assigned, component, _, _, hg, h => by
    obtain ⟨rfl, rfl⟩ := Prod.mk.inj (Option.some.inj h)
    exact hg
  | steps + 1, node :: stack, assigned, component, _, _, hg, h => by
    obtain ⟨fresh, hfold, hn, hfresh⟩ := foldl_assign (prev node) stack assigned
    rw [gatherLoop, hfold] at h
    exact gatherLoop_spec (hg.gather hn hfresh) h

/-- The nodes not assigned yet. -/
def unassigned (nodes assigned : List α) : Nat := (nodes.filter (· ∉ assigned)).length

theorem unassigned_append {nodes assigned fresh : List α} (hnodes : ∀ x ∈ fresh, x ∈ nodes) (hn : fresh.Nodup)
    (hnew : ∀ x ∈ fresh, x ∉ assigned) (hnd : nodes.Nodup) :
    fresh.length + unassigned nodes (fresh ++ assigned) ≤ unassigned nodes assigned := by
  unfold unassigned
  rw [← List.length_append]
  refine (List.subperm_of_subset ?_ ?_).length_le
  · refine List.nodup_append.2 ⟨hn, hnd.filter _, fun a ha b hb heq => ?_⟩
    have hb' := (List.mem_filter.1 hb).2
    simp only [decide_eq_true_eq, List.mem_append, not_or] at hb'
    exact hb'.1 (heq ▸ ha)
  · intro x hx
    rcases List.mem_append.1 hx with hx | hx
    · exact List.mem_filter.2 ⟨hnodes x hx, by simpa using hnew x hx⟩
    · obtain ⟨hxn, hxa⟩ := List.mem_filter.1 hx
      simp only [decide_eq_true_eq, List.mem_append, not_or] at hxa
      exact List.mem_filter.2 ⟨hxn, by simpa using hxa.2⟩

/-- **A gathering ends** within a step for each entry of the stack and each node not assigned, and one more. -/
theorem gatherLoop_ends {nodes : List α} (hnodes : ∀ x ∈ nodes, ∀ y ∈ prev x, y ∈ nodes) (hnd : nodes.Nodup) :
    ∀ {steps : Nat} {stack assigned component : List α}, (∀ x ∈ stack, x ∈ nodes) →
      stack.length + unassigned nodes assigned < steps → (gatherLoop prev steps stack assigned component).isSome = true
  | 0, _, _, _, _, hlt => by omega
  | _ + 1, [], _, _, _, _ => rfl
  | steps + 1, node :: stack, assigned, component, hs, hlt => by
    obtain ⟨fresh, hfold, hn, hfresh⟩ := foldl_assign (prev node) stack assigned
    have hin : ∀ x ∈ fresh, x ∈ nodes := fun x hx => hnodes node (hs node List.mem_cons_self) x ((hfresh x).1 hx).1
    have hle := unassigned_append hin hn (fun x hx => ((hfresh x).1 hx).2) hnd
    rw [gatherLoop, hfold]
    refine gatherLoop_ends hnodes hnd (fun x hx => ?_) ?_
    · rcases List.mem_append.1 hx with hx | hx
      · exact hin x hx
      · exact hs x (List.mem_cons_of_mem _ hx)
    · simp only [List.length_append, List.length_cons] at hlt ⊢
      omega

/-! ## The components -/

/-- A component: all nodes that lead to one of them and back. -/
def IsComponent (next : α → List α) (component : List α) : Prop :=
  component.Nodup ∧ ∃ root, ∀ x, x ∈ component ↔ Mutual next x root

theorem gatherAll_spec {nodes : List α} (hnodes : ∀ x ∈ nodes, ∀ y ∈ prev x, y ∈ nodes) (hnd : nodes.Nodup)
    (hedges : ∀ a b, b ∈ next a ↔ a ∈ prev b) {steps : Nat} (hsteps : nodes.length + 1 < steps) {finished : List α}
    (hordered : Ordered next finished) (hfinished : ∀ x, x ∈ finished ↔ x ∈ nodes) :
    ∀ {rest front before : List α}, finished = front ++ rest → (∀ x, x ∈ before ↔ ∃ w ∈ front, Mutual next x w) →
      ∃ components, gatherAll prev steps rest before = some components ∧
        (∀ component ∈ components, IsComponent next component) ∧
          ∀ x ∈ rest, x ∉ before → ∃ component ∈ components, x ∈ component
  | [], front, before, _, _ => ⟨[], rfl, nofun, nofun⟩
  | v :: rest, front, before, hsplit, hbefore => by
    have hsplit' : finished = (front ++ [v]) ++ rest := by simpa using hsplit
    rw [gatherAll]
    split
    next hv =>
      have hbefore' : ∀ x, x ∈ before ↔ ∃ w ∈ front ++ [v], Mutual next x w := by
        intro x
        rw [hbefore]
        constructor
        · exact fun ⟨w, hw, hm⟩ => ⟨w, List.mem_append_left _ hw, hm⟩
        · rintro ⟨w, hw, hm⟩
          rcases List.mem_append.1 hw with hw | hw
          · exact ⟨w, hw, hm⟩
          · obtain rfl := List.mem_singleton.1 hw
            obtain ⟨w', hw', hm'⟩ := (hbefore w).1 hv
            exact ⟨w', hw', hm.trans hm'⟩
      obtain ⟨components, hall, hexact, hcover⟩ := gatherAll_spec hnodes hnd hedges hsteps hordered hfinished hsplit' hbefore'
      refine ⟨components, hall, hexact, fun x hx hxb => ?_⟩
      rcases List.mem_cons.1 hx with rfl | hx
      · exact absurd hv hxb
      · exact hcover x hx hxb
    next hv =>
      have hvn : v ∈ nodes := (hfinished v).1 (hsplit ▸ List.mem_append_right _ List.mem_cons_self)
      have hstack : ∀ x ∈ [v], x ∈ nodes := by
        intro x hx
        obtain rfl := List.mem_singleton.1 hx
        exact hvn
      have hle : unassigned nodes (v :: before) ≤ nodes.length := List.length_filter_le _ _
      have hends : (gatherLoop prev steps [v] (v :: before) []).isSome = true :=
        gatherLoop_ends hnodes hnd hstack (by simp only [List.length_singleton]; omega)
      obtain ⟨⟨assigned, component⟩, hloop⟩ := Option.isSome_iff_exists.1 hends
      have hg := gatherLoop_spec (Gathering.init prev hv) hloop
      have hcomponent := gathered_iff hedges (hsplit ▸ hordered)
        (fun x hx y hy => hsplit ▸ (hfinished y).2 (hnodes x ((hfinished x).1 (hsplit ▸ hx)) y hy)) hbefore hv hg
      have hassigned : ∀ x, x ∈ assigned ↔ ∃ w ∈ front ++ [v], Mutual next x w := by
        intro x
        rw [hg.assigned_iff, List.append_nil, hcomponent, hbefore]
        simp only [List.mem_append, List.mem_singleton]
        constructor
        · rintro (⟨w, hw, hm⟩ | hm)
          · exact ⟨w, .inl hw, hm⟩
          · exact ⟨v, .inr rfl, hm⟩
        · rintro ⟨w, hw | rfl, hm⟩
          · exact .inl ⟨w, hw, hm⟩
          · exact .inr hm
      obtain ⟨components, hall, hexact, hcover⟩ := gatherAll_spec hnodes hnd hedges hsteps hordered hfinished hsplit' hassigned
      rw [hloop]
      refine ⟨component :: components, by dsimp only; rw [hall]; rfl, fun c hc => ?_, fun x hx hxb => ?_⟩
      · rcases List.mem_cons.1 hc with rfl | hc
        · exact ⟨by simpa using hg.nodup, v, hcomponent⟩
        · exact hexact c hc
      · by_cases hxc : x ∈ component
        · exact ⟨component, List.mem_cons_self, hxc⟩
        · rcases List.mem_cons.1 hx with rfl | hx
          · exact absurd ((hcomponent x).2 ⟨.refl, .refl⟩) hxc
          · have hxa : x ∉ assigned := by
              rw [hg.assigned_iff, List.append_nil]
              exact not_or.2 ⟨hxb, hxc⟩
            obtain ⟨c, hc, hxc'⟩ := hcover x hx hxa
            exact ⟨c, List.mem_cons_of_mem _ hc, hxc'⟩

/-- **The two searches find the components** of a graph: each list is one, and every node is in one. -/
theorem components_exact {nodes : List α} (hnext : ∀ x ∈ nodes, ∀ y ∈ next x, y ∈ nodes)
    (hprev : ∀ x ∈ nodes, ∀ y ∈ prev x, y ∈ nodes) (hedges : ∀ a b, b ∈ next a ↔ a ∈ prev b) (hnd : nodes.Nodup)
    {steps : Nat} (hsteps : weight next nodes [] + 1 < steps) :
    ∃ finished components, finishAll next steps nodes [] [] = some finished ∧
      gatherAll prev steps finished [] = some components ∧ (∀ component ∈ components, IsComponent next component) ∧
        ∀ x ∈ nodes, ∃ component ∈ components, x ∈ component := by
  have hstart : Searching next [] [] [] :=
    { visited_iff := by simp
      fresh := fun x hx => absurd hx List.not_mem_nil
      once := List.nodup_nil
      nodup := List.nodup_nil
      chain := .nil
      closed := fun x hx => absurd hx List.not_mem_nil
      pending := fun above x below he => by simp at he
      held := fun x hx => absurd hx List.not_mem_nil
      ordered := fun front v back he => by simp at he }
  obtain ⟨visited, finished, hall, hsearch, hin, -, hdone⟩ :=
    finishAll_spec hnext hsteps (fun x hx => hx) (fun x hx => absurd hx List.not_mem_nil) hstart
  have hvisited : ∀ x, x ∈ visited ↔ x ∈ finished := by
    intro x
    rw [hsearch.visited_iff]
    simp
  have hfinished : ∀ x, x ∈ finished ↔ x ∈ nodes := fun x =>
    ⟨fun hx => hin x ((hvisited x).2 hx), fun hx => (hvisited x).1 (hdone x hx)⟩
  have hsteps' : nodes.length + 1 < steps := by
    have := length_le_weight next nodes
    omega
  have hbefore : ∀ x, x ∈ ([] : List α) ↔ ∃ w ∈ ([] : List α), Mutual next x w := by simp
  obtain ⟨components, hgather, hexact, hcover⟩ :=
    gatherAll_spec hprev hnd hedges hsteps' hsearch.ordered hfinished (List.nil_append finished).symm hbefore
  exact ⟨finished, components, hall, hgather, hexact, fun x hx => hcover x ((hfinished x).2 hx) List.not_mem_nil⟩

end Components
