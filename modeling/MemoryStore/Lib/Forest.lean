/-
Forests given by a parent function: every node has at most one parent, and
the question is whether following parents ever comes back. The library knows
three things about them: which edits keep a forest a forest (dropping parents,
and giving a parent to a root that the new parent does not descend from), that
a walk up the parents with a set of visited nodes ends at a root without ever
meeting its own trace, and that the root reached is the only one.
-/
import Mathlib

namespace Forest

variable {K : Type} {par par' : K → Option K}

/-- One step up. -/
def Up (par : K → Option K) (a b : K) : Prop := par a = some b

/-- Any number of steps up. -/
abbrev Climbs (par : K → Option K) : K → K → Prop := Relation.ReflTransGen (Up par)

/-- At least one step up. -/
abbrev Descends (par : K → Option K) : K → K → Prop := Relation.TransGen (Up par)

/-- No node is its own ancestor. -/
def Acyclic (par : K → Option K) : Prop := ∀ k, ¬ Descends par k k

/-- The root above a node. -/
def IsRoot (par : K → Option K) (k r : K) : Prop := Climbs par k r ∧ par r = none

/-! ## Edits -/

/-- Dropping parents keeps a forest. -/
theorem Acyclic.mono (h : Acyclic par) (hs : ∀ a b, par' a = some b → par a = some b) : Acyclic par' :=
  fun k hk => h k (Relation.TransGen.mono (fun a b => hs a b) k k hk)

/-- From the new parent, the new edge is never used. -/
theorem climbs_of_insert [DecidableEq K] {c p a : K} (hno : ¬ Climbs par a c) :
    ∀ {b : K}, Climbs (Function.update par c (some p)) a b → Climbs par a b := by
  intro b hb
  induction hb with
  | refl => exact .refl
  | @tail x y hax hxy ih =>
    by_cases hxc : x = c
    · exact absurd (hxc ▸ ih) hno
    · simp only [Up, Function.update_of_ne hxc] at hxy
      exact ih.tail hxy

/-- A climb that crosses the new edge reaches the child first. -/
theorem descends_of_insert [DecidableEq K] {c p a b : K}
    (h : Descends (Function.update par c (some p)) a b) :
    Descends par a b ∨ (Climbs par a c ∧ Climbs (Function.update par c (some p)) p b) := by
  induction h with
  | @single b hab =>
    by_cases hac : a = c
    · subst hac
      have : p = b := by simpa [Up] using hab
      exact .inr ⟨.refl, this ▸ .refl⟩
    · exact .inl (.single (by simpa [Up, Function.update_of_ne hac] using hab))
  | @tail x y _ hxy ih =>
    rcases ih with ih | ⟨h₁, h₂⟩
    · by_cases hxc : x = c
      · subst hxc
        have : p = y := by simpa [Up] using hxy
        exact .inr ⟨ih.to_reflTransGen, this ▸ .refl⟩
      · exact .inl (ih.tail (by simpa [Up, Function.update_of_ne hxc] using hxy))
    · exact .inr ⟨h₁, h₂.tail hxy⟩

/-- **Insertion.** A node may get a parent that does not descend from it. -/
theorem Acyclic.insert [DecidableEq K] (h : Acyclic par) {c p : K} (hno : ¬ Climbs par p c) :
    Acyclic (Function.update par c (some p)) := by
  intro k hk
  rcases descends_of_insert hk with hk | ⟨hkc, hpk⟩
  · exact h k hk
  · exact hno ((climbs_of_insert hno hpk).trans hkc)

/-- Two parent functions that differ at one node only climb alike from a node that is not below it. -/
theorem climbs_iff_of_agree {c a b : K} (h : ∀ k, k ≠ c → par' k = par k) (hno : ¬ Climbs par a c) :
    Climbs par' a b ↔ Climbs par a b := by
  constructor
  · intro hb
    induction hb with
    | refl => exact .refl
    | @tail x y _ hxy ih => exact ih.tail (by rwa [Up, h x (fun he => hno (he ▸ ih))] at hxy)
  · intro hb
    induction hb with
    | refl => exact .refl
    | @tail x y hax hxy ih => exact ih.tail (by rwa [Up, h x (fun he => hno (he ▸ hax))])

/-! ## Walks -/

/-- How a walk up the parents ends. -/
inductive WalkEnd (K : Type) where
  | stopped (at' : K)
  | root (at' : K)
  | revisited (at' : K)
  | exhausted
  deriving DecidableEq, Repr

/-- Walk up from a node until `stop` holds, the parents end, or the walk meets
its own trace. -/
def walk [DecidableEq K] (par : K → Option K) (stop : K → Bool) : Nat → List K → K → WalkEnd K
  | 0, _, _ => .exhausted
  | fuel + 1, visited, k =>
    if stop k then .stopped k
    else if k ∈ visited then .revisited k
    else match par k with
      | none => .root k
      | some p => walk par stop fuel (k :: visited) p

section Walks

variable [DecidableEq K] {stop : K → Bool}

theorem walk_stopped : ∀ {fuel visited k t}, walk par stop fuel visited k = .stopped t →
    Climbs par k t ∧ stop t = true
  | 0, _, _, _, h => by simp [walk] at h
  | fuel + 1, visited, k, t, h => by
    simp only [walk] at h
    split at h
    · next hs => obtain rfl := WalkEnd.stopped.inj h; exact ⟨.refl, hs⟩
    · split at h
      · simp at h
      · split at h
        · simp at h
        · next p hp =>
          obtain ⟨h₁, h₂⟩ := walk_stopped h
          exact ⟨.head hp h₁, h₂⟩

theorem walk_root : ∀ {fuel visited k r}, walk par stop fuel visited k = .root r →
    IsRoot par k r ∧ ∀ x, Climbs par k x → stop x = false
  | 0, _, _, _, h => by simp [walk] at h
  | fuel + 1, visited, k, r, h => by
    simp only [walk] at h
    split at h
    · simp at h
    · next hs =>
      split at h
      · simp at h
      · split at h
        · next hn =>
          obtain rfl := WalkEnd.root.inj h
          refine ⟨⟨.refl, hn⟩, fun x hx => ?_⟩
          rcases hx.cases_head with rfl | ⟨y, hy, -⟩
          · simpa using hs
          · simp [Up, hn] at hy
        · next p hp =>
          obtain ⟨⟨h₁, h₂⟩, h₃⟩ := walk_root h
          refine ⟨⟨.head hp h₁, h₂⟩, fun x hx => ?_⟩
          rcases hx.cases_head with rfl | ⟨y, hy, hyx⟩
          · simpa using hs
          · obtain rfl : p = y := Option.some.inj (hp.symm.trans hy)
            exact h₃ x hyx

/-- A walk that meets its own trace has seen all there is above it, and stopped nowhere. -/
theorem walk_revisited : ∀ {fuel visited k t}, walk par stop fuel visited k = .revisited t →
    (∀ v ∈ visited, stop v = false ∧ ∀ p, par v = some p → p ∈ visited ∨ p = k) →
    ∀ x, Climbs par k x → stop x = false
  | 0, _, _, _, h, _, _, _ => by simp [walk] at h
  | fuel + 1, visited, k, t, h, hv, x, hx => by
    simp only [walk] at h
    split at h
    · simp at h
    · next hs =>
      have hs : stop k = false := by simpa using hs
      split at h
      · next hk =>
        -- The trace is closed under going up.
        have hclosed : ∀ {x}, Climbs par k x → x ∈ visited := fun hx => by
          induction hx with
          | refl => exact hk
          | tail _ hab ih =>
            rcases (hv _ ih).2 _ hab with hp | rfl
            · exact hp
            · exact hk
        exact (hv x (hclosed hx)).1
      · split at h
        · simp at h
        · next p hp =>
          rcases hx.cases_head with rfl | ⟨y, hy, hyx⟩
          · exact hs
          · obtain rfl : p = y := Option.some.inj (hp.symm.trans hy)
            refine walk_revisited h (fun v hv' => ?_) x hyx
            rcases List.mem_cons.1 hv' with rfl | hv'
            · exact ⟨hs, fun q hq => .inr (Option.some.inj (hq.symm.trans hp))⟩
            · refine ⟨(hv v hv').1, fun q hq => .inl ?_⟩
              rcases (hv v hv').2 q hq with hq | rfl
              · exact List.mem_cons_of_mem _ hq
              · exact List.mem_cons_self

/-- In a forest the visited guard never stops a walk. -/
theorem Acyclic.walk_ne_revisited (h : Acyclic par) : ∀ {fuel visited k},
    (∀ v ∈ visited, Descends par v k) → ∀ t, walk par stop fuel visited k ≠ .revisited t
  | 0, _, _, _, _, he => by simp [walk] at he
  | fuel + 1, visited, k, hv, t, he => by
    simp only [walk] at he
    split at he
    · simp at he
    · split at he
      · next hk => exact h k (hv k hk)
      · split at he
        · simp at he
        · next p hp =>
          refine Acyclic.walk_ne_revisited h (fun v hv' => ?_) t he
          rcases List.mem_cons.1 hv' with rfl | hv'
          · exact .single hp
          · exact (hv v hv').tail hp

/-- A walk never runs out of steps: its trace is a list of distinct nodes with
a parent, and there are at most `dom.length` of those. -/
theorem walk_ne_exhausted {dom : List K} (hdom : ∀ k p, par k = some p → k ∈ dom) :
    ∀ {fuel visited k}, visited.Nodup → visited ⊆ dom → dom.length < fuel + visited.length →
      walk par stop fuel visited k ≠ .exhausted
  | 0, visited, _, hn, hs, hf, _ => by
    have := (hn.subperm hs).length_le
    omega
  | fuel + 1, visited, k, hn, hs, hf, he => by
    simp only [walk] at he
    split at he
    · simp at he
    · split at he
      · simp at he
      · next hk =>
        split at he
        · simp at he
        · next p hp =>
          exact walk_ne_exhausted hdom (List.nodup_cons.2 ⟨hk, hn⟩)
            (List.cons_subset.2 ⟨hdom k p hp, hs⟩) (by simp only [List.length_cons]; omega) he

/-- A walk with enough steps stops exactly when there is somewhere above to stop, cycles or not. -/
theorem walk_stops_iff {dom : List K} (hdom : ∀ k p, par k = some p → k ∈ dom) (stop : K → Bool) {fuel : Nat}
    (hf : dom.length < fuel) (k : K) :
    (∃ t, walk par stop fuel [] k = .stopped t) ↔ ∃ t, Climbs par k t ∧ stop t = true := by
  constructor
  · rintro ⟨t, ht⟩
    exact ⟨t, walk_stopped ht⟩
  · rintro ⟨t, hc, hs⟩
    cases hw : walk par stop fuel [] k with
    | stopped t' => exact ⟨t', rfl⟩
    | root r => simp [(walk_root hw).2 t hc] at hs
    | revisited r => simp [walk_revisited hw (by simp) t hc] at hs
    | exhausted =>
      exact absurd hw (walk_ne_exhausted hdom List.nodup_nil (List.nil_subset _) (by simpa using hf))

/-- **Walks end.** In a forest a walk with enough steps stops where it was told
to, or at a root. -/
theorem Acyclic.walk_ends (h : Acyclic par) {dom : List K} (hdom : ∀ k p, par k = some p → k ∈ dom)
    (stop : K → Bool) {fuel : Nat} (hf : dom.length < fuel) (k : K) :
    (∃ t, walk par stop fuel [] k = .stopped t) ∨ ∃ r, walk par stop fuel [] k = .root r := by
  have h₁ : ∀ t, walk par stop fuel [] k ≠ .revisited t := h.walk_ne_revisited (by simp)
  have h₂ : walk par stop fuel [] k ≠ .exhausted :=
    walk_ne_exhausted hdom List.nodup_nil (List.nil_subset _) (by simpa using hf)
  cases hw : walk par stop fuel [] k with
  | stopped t => exact .inl ⟨t, rfl⟩
  | root r => exact .inr ⟨r, rfl⟩
  | revisited t => exact absurd hw (h₁ t)
  | exhausted => exact absurd hw h₂

end Walks

/-! ## Roots -/

/-- Two climbs from one node: one goes through the end of the other. -/
theorem Climbs.total {a b c : K} (hb : Climbs par a b) (hc : Climbs par a c) :
    Climbs par b c ∨ Climbs par c b := by
  induction hb with
  | refl => exact .inl hc
  | @tail x y _ hxy ih =>
    rcases ih with ih | ih
    · rcases ih.cases_head with rfl | ⟨z, hz, hzc⟩
      · exact .inr (.single hxy)
      · obtain rfl : y = z := Option.some.inj (hxy.symm.trans hz)
        exact .inl hzc
    · exact .inr (ih.tail hxy)

theorem climbs_of_none {a b : K} (h : par a = none) (hc : Climbs par a b) : a = b := by
  rcases hc.cases_head with rfl | ⟨y, hy, -⟩
  · rfl
  · simp [Up, h] at hy

theorem IsRoot.unique {k r r' : K} (h : IsRoot par k r) (h' : IsRoot par k r') : r = r' := by
  rcases h.1.total h'.1 with hc | hc
  · exact climbs_of_none h.2 hc
  · exact (climbs_of_none h'.2 hc).symm

theorem Acyclic.exists_root [DecidableEq K] (h : Acyclic par) {dom : List K}
    (hdom : ∀ k p, par k = some p → k ∈ dom) (k : K) : ∃ r, IsRoot par k r := by
  rcases h.walk_ends hdom (fun _ => false) (Nat.lt_succ_self dom.length) k with ⟨t, ht⟩ | ⟨r, hr⟩
  · exact absurd (walk_stopped ht).2 (by simp)
  · exact ⟨r, (walk_root hr).1⟩

end Forest
