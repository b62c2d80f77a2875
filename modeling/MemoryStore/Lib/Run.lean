/-
Runs of a system whose actions are functions on its states. A run may be held
to a condition on each step, stated on the state before it and the action
taken; what every such step preserves holds after every such run.
-/
import Mathlib

namespace Run

variable {σ α : Type*}

/-- One step: some action the condition allows, taken from this state. -/
def Step (exec : α → σ → σ) (allowed : σ → α → Prop) (s s' : σ) : Prop :=
  ∃ a, allowed s a ∧ exec a s = s'

/-- The states a run of allowed steps leads to. -/
abbrev Reaches (exec : α → σ → σ) (allowed : σ → α → Prop) : σ → σ → Prop :=
  Relation.ReflTransGen (Step exec allowed)

/-- Any action, in any state. -/
def anyAction : σ → α → Prop := fun _ _ => True

variable {exec : α → σ → σ} {allowed allowed' : σ → α → Prop}

/-- **The run rule.** What every allowed step preserves, every run preserves. -/
theorem Reaches.invariant {I : σ → Prop} (step : ∀ s a, I s → allowed s a → I (exec a s)) {s s' : σ}
    (h : Reaches exec allowed s s') (hs : I s) : I s' := by
  induction h with
  | refl => exact hs
  | tail _ hstep ih =>
    obtain ⟨a, ha, rfl⟩ := hstep
    exact step _ a ih ha

/-- A run held to a condition is a run held to any weaker one. -/
theorem Reaches.mono (h : ∀ s a, allowed s a → allowed' s a) {s s' : σ} (hr : Reaches exec allowed s s') :
    Reaches exec allowed' s s' :=
  Relation.ReflTransGen.mono (fun _ _ ⟨a, ha, he⟩ => ⟨a, h _ a ha, he⟩) _ _ hr

theorem Reaches.any {s s' : σ} (hr : Reaches exec allowed s s') : Reaches exec anyAction s s' :=
  hr.mono fun _ _ _ => trivial

/-- Taking a list of actions, one after the other. -/
def execAll (exec : α → σ → σ) (actions : List α) (s : σ) : σ := actions.foldl (fun s a => exec a s) s

theorem reaches_execAll {actions : List α} (h : ∀ a ∈ actions, ∀ s, allowed s a) (s : σ) :
    Reaches exec allowed s (execAll exec actions s) := by
  induction actions generalizing s with
  | nil => exact .refl
  | cons a actions ih => exact .head ⟨a, h a (by simp) s, rfl⟩ (ih (fun b hb => h b (by simp [hb])) (exec a s))

/-- Each of a list of actions is allowed where it is taken. -/
def Allowed (exec : α → σ → σ) (allowed : σ → α → Prop) : List α → σ → Prop
  | [], _ => True
  | a :: actions, s => allowed s a ∧ Allowed exec allowed actions (exec a s)

instance Allowed.decidable [∀ s a, Decidable (allowed s a)] :
    ∀ (actions : List α) (s : σ), Decidable (Allowed exec allowed actions s)
  | [], _ => isTrue trivial
  | a :: actions, s =>
    @instDecidableAnd _ _ _ (Allowed.decidable actions (exec a s))

theorem reaches_of_allowed : ∀ {actions : List α} {s : σ}, Allowed exec allowed actions s →
    Reaches exec allowed s (execAll exec actions s)
  | [], _, _ => .refl
  | a :: _, _, ⟨ha, hrest⟩ => .head ⟨a, ha, rfl⟩ (reaches_of_allowed hrest)

theorem allowed_any : ∀ (actions : List α) (s : σ), Allowed exec anyAction actions s
  | [], _ => trivial
  | a :: actions, s => ⟨trivial, allowed_any actions (exec a s)⟩

/-- Two conditions that agree wherever a run comes to allow the same runs. -/
theorem allowed_congr {I : σ → Prop} (hI : ∀ s a, I s → I (exec a s))
    (h : ∀ s a, I s → (allowed s a ↔ allowed' s a)) : ∀ (actions : List α) {s : σ}, I s →
      (Allowed exec allowed actions s ↔ Allowed exec allowed' actions s)
  | [], _, _ => Iff.rfl
  | a :: actions, s, hs => and_congr (h s a hs) (allowed_congr hI h actions (hI s a hs))

/-- What every allowed step preserves holds all along an allowed run. -/
theorem Allowed.invariant {I : σ → Prop} (step : ∀ s a, I s → allowed s a → I (exec a s)) :
    ∀ {actions : List α} {s : σ}, Allowed exec allowed actions s → I s → ∀ n, I (execAll exec (actions.take n) s)
  | [], _, _, hs, _ => by simpa [execAll] using hs
  | _ :: _, _, _, hs, 0 => hs
  | a :: _, s, h, hs, n + 1 => h.2.invariant step (step s a hs h.1) n

/-- **The exact run rule**, for runs held to an assumption. Where a step keeps a
property exactly if it is allowed, the property holds throughout a run exactly
if every step of it is allowed. -/
theorem throughout_iff_assuming {I J : σ → Prop} {assumed : σ → α → Prop}
    (hJ : ∀ s a, J s → assumed s a → J (exec a s))
    (step : ∀ s a, J s → assumed s a → I s → (I (exec a s) ↔ allowed s a)) : ∀ (actions : List α) {s : σ},
      Allowed exec assumed actions s → J s → I s →
        ((∀ n, I (execAll exec (actions.take n) s)) ↔ Allowed exec allowed actions s)
  | [], s, _, _, hs => by simp [execAll, Allowed, hs]
  | a :: actions, s, hassumed, hj, hs => by
    have ih := throughout_iff_assuming hJ step actions hassumed.2 (hJ s a hj hassumed.1)
    constructor
    · intro h
      have ha : I (exec a s) := h 1
      exact ⟨(step s a hj hassumed.1 hs).1 ha, (ih ha).1 fun n => h (n + 1)⟩
    · rintro ⟨ha, hrest⟩ n
      have hi := (step s a hj hassumed.1 hs).2 ha
      cases n with
      | zero => exact hs
      | succ n => exact (ih hi).2 hrest n

/-- The exact run rule for every run. -/
theorem throughout_iff {I J : σ → Prop} (hJ : ∀ s a, J s → J (exec a s))
    (step : ∀ s a, J s → I s → (I (exec a s) ↔ allowed s a)) (actions : List α) {s : σ} (hj : J s) (hs : I s) :
    (∀ n, I (execAll exec (actions.take n) s)) ↔ Allowed exec allowed actions s :=
  throughout_iff_assuming (fun s a h _ => hJ s a h) (fun s a h _ => step s a h) actions (allowed_any actions s) hj hs

end Run
