/-
Computations that may fail, `Except`: what a successful run says about its steps.
-/
import Mathlib

namespace Except

variable {ε ε' α β : Type} {x : Except ε α}

theorem bind_eq_ok {f : α → Except ε β} {b : β} : (x >>= f) = .ok b ↔ ∃ a, x = .ok a ∧ f a = .ok b := by
  cases x with
  | error e => simp [bind, Except.bind]
  | ok a => simp [bind, Except.bind]

theorem mapError_eq_ok {f : ε → ε'} {a : α} : x.mapError f = .ok a ↔ x = .ok a := by
  cases x <;> simp [Except.mapError]

/-- A loop whose steps can only return `g a` collects the `g a`. -/
theorem mapM_eq_ok {f : α → Except ε β} {g : α → β} (hf : ∀ a b, f a = .ok b → b = g a) :
    ∀ {l : List α} {bs : List β}, l.mapM f = .ok bs → bs = l.map g
  | [], bs, h => by
    rw [List.mapM_nil] at h
    exact (Except.ok.inj h).symm
  | a :: l, bs, h => by
    rw [List.mapM_cons, bind_eq_ok] at h
    obtain ⟨b, hb, h⟩ := h
    rw [bind_eq_ok] at h
    obtain ⟨bs', hbs, h⟩ := h
    obtain rfl : b :: bs' = bs := Except.ok.inj h
    rw [List.map_cons, hf a b hb, mapM_eq_ok hf hbs]

/-- A loop whose every step returns collects what the steps return. -/
theorem mapM_of_ok {f : α → Except ε β} {g : α → β} : ∀ {l : List α}, (∀ a ∈ l, f a = .ok (g a)) →
    l.mapM f = .ok (l.map g)
  | [], _ => rfl
  | a :: l, hf => by
    rw [List.mapM_cons, hf a List.mem_cons_self, mapM_of_ok fun b hb => hf b (List.mem_cons_of_mem _ hb)]
    rfl

/-- What a loop collects, some step returned. -/
theorem exists_of_mapM_ok {f : α → Except ε β} {b : β} : ∀ {l : List α} {bs : List β}, l.mapM f = .ok bs → b ∈ bs →
    ∃ a, f a = .ok b
  | [], bs, h, hb => by
    rw [List.mapM_nil] at h
    obtain rfl : [] = bs := Except.ok.inj h
    exact absurd hb List.not_mem_nil
  | a :: l, bs, h, hb => by
    rw [List.mapM_cons, bind_eq_ok] at h
    obtain ⟨b', hb', h⟩ := h
    rw [bind_eq_ok] at h
    obtain ⟨bs', hbs, h⟩ := h
    obtain rfl : b' :: bs' = bs := Except.ok.inj h
    rcases List.mem_cons.1 hb with rfl | hb
    · exact ⟨a, hb'⟩
    · exact exists_of_mapM_ok hbs hb

end Except
