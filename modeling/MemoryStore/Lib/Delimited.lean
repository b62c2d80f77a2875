/-
Texts joined by a separator that they may contain themselves. Cutting the joined
text at the separator gives the pieces of its parts, one part after the other,
and no more is kept: two lists of parts are joined to the same text exactly when
they fall into the same pieces.
-/
import Mathlib

namespace Delimited

variable {α : Type}

/-! ## Two parts -/

/-- The first part ends earlier than the other first part, at a separator that is within it. -/
def Shifted (x : α) (a b a' b' : List α) : Prop := ∃ mid, a' = a ++ x :: mid ∧ b = mid ++ x :: b'

/-- Of two parts, the joined text tells all but which separator is theirs. -/
theorem pair_eq_iff (x : α) {a b a' b' : List α} :
    a ++ x :: b = a' ++ x :: b' ↔ a = a' ∧ b = b' ∨ Shifted x a b a' b' ∨ Shifted x a' b' a b := by
  constructor
  · intro h
    rcases List.append_eq_append_iff.1 h with ⟨more, ha, hb⟩ | ⟨more, ha, hb⟩
    · cases more with
      | nil =>
        obtain ⟨-, rfl⟩ := List.cons.inj hb
        exact .inl ⟨by rw [ha, List.append_nil], rfl⟩
      | cons y mid =>
        obtain ⟨rfl, rfl⟩ := List.cons.inj hb
        exact .inr (.inl ⟨mid, ha, rfl⟩)
    · cases more with
      | nil =>
        obtain ⟨-, rfl⟩ := List.cons.inj hb
        exact .inl ⟨by rw [ha, List.append_nil], rfl⟩
      | cons y mid =>
        obtain ⟨rfl, rfl⟩ := List.cons.inj hb
        exact .inr (.inr ⟨mid, ha, rfl⟩)
  · rintro (⟨rfl, rfl⟩ | ⟨mid, rfl, rfl⟩ | ⟨mid, rfl, rfl⟩) <;> simp

/-! ## Many parts -/

variable [BEq α] [LawfulBEq α]

/-- The pieces of the parts. -/
def pieces (x : α) (parts : List (List α)) : List (List α) := parts.flatMap fun part => part.splitOn x

theorem splitOn_joined (x : α) : ∀ {parts : List (List α)}, parts ≠ [] →
    ([x].intercalate parts).splitOn x = pieces x parts
  | [], h => absurd rfl h
  | [part], _ => by simp [pieces]
  | part :: next :: rest, _ => by
    have ih := splitOn_joined x (List.cons_ne_nil next rest)
    rw [List.intercalate_cons_cons, List.append_assoc, List.singleton_append, List.splitOn_append_cons_self, ih]
    rfl

/-- **The pieces are what the joined text tells of its parts.** -/
theorem joined_eq_iff (x : α) {parts parts' : List (List α)} (h : parts ≠ []) (h' : parts' ≠ []) :
    [x].intercalate parts = [x].intercalate parts' ↔ pieces x parts = pieces x parts' := by
  rw [← splitOn_joined x h, ← splitOn_joined x h']
  constructor
  · exact fun he => by rw [he]
  · intro he
    calc [x].intercalate parts = [x].intercalate (([x].intercalate parts).splitOn x) :=
          (List.intercalate_splitOn x).symm
      _ = [x].intercalate parts' := by rw [he, List.intercalate_splitOn]

end Delimited
