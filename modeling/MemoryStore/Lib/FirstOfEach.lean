/-
The first row of each key: a list without the rows whose key was already seen.
Where the rows are ranked, these are the best rows.
-/
import Mathlib

namespace FirstOfEach

variable {α κ : Type*} [DecidableEq κ] (key : α → κ)

/-- Each row whose key no earlier row has. -/
def firstOfEach : List α → List α
  | [] => []
  | a :: l => a :: (firstOfEach l).filter fun b => key b ≠ key a

theorem firstOfEach_sublist : ∀ l : List α, (firstOfEach key l).Sublist l
  | [] => .slnil
  | a :: l => (List.filter_sublist.trans (firstOfEach_sublist l)).cons_cons a

/-- **One key keeps its first row.** -/
theorem filter_firstOfEach (k : κ) : ∀ l : List α,
    (firstOfEach key l).filter (fun a => key a = k) = (l.filter fun a => key a = k).take 1
  | [] => rfl
  | a :: l => by
    unfold firstOfEach
    by_cases hk : key a = k
    · rw [List.filter_cons_of_pos (by simpa using hk), List.filter_cons_of_pos (by simpa using hk), List.filter_filter]
      have hnone : (firstOfEach key l).filter (fun b => decide (key b = k) && decide (key b ≠ key a)) = [] :=
        List.filter_eq_nil_iff.2 fun b _ => by simp [hk]
      rw [hnone, List.take_succ_cons, List.take_zero]
    · rw [List.filter_cons_of_neg (by simpa using hk), List.filter_cons_of_neg (by simpa using hk), List.filter_filter,
        ← filter_firstOfEach k l]
      refine List.filter_congr fun b _ => ?_
      by_cases hb : key b = k
      · simp [hb, Ne.symm hk]
      · simp [hb]

theorem mem_keys_firstOfEach (l : List α) (k : κ) : (∃ a ∈ firstOfEach key l, key a = k) ↔ ∃ a ∈ l, key a = k := by
  have hpos : ∀ rows : List α, (∃ a ∈ rows, key a = k) ↔ rows.filter (fun a => key a = k) ≠ [] := fun rows => by
    rw [Ne, List.filter_eq_nil_iff]
    simp
  rw [hpos, hpos, filter_firstOfEach]
  cases l.filter (fun a => key a = k) <;> simp

/-- A row at the end stays when its key is new. -/
theorem firstOfEach_append_singleton (a : α) : ∀ l : List α,
    firstOfEach key (l ++ [a]) = if ∃ b ∈ l, key b = key a then firstOfEach key l else firstOfEach key l ++ [a]
  | [] => by simp [firstOfEach]
  | b :: l => by
    rw [List.cons_append, firstOfEach, firstOfEach, firstOfEach_append_singleton a l]
    by_cases hb : key b = key a
    · have hex : ∃ c ∈ b :: l, key c = key a := ⟨b, List.mem_cons_self, hb⟩
      rw [if_pos hex]
      split
      · rfl
      · rw [List.filter_append]
        simp [hb]
    · have hiff : (∃ c ∈ b :: l, key c = key a) ↔ ∃ c ∈ l, key c = key a := by
        simp [hb]
      simp only [hiff]
      split
      · rfl
      · rw [List.filter_append, List.cons_append]
        have hne : key a ≠ key b := Ne.symm hb
        simp [hne]

theorem nodup_keys_firstOfEach : ∀ l : List α, ((firstOfEach key l).map key).Nodup
  | [] => .nil
  | a :: l => by
    unfold firstOfEach
    rw [List.map_cons, List.nodup_cons]
    refine ⟨fun hmem => ?_, (nodup_keys_firstOfEach l).sublist (List.filter_sublist.map key)⟩
    obtain ⟨b, hb, hkey⟩ := List.mem_map.1 hmem
    exact absurd hkey (by simpa using (List.mem_filter.1 hb).2)

/-- Nothing is dropped from a list of distinct keys. -/
theorem firstOfEach_eq_self : ∀ {l : List α}, (l.map key).Nodup → firstOfEach key l = l
  | [], _ => rfl
  | a :: l, h => by
    rw [List.map_cons, List.nodup_cons] at h
    unfold firstOfEach
    rw [firstOfEach_eq_self h.2, List.filter_eq_self.2]
    intro b hb
    have hne : key b ≠ key a := fun heq => h.1 (heq ▸ List.mem_map_of_mem hb)
    simpa using hne

theorem length_firstOfEach_lt {l : List α} (h : ¬ (l.map key).Nodup) : (firstOfEach key l).length < l.length := by
  refine Nat.lt_of_le_of_ne (firstOfEach_sublist key l).length_le fun heq => h ?_
  rw [← (firstOfEach_sublist key l).eq_of_length heq]
  exact nodup_keys_firstOfEach key l

theorem length_firstOfEach_eq_iff {l : List α} : (firstOfEach key l).length = l.length ↔ (l.map key).Nodup := by
  constructor
  · intro h
    by_contra hn
    exact absurd h (Nat.ne_of_lt (length_firstOfEach_lt key hn))
  · intro h
    rw [firstOfEach_eq_self key h]

/-- Rows made from other rows, with keys that tell them apart as theirs do. -/
theorem firstOfEach_map {β κ' : Type*} [DecidableEq κ'] {f : β → α} {key' : β → κ'}
    (h : ∀ a b, key (f a) = key (f b) ↔ key' a = key' b) :
    ∀ l : List β, firstOfEach key (l.map f) = (firstOfEach key' l).map f
  | [] => rfl
  | a :: l => by
    rw [List.map_cons, firstOfEach, firstOfEach, firstOfEach_map h l, List.filter_map, List.map_cons]
    refine congrArg _ (congrArg _ (List.filter_congr fun b _ => ?_))
    simp [h]

theorem mem_firstOfEach_id {l : List κ} {a : κ} : a ∈ firstOfEach id l ↔ a ∈ l := by
  simpa using mem_keys_firstOfEach id l a

/-- A start of distinct keys stays where it is. -/
theorem take_firstOfEach : ∀ {n : ℕ} {l : List α}, ((l.take n).map key).Nodup →
    (firstOfEach key l).take n = l.take n
  | 0, _, _ => by simp
  | _ + 1, [], _ => rfl
  | n + 1, a :: l, h => by
    rw [List.take_succ_cons, List.map_cons, List.nodup_cons] at h
    unfold firstOfEach
    rw [List.take_succ_cons, List.take_succ_cons, ← take_firstOfEach h.2]
    -- the rows dropped for the key of `a` come after the first `n`
    have hstart : ∀ b ∈ (firstOfEach key l).take n, key b ≠ key a := by
      intro b hb heq
      rw [take_firstOfEach h.2] at hb
      exact h.1 (heq ▸ List.mem_map_of_mem hb)
    obtain ⟨rest, hrest⟩ : ∃ rest, firstOfEach key l = (firstOfEach key l).take n ++ rest :=
      ⟨_, (List.take_append_drop n _).symm⟩
    by_cases hlen : n ≤ (firstOfEach key l).length
    · congr 1
      conv_lhs => rw [hrest, List.filter_append]
      rw [List.filter_eq_self.2 (fun b hb => by simpa using hstart b hb), List.take_left' (by rw [List.length_take]; omega)]
    · have hall : (firstOfEach key l).take n = firstOfEach key l := List.take_of_length_le (by omega)
      rw [hall] at hstart ⊢
      rw [List.filter_eq_self.2 (fun b hb => by simpa using hstart b hb), hall]

end FirstOfEach
