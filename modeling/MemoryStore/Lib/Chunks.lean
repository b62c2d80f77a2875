/-
A list cut into pieces. The pieces of at most a given length, as `slice::chunks`
makes them, make up the list; pieces that each belong to a key of their own are
what the list has for the key.
-/
import Mathlib

namespace List

variable {α : Type*}

theorem flatten_toChunks_go (n : ℕ) : ∀ (l : List α) (piece : Array α) (pieces : Array (List α)),
    (toChunks.go n l piece pieces).flatten = pieces.toList.flatten ++ (piece.toList ++ l)
  | [], piece, pieces => by
    simp only [toChunks.go, Array.toList_push, flatten_append, flatten_cons, flatten_nil, append_nil]
  | a :: l, piece, pieces => by
    unfold toChunks.go
    split
    · rw [flatten_toChunks_go n l]
      simp
    · rw [flatten_toChunks_go n l]
      simp

/-- **The pieces make up the list.** -/
theorem flatten_toChunks (n : ℕ) (l : List α) : (l.toChunks n).flatten = l := by
  match n, l with
  | _, [] => simp [toChunks]
  | 0, a :: l => simp [toChunks]
  | n + 1, a :: l =>
    simp only [toChunks]
    rw [flatten_toChunks_go]
    simp

section Keys

variable {κ α β : Type*} {belongs : κ → β → Prop}

theorem exists_key_of_mem_flatten {b : β} : ∀ {keys : List κ} {pieces : List (List β)},
    Forall₂ (fun k piece => ∀ b ∈ piece, belongs k b) keys pieces → b ∈ pieces.flatten → ∃ k ∈ keys, belongs k b
  | [], _, .nil, hb => absurd hb not_mem_nil
  | k :: keys, piece :: pieces, .cons hpiece hpieces, hb => by
    rw [flatten_cons, mem_append] at hb
    rcases hb with hb | hb
    · exact ⟨k, mem_cons_self, hpiece b hb⟩
    · obtain ⟨k', hk', hbelongs⟩ := exists_key_of_mem_flatten hpieces hb
      exact ⟨k', mem_cons_of_mem _ hk', hbelongs⟩

/-- Pieces that belong to keys share nothing, when nothing belongs to two of the keys. -/
theorem nodup_flatten_of_keys : ∀ {keys : List κ} {pieces : List (List β)},
    Forall₂ (fun k piece => (∀ b ∈ piece, belongs k b) ∧ piece.Nodup) keys pieces →
      keys.Pairwise (fun k k' => ∀ b, belongs k b → ¬belongs k' b) → pieces.flatten.Nodup
  | [], _, .nil, _ => nodup_nil
  | k :: keys, piece :: pieces, .cons hpiece hpieces, hkeys => by
    rw [pairwise_cons] at hkeys
    rw [flatten_cons, nodup_append]
    refine ⟨hpiece.2, nodup_flatten_of_keys hpieces hkeys.2, ?_⟩
    rintro b hb _ hb' rfl
    obtain ⟨k', hk', hbelongs⟩ := exists_key_of_mem_flatten (hpieces.imp fun _ _ h => h.1) hb'
    exact hkeys.1 k' hk' b (hpiece.1 b hb) hbelongs

/-- **What is cut into pieces by keys** is, key after key, what belongs to the key. -/
theorem eq_flatMap_filter (f : α → β) [∀ k b, Decidable (belongs k b)] :
    ∀ {keys : List κ} {pieces : List (List β)} {l : List α},
      Forall₂ (fun k piece => ∀ b ∈ piece, belongs k b) keys pieces →
        keys.Pairwise (fun k k' => ∀ b, belongs k b → ¬belongs k' b) → l.map f = pieces.flatten →
          l = keys.flatMap fun k => l.filter fun a => belongs k (f a)
  | [], _, l, .nil, _, hl => by
    rw [map_eq_nil_iff.1 hl]
    rfl
  | k :: keys, piece :: pieces, l, .cons hpiece hpieces, hkeys, hl => by
    rw [pairwise_cons] at hkeys
    rw [flatten_cons, map_eq_append_iff] at hl
    obtain ⟨front, rest, rfl, hfront, hrest⟩ := hl
    have hfrontKey : ∀ a ∈ front, belongs k (f a) := fun a ha => hpiece _ (hfront ▸ mem_map_of_mem ha)
    have hrestKey : ∀ a ∈ rest, ¬belongs k (f a) := by
      intro a ha hk
      obtain ⟨k', hk', hbelongs⟩ := exists_key_of_mem_flatten hpieces (hrest ▸ mem_map_of_mem ha)
      exact hkeys.1 k' hk' (f a) hk hbelongs
    have hhead : ((front ++ rest).filter fun a => belongs k (f a)) = front := by
      rw [filter_append, filter_eq_self.2 (by simpa using hfrontKey), filter_eq_nil_iff.2 (by simpa using hrestKey),
        append_nil]
    have htail : ∀ k' ∈ keys, ((front ++ rest).filter fun a => belongs k' (f a)) =
        rest.filter fun a => belongs k' (f a) := by
      intro k' hk'
      have hnone : ∀ a ∈ front, ¬belongs k' (f a) := fun a ha => hkeys.1 k' hk' (f a) (hfrontKey a ha)
      rw [filter_append, filter_eq_nil_iff.2 (by simpa using hnone), nil_append]
    rw [flatMap_cons, hhead, flatMap_congr htail, ← eq_flatMap_filter f hpieces hkeys.2 hrest]

end Keys
end List
