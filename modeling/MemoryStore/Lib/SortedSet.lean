/-
Sets written down as lists: sorted, and each element once. Two lists with the
same elements are written down the same way, which is what a key computed from
a set rests on.
-/
import Mathlib

namespace SortedSet

variable {α : Type*}

/-- Sort, then drop repetitions. -/
def ofList [LinearOrder α] (l : List α) : List α := (l.insertionSort (· ≤ ·)).dedup

variable [LinearOrder α] {l l' : List α} {a : α}

@[simp] theorem mem_ofList : a ∈ ofList l ↔ a ∈ l := by
  unfold ofList
  rw [List.mem_dedup, List.mem_insertionSort]

theorem nodup_ofList (l : List α) : (ofList l).Nodup := List.nodup_dedup _

theorem sorted_ofList (l : List α) : (ofList l).Pairwise (· ≤ ·) :=
  (List.pairwise_insertionSort (· ≤ ·) l).sublist (List.dedup_sublist _)

/-- **The list depends on the set alone.** -/
theorem ofList_eq_iff : ofList l = ofList l' ↔ ∀ a, a ∈ l ↔ a ∈ l' := by
  constructor
  · intro h a
    rw [← mem_ofList, h, mem_ofList]
  · intro h
    have hperm : (ofList l).Perm (ofList l') :=
      (List.perm_ext_iff_of_nodup (nodup_ofList l) (nodup_ofList l')).2 fun a => by
        rw [mem_ofList, mem_ofList, h]
    exact hperm.eq_of_pairwise (fun _ _ _ _ hab hba => le_antisymm hab hba) (sorted_ofList l) (sorted_ofList l')

end SortedSet
