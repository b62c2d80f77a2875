/-
Two lists in one key order walked side by side: keys, and rows of which each key
takes those that come next and have it. A row whose key is not among the keys is
never taken, and everything after it is left where it is. The percentiles of a
sorted list by nearest rank.
-/
import MemoryStore.Lib.SortedSet

namespace Lockstep

variable {κ α : Type} [LinearOrder κ]

/-! ## The walk -/

/-- The values of the rows of a key. -/
def valuesOf (rows : List (κ × α)) (k : κ) : List α := (rows.filter (·.1 = k)).map (·.2)

/-- Each key with the rows it takes. -/
def lockstep : List κ → List (κ × α) → List (κ × List α)
  | [], _ => []
  | k :: keys, rows => (k, (rows.takeWhile (·.1 = k)).map (·.2)) :: lockstep keys (rows.dropWhile (·.1 = k))

/-- A step of the walk, with any test for the key. -/
theorem lockstep_cons {k : κ} {p : κ × α → Bool} (hp : ∀ row, p row = true ↔ row.1 = k) (keys : List κ)
    (rows : List (κ × α)) :
    lockstep (k :: keys) rows = (k, (rows.takeWhile p).map (·.2)) :: lockstep keys (rows.dropWhile p) := by
  have : p = fun row => decide (row.1 = k) := funext fun row => by rw [Bool.eq_iff_iff, hp, decide_eq_true_iff]
  rw [this, lockstep]

/-- A row with a key that is not among the keys comes before the rows of a key. -/
def Overtaken (keys : List κ) (rows : List (κ × α)) (k : κ) : Prop := ∃ row ∈ rows, row.1 < k ∧ row.1 ∉ keys

instance decidableOvertaken (keys : List κ) (rows : List (κ × α)) (k : κ) : Decidable (Overtaken keys rows k) :=
  inferInstanceAs (Decidable (∃ row ∈ rows, _))

/-- The rows come by key. -/
def ByKey (rows : List (κ × α)) : Prop := rows.Pairwise fun a b => a.1 ≤ b.1

/-- Rows from a key on: those of the key come first. -/
theorem takeWhile_of_le {k : κ} : ∀ {rows : List (κ × α)}, ByKey rows → (∀ row ∈ rows, k ≤ row.1) →
    rows.takeWhile (·.1 = k) = rows.filter (·.1 = k) ∧ rows.dropWhile (·.1 = k) = rows.filter (k < ·.1)
  | [], _, _ => ⟨rfl, rfl⟩
  | row :: rows, hs, hle => by
    have hs' := List.pairwise_cons.1 hs
    by_cases hk : row.1 = k
    · obtain ⟨htake, hdrop⟩ := takeWhile_of_le hs'.2 fun r hr => hle r (List.mem_cons_of_mem _ hr)
      simp [hk, htake, hdrop]
    · have hlt : k < row.1 := lt_of_le_of_ne (hle row List.mem_cons_self) (Ne.symm hk)
      have hall : ∀ r ∈ rows, k < r.1 := fun r hr => hlt.trans_le (hs'.1 r hr)
      have hnone : rows.filter (·.1 = k) = [] := by
        rw [List.filter_eq_nil_iff]
        intro r hr
        simpa using (hall r hr).ne'
      have hrest : rows.filter (k < ·.1) = rows := List.filter_eq_self.2 fun r hr => by simpa using hall r hr
      simp [hk, hlt, hnone, hrest]

/-- **What each key takes**: its rows, unless a row of no key comes before them. -/
theorem lockstep_eq : ∀ {keys : List κ} {rows : List (κ × α)}, keys.Pairwise (· < ·) → ByKey rows →
    lockstep keys rows = keys.map fun k => (k, if Overtaken keys rows k then [] else valuesOf rows k)
  | [], _, _, _ => rfl
  | k :: keys, rows, hkeys, hrows => by
    obtain ⟨hk, hkeys'⟩ := List.pairwise_cons.1 hkeys
    unfold lockstep
    rw [List.map_cons]
    by_cases hle : ∀ row ∈ rows, k ≤ row.1
    · -- the rows of the key come first, and the walk goes on with the rows after them
      obtain ⟨htake, hdrop⟩ := takeWhile_of_le hrows hle
      have hhead : ¬Overtaken (k :: keys) rows k := by
        rintro ⟨row, hrow, hlt, -⟩
        exact absurd (hle row hrow) (not_le.2 hlt)
      rw [htake, hdrop, lockstep_eq hkeys' (hrows.sublist List.filter_sublist), if_neg hhead]
      refine congrArg ((k, valuesOf rows k) :: ·) (List.map_congr_left fun k' hk' => ?_)
      have hlater : Overtaken keys (rows.filter (k < ·.1)) k' ↔ Overtaken (k :: keys) rows k' := by
        constructor
        · rintro ⟨row, hrow, hlt, hnot⟩
          obtain ⟨hrow, habove⟩ := List.mem_filter.1 hrow
          refine ⟨row, hrow, hlt, ?_⟩
          simp only [List.mem_cons, not_or]
          exact ⟨(of_decide_eq_true habove).ne', hnot⟩
        · rintro ⟨row, hrow, hlt, hnot⟩
          simp only [List.mem_cons, not_or] at hnot
          have habove : k < row.1 := lt_of_le_of_ne (hle row hrow) (Ne.symm hnot.1)
          exact ⟨row, List.mem_filter.2 ⟨hrow, decide_eq_true habove⟩, hlt, hnot.2⟩
      have hvalues : valuesOf (rows.filter (k < ·.1)) k' = valuesOf rows k' := by
        unfold valuesOf
        rw [List.filter_filter]
        refine congrArg (List.map _) (List.filter_congr fun row _ => ?_)
        by_cases heq : row.1 = k'
        · simp [heq, hk k' hk']
        · simp [heq]
      simp only [hlater, hvalues]
    · -- the first row has a key below all keys: nothing is ever taken
      obtain ⟨first, rest, rfl⟩ : ∃ first rest, rows = first :: rest := by
        cases rows with
        | nil => exact absurd (by simp) hle
        | cons first rest => exact ⟨first, rest, rfl⟩
      have hlow : first.1 < k := by
        by_contra hge
        refine hle fun row hrow => ?_
        rcases List.mem_cons.1 hrow with rfl | hrow
        · exact not_lt.1 hge
        · exact (not_lt.1 hge).trans ((List.pairwise_cons.1 hrows).1 row hrow)
      have hnot : first.1 ∉ k :: keys := by
        simp only [List.mem_cons, not_or]
        exact ⟨hlow.ne, fun hm => absurd (hk _ hm) (not_lt.2 hlow.le)⟩
      have hover : ∀ k' ∈ k :: keys, Overtaken (k :: keys) (first :: rest) k' ∧ Overtaken keys (first :: rest) k' := by
        intro k' hk'
        have hlt : first.1 < k' := by
          rcases List.mem_cons.1 hk' with rfl | hk'
          · exact hlow
          · exact hlow.trans (hk k' hk')
        exact ⟨⟨first, List.mem_cons_self, hlt, hnot⟩,
          ⟨first, List.mem_cons_self, hlt, fun hm => hnot (List.mem_cons_of_mem _ hm)⟩⟩
      have hstuck : ¬first.1 = k := hlow.ne
      rw [List.takeWhile_cons_of_neg (by simpa using hstuck), List.dropWhile_cons_of_neg (by simpa using hstuck),
        lockstep_eq hkeys' hrows, if_pos (hover k List.mem_cons_self).1]
      refine congrArg ((k, []) :: ·) (List.map_congr_left fun k' hk' => ?_)
      obtain ⟨h, h'⟩ := hover k' (List.mem_cons_of_mem _ hk')
      rw [if_pos h, if_pos h']

/-! ## Rows by key and value -/

variable [LinearOrder α]

/-- By key, and for one key by value. -/
def le (a b : κ × α) : Prop := a.1 < b.1 ∨ (a.1 = b.1 ∧ a.2 ≤ b.2)

instance decidableLe : DecidableRel (le : κ × α → κ × α → Prop) := fun _ _ => inferInstanceAs (Decidable (_ ∨ _))

/-- `ORDER BY key, value`. -/
def orderBy (rows : List (κ × α)) : List (κ × α) := rows.insertionSort le

theorem orderBy_sorted (rows : List (κ × α)) : (orderBy rows).Pairwise le := by
  have : Std.Total (le : κ × α → κ × α → Prop) := ⟨fun a b => by
    unfold le
    rcases lt_trichotomy a.1 b.1 with h | h | h
    · exact .inl (.inl h)
    · exact (le_total a.2 b.2).imp (fun hab => .inr ⟨h, hab⟩) (fun hba => .inr ⟨h.symm, hba⟩)
    · exact .inr (.inl h)⟩
  have : IsTrans (κ × α) le := ⟨fun a b c hab hbc => by
    unfold le at *
    rcases hab with hab | ⟨hab, hab'⟩ <;> rcases hbc with hbc | ⟨hbc, hbc'⟩
    · exact .inl (hab.trans hbc)
    · exact .inl (hbc ▸ hab)
    · exact .inl (hab ▸ hbc)
    · exact .inr ⟨hab.trans hbc, hab'.trans hbc'⟩⟩
  exact List.pairwise_insertionSort le rows

theorem orderBy_byKey (rows : List (κ × α)) : ByKey (orderBy rows) :=
  (orderBy_sorted rows).imp fun h => h.elim (fun hlt => hlt.le) (fun h => h.1.le)

/-- The values of one key come sorted. -/
theorem valuesOf_orderBy (rows : List (κ × α)) (k : κ) :
    valuesOf (orderBy rows) k = (valuesOf rows k).insertionSort (· ≤ ·) := by
  have hperm : (valuesOf (orderBy rows) k).Perm (valuesOf rows k) :=
    ((List.perm_insertionSort le rows).filter _).map _
  have hsorted : (valuesOf (orderBy rows) k).Pairwise (· ≤ ·) := by
    refine List.pairwise_map.2 ?_
    have hf : ((orderBy rows).filter (·.1 = k)).Pairwise le := (orderBy_sorted rows).sublist List.filter_sublist
    refine hf.imp_of_mem fun {a b} ha hb hab => ?_
    have hka : a.1 = k := of_decide_eq_true (List.mem_filter.1 ha).2
    have hkb : b.1 = k := of_decide_eq_true (List.mem_filter.1 hb).2
    rcases hab with hlt | ⟨-, hle⟩
    · exact absurd hlt (by rw [hka, hkb]; exact lt_irrefl k)
    · exact hle
  have hboth := hperm.trans (List.perm_insertionSort (· ≤ ·) (valuesOf rows k)).symm
  exact hboth.eq_of_pairwise (fun _ _ _ _ => le_antisymm) hsorted (List.pairwise_insertionSort _ _)

end Lockstep
