/-
Inserts that meet a row under a primary key. `insertIgnore` leaves the row it
meets alone; `Counter.upsert` adds to it. A table of counters is kept either
way round: by adding as the entries come in, or by grouping the entries of
another table and counting them again. What each write does to the count of
every key is a lemma here, so that the two can be compared.
-/
import MemoryStore.Lib.FirstOfEach
import MemoryStore.Lib.Table

namespace Table

variable {α κ : Type} [DecidableEq κ] {key : α → κ}

/-- `INSERT … ON CONFLICT (key) DO NOTHING`. -/
def insertIgnore (key : α → κ) (row : α) (rows : List α) : List α :=
  if rows.any (fun r => key r = key row) then rows else rows ++ [row]

/-- One after the other. -/
def insertAll (key : α → κ) : List α → List α → List α
  | [], rows => rows
  | row :: news, rows => insertAll key news (insertIgnore key row rows)

theorem mem_insertIgnore {row r : α} {rows : List α} (h : r ∈ insertIgnore key row rows) : r ∈ rows ∨ r = row := by
  unfold insertIgnore at h
  split at h
  · exact .inl h
  · simpa using h

theorem mem_insertAll {r : α} : ∀ (news : List α) {rows : List α}, r ∈ insertAll key news rows → r ∈ rows ∨ r ∈ news
  | [], _, h => .inl h
  | row :: news, rows, h => by
    rcases mem_insertAll news h with h | h
    · rcases mem_insertIgnore h with h | rfl
      · exact .inl h
      · exact .inr List.mem_cons_self
    · exact .inr (List.mem_cons_of_mem row h)

theorem key_mem_insertIgnore {row : α} {rows : List α} {k : κ} :
    k ∈ (insertIgnore key row rows).map key ↔ k ∈ rows.map key ∨ k = key row := by
  unfold insertIgnore
  split
  · next h =>
    obtain ⟨r, hr, he⟩ := List.any_eq_true.1 h
    rw [decide_eq_true_eq] at he
    refine ⟨.inl, fun h => h.elim id ?_⟩
    rintro rfl
    exact List.mem_map.2 ⟨r, hr, he⟩
  · simp

/-- The keys afterwards: those there were, and those inserted. -/
theorem key_mem_insertAll {k : κ} : ∀ {news rows : List α},
    k ∈ (insertAll key news rows).map key ↔ k ∈ rows.map key ∨ k ∈ news.map key
  | [], rows => by simp [insertAll]
  | row :: news, rows => by
    rw [insertAll, key_mem_insertAll, key_mem_insertIgnore, List.map_cons, List.mem_cons, or_assoc]

theorem nodup_insertIgnore {row : α} {rows : List α} (h : (rows.map key).Nodup) :
    ((insertIgnore key row rows).map key).Nodup := by
  unfold insertIgnore
  split
  · exact h
  · next hn =>
    rw [List.map_append, List.map_singleton, List.nodup_append]
    refine ⟨h, by simp, fun a ha b hb he => hn ?_⟩
    obtain ⟨r, hr, rfl⟩ := List.mem_map.1 ha
    obtain rfl := List.mem_singleton.1 hb
    exact List.any_eq_true.2 ⟨r, hr, by simpa using he⟩

theorem nodup_insertAll : ∀ (news : List α) {rows : List α}, (rows.map key).Nodup →
    ((insertAll key news rows).map key).Nodup
  | [], _, h => h
  | _ :: news, _, h => nodup_insertAll news (nodup_insertIgnore h)

/-- An insert looks only at the rows with its own key. -/
theorem insertAll_append : ∀ {news rows rows' : List α}, (∀ a ∈ news, ∀ r ∈ rows, key r ≠ key a) →
    insertAll key news (rows ++ rows') = rows ++ insertAll key news rows'
  | [], _, _, _ => rfl
  | row :: news, rows, rows', h => by
    have hrow : rows.any (fun r => key r = key row) = false := by
      rw [List.any_eq_false]
      intro r hr
      simpa using h row List.mem_cons_self r hr
    have hstep : insertIgnore key row (rows ++ rows') = rows ++ insertIgnore key row rows' := by
      unfold insertIgnore
      rw [List.any_append, hrow, Bool.false_or]
      split <;> simp
    rw [insertAll, hstep, insertAll_append fun a ha => h a (List.mem_cons_of_mem row ha), insertAll]

/-- The rows inserted: of each new key the first row. -/
theorem insertAll_eq : ∀ news rows : List α,
    insertAll key news rows = rows ++ (FirstOfEach.firstOfEach key news).filter fun a => key a ∉ rows.map key
  | [], rows => by simp [insertAll, FirstOfEach.firstOfEach]
  | row :: news, rows => by
    rw [insertAll, insertAll_eq news, FirstOfEach.firstOfEach]
    by_cases hrow : key row ∈ rows.map key
    · have hany : rows.any (fun r => key r = key row) = true := by simpa using hrow
      have hstep : insertIgnore key row rows = rows := by
        unfold insertIgnore
        rw [if_pos hany]
      rw [hstep, List.filter_cons_of_neg (by simpa using hrow), List.filter_filter]
      refine congrArg _ (List.filter_congr fun a _ => ?_)
      by_cases ha : key a = key row
      · rw [ha]
        simp [hrow]
      · simp [ha]
    · have hany : rows.any (fun r => key r = key row) = false := by simpa using hrow
      have hstep : insertIgnore key row rows = rows ++ [row] := by
        unfold insertIgnore
        rw [hany]
        rfl
      rw [hstep, List.filter_cons_of_pos (by simpa using hrow), List.filter_filter, List.append_assoc,
        List.singleton_append]
      refine congrArg _ (congrArg _ (List.filter_congr fun a _ => ?_))
      rw [Bool.eq_iff_iff, Bool.and_eq_true]
      simp only [decide_eq_true_eq, ne_eq, List.map_append, List.map_singleton, List.mem_append, List.mem_singleton,
        not_or]

end Table

/-! ## Counters -/

/-- A row of a table of counters. -/
structure Counter (κ : Type) where
  key : κ
  count : Nat
  lastUpdatedAt : Int
  deriving DecidableEq, Repr

namespace Counter

open Table

variable {κ : Type} [DecidableEq κ]

/-- What the table says of a key; without a row, nothing was counted. -/
def countOf (rows : List (Counter κ)) (k : κ) : Nat := ((rows.find? (·.key = k)).map Counter.count).getD 0

/-- `INSERT … ON CONFLICT (key) DO UPDATE SET count = count + excluded.count`. -/
def upsert (k : κ) (delta : Nat) (now : Int) (rows : List (Counter κ)) : List (Counter κ) :=
  if rows.any (·.key = k) then
    modifyWhere (fun row => row.key = k)
      (fun row => { row with count := row.count + delta, lastUpdatedAt := now }) rows
  else rows ++ [⟨k, delta, now⟩]

/-- `SELECT key, COUNT(*), COALESCE(MAX(at), 0) … GROUP BY key`. -/
def grouped (entries : List (κ × Int)) : List (Counter κ) :=
  (entries.map Prod.fst).dedup.map fun k =>
    ⟨k, (entries.map Prod.fst).count k, ((entries.filter (·.1 = k)).map Prod.snd).max?.getD 0⟩

/-- `DELETE FROM … WHERE scope`, then `INSERT … SELECT … WHERE scope GROUP BY key`. -/
def rebuild (scope : κ → Bool) (entries : List (κ × Int)) (rows : List (Counter κ)) : List (Counter κ) :=
  rows.filter (fun row => !scope row.key) ++ grouped (entries.filter fun e => scope e.1)

theorem find?_key {rows : List (Counter κ)} {k : κ} {row : Counter κ} (h : rows.find? (·.key = k) = some row) :
    row.key = k := by
  simpa using List.find?_some h

/-- Adding to a counter adds to its count and to no other. -/
theorem countOf_upsert (k : κ) (delta : Nat) (now : Int) (rows : List (Counter κ)) (k' : κ) :
    countOf (upsert k delta now rows) k' = countOf rows k' + if k' = k then delta else 0 := by
  unfold upsert countOf
  split
  · next hany =>
    rw [find?_modifyWhere_key Counter.key (by intros; rfl)]
    cases hf : rows.find? (fun row => row.key = k') with
    | some row =>
      have hk := find?_key hf
      by_cases hkk : k' = k <;> simp [hk, hkk]
    | none =>
      have hne : k' ≠ k := by
        rintro rfl
        obtain ⟨r, hr, he⟩ := List.any_eq_true.1 hany
        exact absurd he (List.find?_eq_none.1 hf r hr)
      simp [hne]
  · next hany =>
    have hn : ∀ r ∈ rows, r.key ≠ k := fun r hr he => hany (List.any_eq_true.2 ⟨r, hr, by simpa using he⟩)
    rw [find?_append_of_new Counter.key _ hn]
    split
    · next he =>
      have hnone : rows.find? (fun row => row.key = k') = none :=
        List.find?_eq_none.2 fun r hr => by simpa [he] using hn r hr
      simp [hnone]
    · simp

/-- Grouping counts the entries of each key. -/
theorem countOf_grouped (entries : List (κ × Int)) (k : κ) :
    countOf (grouped entries) k = (entries.map Prod.fst).count k := by
  unfold countOf grouped
  rw [List.find?_map]
  by_cases hk : k ∈ entries.map Prod.fst
  · have hfind : (entries.map Prod.fst).dedup.find? (fun x => x = k) = some k :=
      (find?_eq_some_of_nodup (by simpa using List.nodup_dedup _)).2 ⟨List.mem_dedup.2 hk, rfl⟩
    simp only [Function.comp_def, hfind, Option.map_some, Option.getD_some]
  · have hnone : (entries.map Prod.fst).dedup.find? (fun x => x = k) = none :=
      List.find?_eq_none.2 fun x hx => by
        rintro he
        rw [decide_eq_true_eq] at he
        exact hk (he ▸ List.mem_dedup.1 hx)
    simp only [Function.comp_def, hnone, Option.map_none, Option.getD_none]
    exact (List.count_eq_zero_of_not_mem hk).symm

/-- Counting a list of keys, one after the other. -/
def upsertAll (now : Int) : List κ → List (Counter κ) → List (Counter κ)
  | [], rows => rows
  | k :: keys, rows => upsertAll now keys (upsert k 1 now rows)

theorem countOf_upsertAll (now : Int) (k : κ) : ∀ (keys : List κ) (rows : List (Counter κ)),
    countOf (upsertAll now keys rows) k = countOf rows k + keys.count k
  | [], _ => rfl
  | k' :: keys, rows => by
    rw [upsertAll, countOf_upsertAll now k keys, countOf_upsert, List.count_cons]
    by_cases hk : k = k'
    · subst hk
      simp only [if_true, beq_self_eq_true]
      omega
    · have hne : (k' == k) = false := by simpa using Ne.symm hk
      simp [hk, hne]

theorem count_filter_scope {scope : κ → Bool} {k : κ} (h : scope k = true) : ∀ entries : List (κ × Int),
    ((entries.filter fun e => scope e.1).map Prod.fst).count k = (entries.map Prod.fst).count k
  | [] => rfl
  | e :: entries => by
    have ih := count_filter_scope h entries
    rw [List.filter_cons]
    split
    · rw [List.map_cons, List.map_cons, List.count_cons, List.count_cons, ih]
    · next he =>
      have hne : e.1 ≠ k := fun hk => he (hk.symm ▸ h)
      rw [List.map_cons, List.count_cons_of_ne hne, ih]

/-- **A rebuild counts its scope anew** and leaves every other count alone. -/
theorem countOf_rebuild (scope : κ → Bool) (entries : List (κ × Int)) (rows : List (Counter κ)) (k : κ) :
    countOf (rebuild scope entries rows) k =
      if scope k = true then (entries.map Prod.fst).count k else countOf rows k := by
  unfold rebuild
  have happ : ∀ l l' : List (Counter κ), countOf (l ++ l') k =
      if l.find? (fun row => row.key = k) = none then countOf l' k else countOf l k := by
    intro l l'
    unfold countOf
    rw [List.find?_append]
    cases l.find? (fun row => row.key = k) <;> simp
  rw [happ]
  by_cases hs : scope k = true
  · have hnone : (rows.filter fun row => !scope row.key).find? (fun row => row.key = k) = none := by
      rw [List.find?_eq_none]
      intro r hr he
      rw [decide_eq_true_eq] at he
      have := (List.mem_filter.1 hr).2
      simp [he, hs] at this
    rw [if_pos hnone, if_pos hs, countOf_grouped, count_filter_scope hs]
  · have hkeep : (rows.filter fun row => !scope row.key).find? (fun row => row.key = k) =
        rows.find? fun row => row.key = k := by
      rw [List.find?_filter]
      congr 1
      funext r
      by_cases he : r.key = k
      · simp [he, hs]
      · simp [he]
    rw [if_neg hs]
    split
    · next hnone =>
      have hzero : countOf (grouped (entries.filter fun e => scope e.1)) k = 0 := by
        rw [countOf_grouped]
        refine List.count_eq_zero_of_not_mem fun hk => ?_
        obtain ⟨e, he, rfl⟩ := List.mem_map.1 hk
        exact hs (List.mem_filter.1 he).2
      rw [hzero]
      unfold countOf
      rw [← hkeep, hnone]
      rfl
    · unfold countOf
      rw [hkeep]

end Counter
