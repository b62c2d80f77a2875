/-
Finite maps built row by row: rows grouped under their key, and rows of distinct
keys collected. What a map holds for a key is a function of the rows with it, so
a map built from any order of the same rows reads the same up to that order.
-/
import Mathlib

/-- A finite map. -/
abbrev KeyMap (κ β : Type) := AList fun _ : κ => β

namespace KeyMap

variable {α κ β : Type} [DecidableEq κ] {key : α → κ} {value : α → β}

/-- `entry(k).or_default().push(v)` -/
def push (map : KeyMap κ (List β)) (k : κ) (v : β) : KeyMap κ (List β) :=
  map.insert k ((map.lookup k).getD [] ++ [v])

/-- The rows of each key, in the order they come. -/
def group (key : α → κ) (value : α → β) (rows : List α) : KeyMap κ (List β) :=
  rows.foldl (fun map row => map.push (key row) (value row)) ∅

/-- The rows by their key; a later row of one key replaces the earlier. -/
def collect (key : α → κ) (rows : List α) : KeyMap κ α :=
  rows.foldl (fun map row => map.insert (key row) row) ∅

theorem lookup_push (map : KeyMap κ (List β)) (k k' : κ) (v : β) :
    (map.push k v).lookup k' = if k' = k then some ((map.lookup k).getD [] ++ [v]) else map.lookup k' := by
  unfold push
  split
  next h => rw [h, AList.lookup_insert]
  next h => rw [AList.lookup_insert_ne h]

theorem lookup_group_from (rows : List α) (k : κ) : ∀ map : KeyMap κ (List β),
    (rows.foldl (fun map row => map.push (key row) (value row)) map).lookup k =
      if (map.lookup k).isSome || rows.any (fun row => key row = k) then
        some ((map.lookup k).getD [] ++ (rows.filter fun row => key row = k).map value)
      else none := by
  induction rows with
  | nil =>
    intro map
    cases h : map.lookup k <;> simp [h]
  | cons row rows ih =>
    intro map
    rw [List.foldl_cons, ih, lookup_push]
    by_cases hk : k = key row
    · subst hk
      simp
    · have hk' : key row ≠ k := fun h => hk h.symm
      simp [hk, hk']

/-- A grouped map holds a key when some row has it, with the values of those rows. -/
theorem lookup_group (rows : List α) (k : κ) :
    (group key value rows).lookup k =
      if rows.any (fun row => key row = k) then some ((rows.filter fun row => key row = k).map value) else none := by
  unfold group
  rw [lookup_group_from]
  simp

theorem lookup_collect_from (rows : List α) (k : κ) : ∀ map : KeyMap κ α, (∀ row ∈ rows, key row ≠ k) →
    (rows.foldl (fun map row => map.insert (key row) row) map).lookup k = map.lookup k := by
  induction rows with
  | nil => intro map _; rfl
  | cons row rows ih =>
    intro map h
    rw [List.foldl_cons, ih _ fun r hr => h r (List.mem_cons_of_mem _ hr),
      AList.lookup_insert_ne (Ne.symm (h row (List.mem_cons_self ..)))]

/-- A collected map holds the row of each key, when the rows' keys are distinct. -/
theorem lookup_collect {rows : List α} (hn : (rows.map key).Nodup) (k : κ) :
    (collect key rows).lookup k = rows.find? fun row => key row = k := by
  unfold collect
  suffices h : ∀ map : KeyMap κ α, map.lookup k = none →
      (rows.foldl (fun map row => map.insert (key row) row) map).lookup k = rows.find? fun row => key row = k from
    h ∅ (AList.lookup_empty k)
  induction rows with
  | nil => intro map h; exact h
  | cons row rows ih =>
    intro map h
    rw [List.map_cons, List.nodup_cons] at hn
    rw [List.foldl_cons]
    by_cases hk : key row = k
    · have hrest : ∀ r ∈ rows, key r ≠ k := fun r hr heq => hn.1 (hk ▸ heq ▸ List.mem_map_of_mem hr)
      rw [lookup_collect_from rows k _ hrest, hk, AList.lookup_insert, List.find?_cons_of_pos (by simpa using hk)]
    · rw [List.find?_cons_of_neg (by simpa using hk)]
      refine ih hn.2 _ ?_
      rw [AList.lookup_insert_ne (Ne.symm hk), h]

/-- A collected map holds the last row of each key. -/
theorem lookup_collect_last (rows : List α) (k : κ) :
    (collect key rows).lookup k = (rows.filter fun row => key row = k).getLast? := by
  unfold collect
  suffices h : ∀ map : KeyMap κ α, (rows.foldl (fun map row => map.insert (key row) row) map).lookup k =
      (rows.filter fun row => key row = k).getLast?.or (map.lookup k) by
    rw [h ∅, AList.lookup_empty, Option.or_none]
  induction rows with
  | nil => intro map; rfl
  | cons row rows ih =>
    intro map
    rw [List.foldl_cons, ih]
    by_cases hk : key row = k
    · rw [List.filter_cons_of_pos (by simpa using hk), List.getLast?_cons, ← hk, AList.lookup_insert]
      cases (rows.filter fun r => key r = key row).getLast? <;> rfl
    · rw [List.filter_cons_of_neg (by simpa using hk), AList.lookup_insert_ne (Ne.symm hk)]

theorem mem_keys_iff {map : KeyMap κ β} {k : κ} : k ∈ map.keys ↔ (map.lookup k).isSome := by
  rw [← AList.mem_keys, AList.lookup_isSome]

theorem lookup_erase_eq (map : KeyMap κ β) (k k' : κ) :
    (map.erase k).lookup k' = if k' = k then none else map.lookup k' := by
  split
  next h => rw [h, AList.lookup_erase]
  next h => rw [AList.lookup_erase_ne h]

/-! ## The values of a map -/

/-- `into_values` -/
def values (map : KeyMap κ β) : List β := map.entries.map Sigma.snd

/-- Each value is held for its own key. -/
def Keyed (key : α → κ) (map : KeyMap κ α) : Prop := ∀ k a, map.lookup k = some a → key a = k

theorem mem_values {map : KeyMap κ α} (h : map.Keyed key) {a : α} : a ∈ map.values ↔ map.lookup (key a) = some a := by
  constructor
  · intro ha
    obtain ⟨⟨k, a⟩, he, rfl⟩ := List.mem_map.1 ha
    have hk : map.lookup k = some a := AList.mem_lookup_iff.2 he
    rw [h k a hk]
    exact hk
  · intro ha
    exact List.mem_map.2 ⟨⟨key a, a⟩, AList.mem_lookup_iff.1 ha, rfl⟩

theorem nodup_values {map : KeyMap κ α} (h : map.Keyed key) : (map.values.map key).Nodup := by
  have hkeys : map.values.map key = map.keys := by
    unfold values
    rw [List.map_map]
    refine List.map_congr_left fun e he => ?_
    exact h e.1 e.2 (AList.mem_lookup_iff.2 he)
  rw [hkeys]
  exact map.keys_nodup

theorem keyed_collect (rows : List α) : (collect key rows).Keyed key := by
  intro k a hl
  rw [lookup_collect_last] at hl
  have hm := List.mem_filter.1 (List.mem_of_getLast? hl)
  simpa using hm.2

/-- The values of a collected map are the rows, when the rows' keys are distinct. -/
theorem mem_values_collect {rows : List α} (hn : (rows.map key).Nodup) {a : α} :
    a ∈ (collect key rows).values ↔ a ∈ rows := by
  rw [mem_values (keyed_collect rows), lookup_collect hn]
  constructor
  · exact List.mem_of_find?_eq_some
  · intro ha
    rw [List.find?_eq_some_iff_append]
    obtain ⟨front, back, rfl⟩ := List.append_of_mem ha
    refine ⟨by simp, front, back, rfl, fun b hb => ?_⟩
    have hne : key b ≠ key a := by
      intro heq
      rw [List.map_append, List.nodup_append] at hn
      exact hn.2.2 _ (List.mem_map_of_mem hb) _ List.mem_cons_self heq
    simpa using hne

theorem flatten_values_push (map : KeyMap κ (List β)) (k : κ) (v : β) :
    (map.push k v).values.flatten.Perm (map.values.flatten ++ [v]) := by
  unfold push values
  rw [AList.entries_insert, List.map_cons, List.flatten_cons]
  by_cases hk : k ∈ map.keys
  · obtain ⟨b, front, back, hfront, hentries, hrest⟩ := List.exists_of_kerase hk
    have hlookup : map.lookup k = some b := by
      refine AList.mem_lookup_iff.2 ?_
      rw [hentries]
      simp
    rw [hrest, hlookup, hentries]
    simp only [Option.getD_some, List.map_append, List.map_cons, List.flatten_append, List.flatten_cons]
    -- the pushed value moves from the front to the end, past the key's other values
    classical
    refine List.perm_iff_count.2 fun a => ?_
    simp only [List.count_append]
    omega
  · rw [List.kerase_of_notMem_keys hk, AList.lookup_eq_none.2 hk]
    exact List.perm_append_comm

/-- The values of a grouped map are those of the rows. -/
theorem flatten_values_group (rows : List α) : (group key value rows).values.flatten.Perm (rows.map value) := by
  suffices h : ∀ map : KeyMap κ (List β),
      (rows.foldl (fun map row => map.push (key row) (value row)) map).values.flatten.Perm
        (map.values.flatten ++ rows.map value) from h ∅
  induction rows with
  | nil => intro map; simp
  | cons row rows ih =>
    intro map
    rw [List.foldl_cons]
    refine (ih _).trans ?_
    rw [List.map_cons, ← List.singleton_append, ← List.append_assoc]
    exact (flatten_values_push map (key row) (value row)).append_right _

end KeyMap

/-!
Sums by key: a finite map to which rows add under their key. What it holds for a
key is the sum over the rows with it, and all it holds is the sum over all rows.
-/

namespace KeyMap

variable {α κ β : Type} [DecidableEq κ] [AddCommMonoid β] {key : α → κ} {value : α → β}

/-- The sum a map holds for a key. -/
def total (map : KeyMap κ β) (k : κ) : β := (map.lookup k).getD 0

/-- `*entry(k).or_default() += v` -/
def add (map : KeyMap κ β) (k : κ) (v : β) : KeyMap κ β := map.insert k (map.total k + v)

/-- Add each row's value under its key. -/
def tally (key : α → κ) (value : α → β) (rows : List α) (map : KeyMap κ β) : KeyMap κ β :=
  rows.foldl (fun map row => map.add (key row) (value row)) map

theorem total_empty (k : κ) : (∅ : KeyMap κ β).total k = 0 := by
  unfold total
  rw [AList.lookup_empty]
  rfl

theorem total_add (map : KeyMap κ β) (k k' : κ) (v : β) :
    (map.add k v).total k' = map.total k' + if k = k' then v else 0 := by
  unfold add total
  split
  next h =>
    subst h
    rw [AList.lookup_insert]
    rfl
  next h => rw [AList.lookup_insert_ne (Ne.symm h), add_zero]

/-- **A key's sum is over the rows with it.** -/
theorem total_tally (rows : List α) (k : κ) : ∀ map : KeyMap κ β,
    (tally key value rows map).total k = map.total k + ((rows.filter fun row => key row = k).map value).sum := by
  unfold tally
  induction rows with
  | nil => intro map; simp
  | cons row rows ih =>
    intro map
    rw [List.foldl_cons, ih, total_add]
    by_cases h : key row = k
    · rw [if_pos h, List.filter_cons_of_pos (by simpa using h), List.map_cons, List.sum_cons, add_assoc]
    · rw [if_neg h, List.filter_cons_of_neg (by simpa using h), add_zero]

/-- The keys of a tally are the keys of its rows. -/
theorem mem_keys_tally (rows : List α) (k : κ) : ∀ map : KeyMap κ β,
    k ∈ (tally key value rows map).keys ↔ k ∈ map.keys ∨ ∃ row ∈ rows, key row = k := by
  unfold tally
  induction rows with
  | nil => intro map; simp
  | cons row rows ih =>
    intro map
    rw [List.foldl_cons, ih, List.exists_mem_cons_iff]
    unfold add
    rw [← AList.mem_keys, ← AList.mem_keys, AList.mem_insert, or_comm (a := k = key row), or_assoc, eq_comm]

/-- **All the sums together are over all the rows.** -/
theorem sum_filter_key (keys : Finset κ) {rows : List α} (h : ∀ row ∈ rows, key row ∈ keys) :
    ∑ k ∈ keys, ((rows.filter fun row => key row = k).map value).sum = (rows.map value).sum := by
  induction rows with
  | nil => simp
  | cons row rows ih =>
    have hsplit : ∀ k, (((row :: rows).filter fun r => key r = k).map value).sum =
        (if key row = k then value row else 0) + ((rows.filter fun r => key r = k).map value).sum := by
      intro k
      by_cases hk : key row = k
      · rw [if_pos hk, List.filter_cons_of_pos (by simpa using hk), List.map_cons, List.sum_cons]
      · rw [if_neg hk, List.filter_cons_of_neg (by simpa using hk), zero_add]
    simp only [hsplit, Finset.sum_add_distrib, List.map_cons, List.sum_cons]
    rw [ih fun r hr => h r (List.mem_cons_of_mem _ hr), Finset.sum_ite_eq, if_pos (h row List.mem_cons_self)]

end KeyMap
