/-
One range of one table: the items `classify_range` gives are those of the whole
table for the entities in the range, in whatever order the rows were answered.
-/
import MemoryStore.EmbeddingIndex.Scan
import MemoryStore.Lib.Table

namespace MemoryStore.EmbeddingIndex

open EmbeddingSpace

/-! ## What a table holds for a target -/

def targetKey (p : Int × DerivedTarget) : TargetKey := (p.1, p.2.vectorKind)

/-- The chunk indexes a table holds for a key. -/
def ScanTable.chunks (t : ScanTable) (key : TargetKey) : List Int :=
  match t.table with
  | some table => (table.rows.filter fun r => r.key = key).map VectorRow.chunkIndex
  | none => []

/-- The entry a table's index holds for a key. -/
def ScanTable.entry (t : ScanTable) (key : TargetKey) : Option IndexEntry :=
  match t.index with
  | some index => index.entries.find? fun e => e.table = t.label ∧ e.key = key
  | none => none

/-- The keys a table has rows or entries for. -/
def ScanTable.keys (t : ScanTable) : List TargetKey :=
  ((match t.table with
    | some table => table.rows.map VectorRow.key
    | none => []) ++
    (match t.index with
    | some index => (index.entries.filter fun e : IndexEntry => e.table = t.label).map IndexEntry.key
    | none => [])).dedup

/-- The item of a derived target. -/
def ScanTable.targetItem (t : ScanTable) (space : SpaceId) (p : Int × DerivedTarget) : ScanItem :=
  .target t.label p.1 p.2.vectorKind (classify space p.2.version (t.entry (targetKey p)) (t.chunks (targetKey p)))
    p.2.version (t.entry (targetKey p))

/-- The item of an orphan. -/
def ScanTable.orphanItem (t : ScanTable) (key : TargetKey) : ScanItem :=
  .orphan t.label key.1 key.2 (!(t.chunks key).isEmpty) (t.entry key).isSome

/-- The targets of a table among the derived ones. -/
def targetsOf (label : TableLabel) (derived : List (Int × DerivedTarget)) : List (Int × DerivedTarget) :=
  derived.filter fun p => p.2.table = label

/-- The keys of a table that no target has. -/
def ScanTable.orphanKeys (t : ScanTable) (derived : List (Int × DerivedTarget)) : List TargetKey :=
  t.keys.filter fun key => key ∉ (targetsOf t.label derived).map targetKey

/-- The items of a table for the entities in a range. -/
def ScanTable.items (t : ScanTable) (space : SpaceId) (derived : List (Int × DerivedTarget)) (range : Int → Bool) :
    List ScanItem :=
  ((targetsOf t.label derived).filter fun p => range p.1).map (t.targetItem space) ++
    ((t.orphanKeys derived).filter fun key => range key.1).map t.orphanItem

theorem perm_filter_split {α : Type} {p q : α → Bool} (h : ∀ a, q a = true → p a = true) (l : List α) :
    (l.filter p).Perm ((l.filter q) ++ l.filter fun a => p a && !q a) := by
  refine (List.filter_append_perm q (l.filter p)).symm.trans (List.Perm.of_eq ?_)
  rw [List.filter_filter, List.filter_filter]
  congr 1
  · refine List.filter_congr fun a _ => ?_
    cases hq : q a with
    | true => simp [h a hq]
    | false => simp
  · exact List.filter_congr fun a _ => Bool.and_comm ..

/-- The items of a range are those of its two parts. -/
theorem ScanTable.items_split (t : ScanTable) (space : SpaceId) (derived : List (Int × DerivedTarget))
    {range front back : Int → Bool} (hfront : ∀ i, front i = true → range i = true)
    (hback : ∀ i, back i = (range i && !front i)) :
    (t.items space derived front ++ t.items space derived back).Perm (t.items space derived range) := by
  have htargets := (perm_filter_split (p := fun p : Int × DerivedTarget => range p.1) (q := fun p => front p.1)
    (fun p => hfront p.1) (targetsOf t.label derived)).map (t.targetItem space)
  have horphans := (perm_filter_split (p := fun key : TargetKey => range key.1) (q := fun key => front key.1)
    (fun key => hfront key.1) (t.orphanKeys derived)).map t.orphanItem
  rw [List.map_append] at htargets horphans
  unfold items
  simp only [hback]
  refine List.Perm.trans ?_ (htargets.append horphans).symm
  rw [List.append_assoc, List.append_assoc]
  refine List.Perm.append_left _ ?_
  rw [← List.append_assoc, ← List.append_assoc]
  exact List.Perm.append_right _ (List.perm_append_comm)

/-! ## What a table answers for a range -/

section Range

variable {t : ScanTable} {lo hi : Int}

/-- The map of a table's rows in a range. -/
def ScanTable.rowsMap (t : ScanTable) (lo hi : Int) : KeyMap TargetKey (List Int) :=
  match t.table with
  | some table => vectorRows table lo hi
  | none => ∅

/-- The map of a table's entries in a range. -/
def ScanTable.entriesMap (t : ScanTable) (lo hi : Int) : KeyMap TargetKey IndexEntry :=
  KeyMap.collect IndexEntry.key (match t.index with
    | some index => index.entriesInRange t.label lo hi
    | none => [])

/-- Whether a key is of an entity in a range. -/
def within (lo hi : Int) (key : TargetKey) : Prop := lo ≤ key.1 ∧ key.1 ≤ hi

instance decidableWithin (lo hi : Int) (key : TargetKey) : Decidable (within lo hi key) :=
  inferInstanceAs (Decidable (_ ∧ _))

theorem rowsInRange_chunks (table : VectorTable) (key : TargetKey) :
    (((table.rowsInRange lo hi).filter fun r => r.key = key).map VectorRow.chunkIndex).Perm
      (if within lo hi key then (table.rows.filter fun r => r.key = key).map VectorRow.chunkIndex else []) := by
  refine (((table.rowsInRange_perm lo hi).filter _).map _).trans (List.Perm.of_eq ?_)
  rw [List.filter_filter]
  split
  next hw =>
    congr 1
    refine List.filter_congr fun r _ => ?_
    by_cases hk : r.key = key
    · subst hk
      simpa [VectorRow.key, within] using hw
    · simp [hk]
  next hw =>
    rw [List.map_eq_nil_iff, List.filter_eq_nil_iff]
    intro r _ hr
    simp only [Bool.and_eq_true, decide_eq_true_eq] at hr
    obtain ⟨rfl, hr⟩ := hr
    exact hw hr

/-- For a key in the range the rows' map holds what the table holds, for any other key nothing. -/
theorem rowsMap_getD (t : ScanTable) (lo hi : Int) (key : TargetKey) :
    (((t.rowsMap lo hi).lookup key).getD []).Perm (if within lo hi key then t.chunks key else []) := by
  unfold ScanTable.rowsMap ScanTable.chunks
  split
  next table _ =>
    rw [vectorRows, KeyMap.lookup_group]
    refine List.Perm.trans (List.Perm.of_eq ?_) (rowsInRange_chunks table key)
    split
    next => rfl
    next h =>
      simp only [List.any_eq_true, not_exists, not_and] at h
      rw [Option.getD_none, eq_comm, List.map_eq_nil_iff, List.filter_eq_nil_iff]
      exact fun r hr => h r hr
  next => simp [AList.lookup_empty]

theorem rowsMap_isSome (t : ScanTable) (lo hi : Int) (key : TargetKey) :
    ((t.rowsMap lo hi).lookup key).isSome = !(((t.rowsMap lo hi).lookup key).getD []).isEmpty := by
  unfold ScanTable.rowsMap
  split
  next table _ =>
    rw [vectorRows, KeyMap.lookup_group]
    split
    next h =>
      obtain ⟨r, hr, hk⟩ := List.any_eq_true.1 h
      rw [Option.isSome_some, Option.getD_some]
      have : r.chunkIndex ∈ ((table.rowsInRange lo hi).filter fun r => r.key = key).map VectorRow.chunkIndex :=
        List.mem_map_of_mem (List.mem_filter.2 ⟨hr, hk⟩)
      cases hl : ((table.rowsInRange lo hi).filter fun r => r.key = key).map VectorRow.chunkIndex with
      | nil => rw [hl] at this; cases this
      | cons c cs => rfl
    next => rfl
  next => simp [AList.lookup_empty]

theorem find?_eq_some_iff_of_unique {α : Type} {p : α → Bool} {rows : List α}
    (h : ∀ a ∈ rows, ∀ b ∈ rows, p a = true → p b = true → a = b) {a : α} :
    rows.find? p = some a ↔ a ∈ rows ∧ p a = true := by
  constructor
  · intro hf
    exact ⟨List.mem_of_find?_eq_some hf, List.find?_some hf⟩
  · rintro ⟨ha, hp⟩
    obtain ⟨b, hb⟩ : ∃ b, rows.find? p = some b :=
      Option.isSome_iff_exists.1 (List.find?_isSome.2 ⟨a, ha, hp⟩)
    rw [hb, h b (List.mem_of_find?_eq_some hb) a ha (List.find?_some hb) hp]

theorem EmbeddingIndex.eq_of_key (index : EmbeddingIndex) {a b : IndexEntry} (ha : a ∈ index.entries)
    (hb : b ∈ index.entries) (htable : a.table = b.table) (hkey : a.key = b.key) : a = b :=
  List.inj_on_of_nodup_map index.unique ha hb (by simp [htable, hkey])

/-- For a key in the range the entries' map holds the table's entry, for any other key nothing. -/
theorem entriesMap_lookup (t : ScanTable) (lo hi : Int) (key : TargetKey) :
    (t.entriesMap lo hi).lookup key = if within lo hi key then t.entry key else none := by
  unfold ScanTable.entriesMap ScanTable.entry
  split
  next index _ =>
    have hmem : ∀ e, e ∈ index.entriesInRange t.label lo hi ↔ e ∈ index.entries ∧ e.table = t.label ∧ within lo hi e.key := by
      intro e
      rw [(index.entriesInRange_perm t.label lo hi).mem_iff, List.mem_filter]
      simp [IndexEntry.key, within]
    have hinj : ∀ a ∈ index.entriesInRange t.label lo hi, ∀ b ∈ index.entriesInRange t.label lo hi, a.key = b.key → a = b := by
      intro a ha b hb hkey
      obtain ⟨ha, hta, -⟩ := (hmem a).1 ha
      obtain ⟨hb, htb, -⟩ := (hmem b).1 hb
      exact index.eq_of_key ha hb (hta.trans htb.symm) hkey
    have hnodup : ((index.entriesInRange t.label lo hi).map IndexEntry.key).Nodup := by
      have hsub := (index.entriesInRange_perm t.label lo hi).nodup_iff.2
        ((index.unique.of_map).filter fun e => e.table = t.label ∧ lo ≤ e.entityId ∧ e.entityId ≤ hi)
      exact List.Nodup.map_on (fun a ha b hb => hinj a ha b hb) hsub
    rw [KeyMap.lookup_collect hnodup]
    ext e
    rw [find?_eq_some_iff_of_unique fun a ha b hb hpa hpb => hinj a ha b hb (by simp_all)]
    split
    next hw =>
      rw [find?_eq_some_iff_of_unique fun a ha b hb hpa hpb => by
        simp only [decide_eq_true_eq] at hpa hpb
        exact index.eq_of_key ha hb (hpa.1.trans hpb.1.symm) (hpa.2.trans hpb.2.symm)]
      rw [hmem]
      simp only [decide_eq_true_eq]
      constructor
      · rintro ⟨⟨he, ht, -⟩, rfl⟩
        exact ⟨he, ht, rfl⟩
      · rintro ⟨he, ht, rfl⟩
        exact ⟨⟨he, ht, hw⟩, rfl⟩
    next hw =>
      rw [hmem]
      simp only [decide_eq_true_eq, reduceCtorEq, iff_false]
      rintro ⟨⟨-, -, he⟩, rfl⟩
      exact hw he
  next =>
    simp [KeyMap.collect, AList.lookup_empty]

end Range

/-! ## The items of a range -/

/-- The loop over `wanted` gives each its item and takes its key out of both maps. -/
theorem classifyTargets_eq (label : TableLabel) (space : SpaceId) : ∀ (wanted : List (Int × DerivedTarget))
    (rows : KeyMap TargetKey (List Int)) (entries : KeyMap TargetKey IndexEntry), (wanted.map targetKey).Nodup →
    (classifyTargets label space wanted rows entries).1 = wanted.map (fun p =>
      .target label p.1 p.2.vectorKind (classify space p.2.version (entries.lookup (targetKey p))
        ((rows.lookup (targetKey p)).getD [])) p.2.version (entries.lookup (targetKey p))) ∧
    (∀ key, (classifyTargets label space wanted rows entries).2.1.lookup key =
      if key ∈ wanted.map targetKey then none else rows.lookup key) ∧
    (∀ key, (classifyTargets label space wanted rows entries).2.2.lookup key =
      if key ∈ wanted.map targetKey then none else entries.lookup key)
  | [], _, _, _ => by simp [classifyTargets]
  | (id, target) :: wanted, rows, entries, hn => by
    rw [List.map_cons, List.nodup_cons] at hn
    obtain ⟨hnew, hn⟩ := hn
    obtain ⟨hitems, hrows, hentries⟩ := classifyTargets_eq label space wanted (rows.erase (id, target.vectorKind))
      (entries.erase (id, target.vectorKind)) hn
    have hhead : targetKey (id, target) = (id, target.vectorKind) := rfl
    have hne : ∀ p ∈ wanted, targetKey p ≠ (id, target.vectorKind) :=
      fun p hp heq => hnew (List.mem_map.2 ⟨p, hp, heq⟩)
    refine ⟨?_, fun key => ?_, fun key => ?_⟩
    · rw [List.map_cons, classifyTargets, hitems]
      refine congrArg₂ _ rfl (List.map_congr_left fun p hp => ?_)
      rw [AList.lookup_erase_ne (hne p hp), AList.lookup_erase_ne (hne p hp)]
    · rw [classifyTargets]
      dsimp only
      rw [hrows, KeyMap.lookup_erase_eq, List.map_cons, hhead]
      by_cases hk : key = (id, target.vectorKind) <;> simp only [hk, List.mem_cons, true_or, false_or, if_true, if_false,
        ite_self]
    · rw [classifyTargets]
      dsimp only
      rw [hentries, KeyMap.lookup_erase_eq, List.map_cons, hhead]
      by_cases hk : key = (id, target.vectorKind) <;> simp only [hk, List.mem_cons, true_or, false_or, if_true, if_false,
        ite_self]

theorem ScanTable.mem_keys {t : ScanTable} {key : TargetKey} :
    key ∈ t.keys ↔ (t.chunks key).isEmpty = false ∨ (t.entry key).isSome = true := by
  unfold keys chunks entry
  rw [List.mem_dedup, List.mem_append]
  refine or_congr ?_ ?_
  · split
    next table _ =>
      rw [← Bool.not_eq_true, List.isEmpty_iff, List.map_eq_nil_iff, List.filter_eq_nil_iff]
      simp
    next => simp
  · split
    next index _ =>
      rw [List.find?_isSome]
      simp [and_assoc]
    next => simp

theorem ScanTable.keys_nodup (t : ScanTable) : t.keys.Nodup := List.nodup_dedup _

section Leftover

variable {t : ScanTable} {lo hi : Int} {derived wanted : List (Int × DerivedTarget)}
  {rows : KeyMap TargetKey (List Int)} {entries : KeyMap TargetKey IndexEntry}

theorem wanted_keys (hw : wanted.Perm ((targetsOf t.label derived).filter fun p => lo ≤ p.1 ∧ p.1 ≤ hi))
    (key : TargetKey) :
    key ∈ wanted.map targetKey ↔ key ∈ (targetsOf t.label derived).map targetKey ∧ within lo hi key := by
  rw [(hw.map targetKey).mem_iff]
  simp only [List.mem_map, List.mem_filter, decide_eq_true_eq]
  constructor
  · rintro ⟨p, ⟨hp, hr⟩, rfl⟩
    exact ⟨⟨p, hp, rfl⟩, hr⟩
  · rintro ⟨⟨p, hp, rfl⟩, hr⟩
    exact ⟨p, ⟨hp, hr⟩, rfl⟩

variable (hrows : ∀ key, rows.lookup key = if key ∈ wanted.map targetKey then none else (t.rowsMap lo hi).lookup key)
  (hentries : ∀ key, entries.lookup key =
    if key ∈ wanted.map targetKey then none else (t.entriesMap lo hi).lookup key)

include hrows hentries

/-- What the loop left of a key that no target took. -/
theorem leftover_isSome {key : TargetKey} (hin : within lo hi key) (hnot : key ∉ wanted.map targetKey) :
    (rows.lookup key).isSome = !(t.chunks key).isEmpty ∧ (entries.lookup key).isSome = (t.entry key).isSome := by
  rw [hrows, hentries, if_neg hnot, if_neg hnot, rowsMap_isSome, entriesMap_lookup, if_pos hin]
  have hperm := rowsMap_getD t lo hi key
  rw [if_pos hin] at hperm
  exact ⟨by rw [hperm.isEmpty_eq], rfl⟩

/-- Nothing is left of a key outside the range. -/
theorem leftover_outside {key : TargetKey} (hout : ¬ within lo hi key) :
    (rows.lookup key).isSome = false ∧ (entries.lookup key).isSome = false := by
  have hperm := rowsMap_getD t lo hi key
  rw [if_neg hout] at hperm
  have hrow : ((t.rowsMap lo hi).lookup key).isSome = false := by
    rw [rowsMap_isSome, hperm.eq_nil]
    rfl
  have hentry : ((t.entriesMap lo hi).lookup key).isSome = false := by
    rw [entriesMap_lookup, if_neg hout]
    rfl
  rw [hrows, hentries]
  split
  · exact ⟨rfl, rfl⟩
  · exact ⟨hrow, hentry⟩

/-- The keys the loop left are the orphans of the range. -/
theorem leftover_keys (hw : wanted.Perm ((targetsOf t.label derived).filter fun p => lo ≤ p.1 ∧ p.1 ≤ hi)) :
    ((rows.keys ++ entries.keys).dedup.mergeSort keyLe).Perm
      ((t.orphanKeys derived).filter fun key => lo ≤ key.1 ∧ key.1 ≤ hi) := by
  refine (List.mergeSort_perm _ _).trans ((List.perm_ext_iff_of_nodup (List.nodup_dedup _)
    ((t.keys_nodup.filter _).filter _)).2 fun key => ?_)
  rw [List.mem_dedup, List.mem_append, KeyMap.mem_keys_iff, KeyMap.mem_keys_iff, List.mem_filter, List.mem_filter,
    ScanTable.mem_keys]
  by_cases hin : within lo hi key
  · have hin' : lo ≤ key.1 ∧ key.1 ≤ hi := hin
    by_cases hnot : key ∈ wanted.map targetKey
    · have htaken := ((wanted_keys hw key).1 hnot).1
      rw [hrows, hentries]
      simp [hnot, htaken]
    · obtain ⟨h₁, h₂⟩ := leftover_isSome hrows hentries hin hnot
      have hnot' : key ∉ (targetsOf t.label derived).map targetKey := fun h => hnot ((wanted_keys hw key).2 ⟨h, hin⟩)
      rw [h₁, h₂]
      simp [hnot', hin']
  · have hout : ¬ (lo ≤ key.1 ∧ key.1 ≤ hi) := hin
    obtain ⟨h₁, h₂⟩ := leftover_outside hrows hentries hin
    simp [h₁, h₂, hout]

end Leftover

/-- One range of a table gives the items of the table for it. -/
theorem classifyRange_perm (t : ScanTable) (lo hi : Int) (space : SpaceId) {wanted derived : List (Int × DerivedTarget)}
    (hn : ((targetsOf t.label derived).map targetKey).Nodup)
    (hw : wanted.Perm ((targetsOf t.label derived).filter fun p => lo ≤ p.1 ∧ p.1 ≤ hi)) :
    (classifyRange t lo hi space wanted).Perm (t.items space derived fun i => lo ≤ i ∧ i ≤ hi) := by
  have hwn : (wanted.map targetKey).Nodup :=
    (hw.map targetKey).nodup_iff.2 (hn.sublist (List.filter_sublist.map targetKey))
  obtain ⟨hitems, hrows, hentries⟩ := classifyTargets_eq t.label space wanted (t.rowsMap lo hi) (t.entriesMap lo hi) hwn
  have hrange : classifyRange t lo hi space wanted =
      (classifyTargets t.label space wanted (t.rowsMap lo hi) (t.entriesMap lo hi)).1 ++
        (((classifyTargets t.label space wanted (t.rowsMap lo hi) (t.entriesMap lo hi)).2.1.keys ++
          (classifyTargets t.label space wanted (t.rowsMap lo hi) (t.entriesMap lo hi)).2.2.keys).dedup.mergeSort
            keyLe).map fun key => .orphan t.label key.1 key.2
              ((classifyTargets t.label space wanted (t.rowsMap lo hi) (t.entriesMap lo hi)).2.1.lookup key).isSome
              ((classifyTargets t.label space wanted (t.rowsMap lo hi) (t.entriesMap lo hi)).2.2.lookup key).isSome := rfl
  rw [hrange]
  generalize classifyTargets t.label space wanted (t.rowsMap lo hi) (t.entriesMap lo hi) = result at hitems hrows hentries
  obtain ⟨out, rows, entries⟩ := result
  dsimp only at hitems hrows hentries ⊢
  have hkeys := leftover_keys hrows hentries hw
  unfold ScanTable.items
  refine List.Perm.append ?_ ?_
  · rw [hitems]
    refine List.Perm.trans (List.Perm.of_eq (List.map_congr_left fun p hp => ?_)) (hw.map _)
    have hin : within lo hi (targetKey p) := ((wanted_keys hw _).1 (List.mem_map_of_mem hp)).2
    have hperm := rowsMap_getD t lo hi (targetKey p)
    rw [if_pos hin] at hperm
    rw [ScanTable.targetItem, entriesMap_lookup, if_pos hin, classify_perm hperm]
  · refine List.Perm.trans (List.Perm.of_eq (List.map_congr_left fun key hkey => ?_)) (hkeys.map _)
    have hkey' := hkeys.mem_iff.1 hkey
    unfold ScanTable.orphanKeys at hkey'
    rw [List.mem_filter, List.mem_filter] at hkey'
    have hin : within lo hi key := by simpa [within] using hkey'.2
    have hnot : key ∉ wanted.map targetKey := fun h => by simpa [((wanted_keys hw key).1 h).1] using hkey'.1.2
    obtain ⟨h₁, h₂⟩ := leftover_isSome hrows hentries hin hnot
    rw [ScanTable.orphanItem, h₁, h₂]

end MemoryStore.EmbeddingIndex
