/-
A scan gives one item for each derived target and one for each orphan, whatever
the sizes of its pages.

The items a scanner has still to give are a function of its source and its
cursor (`Scanner.rest`); a page moves its own items out of them, and each page
brings the walk nearer its end (`Scanner.left`).
-/
import MemoryStore.EmbeddingIndex.Range

namespace MemoryStore.EmbeddingIndex

open EmbeddingSpace

section

variable [MetadataJson]

/-! ## The derived targets of a database -/

def Rdb.derivedMemories (rdb : Rdb) (config : ScanConfig) : List (Int × DerivedTarget) :=
  rdb.memories.flatMap (MemoryScanRow.targets config rdb.mediaObjects)

def Rdb.derivedThreads (rdb : Rdb) (config : ScanConfig) : List (Int × DerivedTarget) :=
  rdb.threads.filterMap (ThreadScanRow.target config)

/-- Every embedding target the database yields. -/
def Rdb.derived (rdb : Rdb) (config : ScanConfig) : List (Int × DerivedTarget) :=
  rdb.derivedMemories config ++ rdb.derivedThreads config

def Rdb.captions (rdb : Rdb) (config : ScanConfig) : List (Int × Int) :=
  rdb.memories.filterMap (MemoryScanRow.caption config rdb.mediaObjects)

variable {rdb : Rdb} {config : ScanConfig}

theorem MemoryScanRow.targets_id {media : List MediaObjectRow} {r : MemoryScanRow} {p : Int × DerivedTarget}
    (h : p ∈ r.targets config media) : p.1 = r.id ∧ p.2.table ≠ .thread := by
  obtain ⟨d, hd, rfl⟩ := List.mem_map.1 h
  refine ⟨rfl, fun htable => ?_⟩
  have hslot := (memoryTargets_slots _ _ _ _ _ _ _).subset (List.mem_map_of_mem hd)
  have hne : ∀ slot ∈ memorySlots, slot.1 ≠ .thread := by decide
  exact hne _ hslot htable

theorem ThreadScanRow.target_id {r : ThreadScanRow} {p : Int × DerivedTarget} (h : r.target config = some p) :
    p.1 = r.id ∧ p.2.table = .thread := by
  obtain ⟨d, hd, rfl⟩ := Option.map_eq_some_iff.1 h
  exact ⟨rfl, threadTarget_table hd⟩

theorem MemoryScanRow.targets_keys (config : ScanConfig) (media : List MediaObjectRow) (r : MemoryScanRow)
    (label : TableLabel) : ((targetsOf label (r.targets config media)).map targetKey).Nodup := by
  have hn : ((r.targets config media).map fun p => p.2.slot).Nodup := by
    unfold targets
    rw [List.map_map]
    exact ((memoryTargets_slots _ _ _ _ _ _ _).nodup (by decide))
  have hsub : ((targetsOf label (r.targets config media)).map fun p => p.2.slot).Nodup :=
    hn.sublist (List.filter_sublist.map _)
  refine List.Nodup.map_on (fun p hp q hq hkey => ?_) hsub.of_map
  refine List.inj_on_of_nodup_map hsub hp hq ?_
  have hpl := (List.mem_filter.1 hp).2
  have hql := (List.mem_filter.1 hq).2
  simp only [decide_eq_true_eq] at hpl hql
  simp only [targetKey, Prod.mk.injEq] at hkey
  simp [DerivedTarget.slot, hpl, hql, hkey.2]

theorem Rdb.derivedMemories_keys (rdb : Rdb) (config : ScanConfig) (label : TableLabel) :
    ((targetsOf label (rdb.derivedMemories config)).map targetKey).Nodup := by
  unfold derivedMemories targetsOf
  rw [List.filter_flatMap, List.map_flatMap, List.nodup_flatMap]
  refine ⟨fun r _ => MemoryScanRow.targets_keys config _ r label, ?_⟩
  refine (List.pairwise_map.1 rdb.memories_key).imp fun {r r'} hne => ?_
  rw [Function.onFun, List.disjoint_left]
  intro key hkey hkey'
  obtain ⟨p, hp, rfl⟩ := List.mem_map.1 hkey
  obtain ⟨q, hq, hpq⟩ := List.mem_map.1 hkey'
  have hpid := (MemoryScanRow.targets_id (List.mem_of_mem_filter hp)).1
  have hqid := (MemoryScanRow.targets_id (List.mem_of_mem_filter hq)).1
  simp only [targetKey, Prod.mk.injEq] at hpq
  exact hne (by rw [← hpid, ← hqid, hpq.1])

theorem ThreadScanRow.target_ids (config : ScanConfig) : ∀ rows : List ThreadScanRow,
    ((rows.filterMap (ThreadScanRow.target config)).map Prod.fst).Sublist (rows.map ThreadScanRow.id)
  | [] => List.Sublist.refl _
  | r :: rows => by
    have ih := target_ids config rows
    rw [List.filterMap_cons]
    split
    next => exact ih.cons _
    next p h =>
      rw [List.map_cons, List.map_cons, (target_id h).1]
      exact ih.cons₂ _

theorem Rdb.derivedThreads_keys (rdb : Rdb) (config : ScanConfig) :
    ((rdb.derivedThreads config).map targetKey).Nodup := by
  have hids : ((rdb.derivedThreads config).map Prod.fst).Nodup :=
    rdb.threads_key.sublist (ThreadScanRow.target_ids config _)
  exact List.Nodup.of_map Prod.fst (by rwa [List.map_map])

theorem Rdb.targetsOf_memory {label : TableLabel} (h : label ≠ .thread) (rdb : Rdb) (config : ScanConfig) :
    targetsOf label (rdb.derived config) = targetsOf label (rdb.derivedMemories config) := by
  unfold derived targetsOf
  have hthreads : (rdb.derivedThreads config).filter (fun p => p.2.table = label) = [] := by
    rw [List.filter_eq_nil_iff]
    intro p hp hlabel
    obtain ⟨r, -, hr⟩ := List.mem_filterMap.1 hp
    exact h ((of_decide_eq_true hlabel).symm.trans (ThreadScanRow.target_id hr).2)
  rw [List.filter_append, hthreads, List.append_nil]

theorem Rdb.targetsOf_thread (rdb : Rdb) (config : ScanConfig) :
    targetsOf .thread (rdb.derived config) = rdb.derivedThreads config := by
  unfold derived targetsOf
  rw [List.filter_append]
  have hmemories : (rdb.derivedMemories config).filter (fun p => p.2.table = .thread) = [] := by
    rw [List.filter_eq_nil_iff]
    intro p hp hlabel
    obtain ⟨r, -, hr⟩ := List.mem_flatMap.1 hp
    exact (MemoryScanRow.targets_id hr).2 (of_decide_eq_true hlabel)
  rw [hmemories, List.nil_append, List.filter_eq_self]
  intro p hp
  obtain ⟨r, -, hr⟩ := List.mem_filterMap.1 hp
  exact decide_eq_true (ThreadScanRow.target_id hr).2

/-- No two targets of a table have the same key. -/
theorem Rdb.targetsOf_keys (rdb : Rdb) (config : ScanConfig) (label : TableLabel) :
    ((targetsOf label (rdb.derived config)).map targetKey).Nodup := by
  by_cases h : label = .thread
  · subst h
    rw [rdb.targetsOf_thread]
    exact rdb.derivedThreads_keys config
  · rw [rdb.targetsOf_memory h]
    exact rdb.derivedMemories_keys config label

/-! ## The rows of a page -/

/-- The upper end of a page's range: its last key, or the end when the page is not full. -/
def pageEnd (ids : List Int) (pageSize : Int) : Int :=
  if (ids.length : Int) < pageSize then i64Max else ids.getLastD i64Max

section Page

variable {α : Type} {key : α → Int} {rows : List α} {after pageSize : Int}

theorem page_getLast? (hsize : 1 ≤ pageSize)
    (hfull : ¬ (((Keyset.page key rows after pageSize.toNat).map key).length : Int) < pageSize) :
    ∃ last, (Keyset.page key rows after pageSize.toNat).getLast? = some last ∧
      pageEnd ((Keyset.page key rows after pageSize.toNat).map key) pageSize = key last := by
  have hne : Keyset.page key rows after pageSize.toNat ≠ [] := by
    intro hnil
    rw [hnil] at hfull
    simp at hfull
    omega
  obtain ⟨last, hlast⟩ := Option.isSome_iff_exists.1 (List.getLast?_isSome.2 hne)
  refine ⟨last, hlast, ?_⟩
  unfold pageEnd
  rw [if_neg hfull, List.getLastD_eq_getLast?, List.getLast?_map, hlast]
  rfl

variable (after)

/-- A page holds the rows of its range. -/
theorem page_range (hn : (rows.map key).Nodup) (hmax : ∀ r ∈ rows, key r < i64Max) (hsize : 1 ≤ pageSize) :
    (Keyset.page key rows after pageSize.toNat).Perm (rows.filter fun r => after < key r ∧
      key r ≤ pageEnd ((Keyset.page key rows after pageSize.toNat).map key) pageSize) := by
  by_cases hshort : (((Keyset.page key rows after pageSize.toNat).map key).length : Int) < pageSize
  · unfold pageEnd
    rw [if_pos hshort]
    rw [List.length_map] at hshort
    refine (Keyset.page_of_short (by omega)).trans (List.Perm.of_eq (List.filter_congr fun r hr => ?_))
    have := hmax r hr
    simp [le_of_lt this]
  · obtain ⟨last, hlast, hend⟩ := page_getLast? hsize hshort
    rw [hend]
    exact Keyset.page_of_last hn hlast

variable (key rows)

/-- A full page ends at one of the rows after the cursor. -/
theorem pageEnd_of_full (hsize : 1 ≤ pageSize)
    (hfull : ¬ (((Keyset.page key rows after pageSize.toNat).map key).length : Int) < pageSize) :
    ∃ r ∈ rows, after < key r ∧ pageEnd ((Keyset.page key rows after pageSize.toNat).map key) pageSize = key r := by
  obtain ⟨last, hlast, hend⟩ := page_getLast? hsize hfull
  have hmem := Keyset.mem_page (List.mem_of_getLast? hlast)
  exact ⟨last, hmem.1, hmem.2, hend⟩

variable {rows after}

/-- Fewer rows are left after one of them. -/
theorem left_lt {r : α} (hr : r ∈ rows) (hafter : after < key r) :
    (rows.filter fun a => key r < key a).length < (rows.filter fun a => after < key a).length := by
  have hsub : (rows.filter fun a => key r < key a).Sublist (rows.filter fun a => after < key a) := by
    refine List.monotone_filter_right _ fun a ha => ?_
    simp only [decide_eq_true_eq] at ha ⊢
    exact lt_trans hafter ha
  refine lt_of_le_of_ne hsub.length_le fun heq => ?_
  have hmem : r ∈ rows.filter fun a => after < key a := List.mem_filter.2 ⟨hr, by simpa using hafter⟩
  rw [← hsub.eq_of_length heq] at hmem
  simpa using (List.mem_filter.1 hmem).2

end Page

/-- The media read for a page is what the whole table says of its rows. -/
theorem linkedIn_page {rows : List MemoryScanRow} {r : MemoryScanRow} (hr : r ∈ rows) (rdb : Rdb) :
    r.linkedIn (if (rows.filterMap MemoryScanRow.mediaObjectId).isEmpty then []
      else rdb.findByIds (rows.filterMap MemoryScanRow.mediaObjectId)) = r.linkedIn rdb.mediaObjects := by
  unfold MemoryScanRow.linkedIn
  congr 1
  cases hid : r.mediaObjectId with
  | none => rfl
  | some id =>
    have hmem : id ∈ rows.filterMap MemoryScanRow.mediaObjectId := List.mem_filterMap.2 ⟨r, hr, hid⟩
    have hne : (rows.filterMap MemoryScanRow.mediaObjectId).isEmpty = false := by
      rw [← Bool.not_eq_true, List.isEmpty_iff]
      exact List.ne_nil_of_mem hmem
    rw [hne, Option.bind_some, Option.bind_some, if_neg (by simp), Rdb.findByIds, List.find?_filter]
    congr 1
    funext m
    by_cases hm : m.id = id
    · simpa [hm] using List.mem_filterMap.1 hmem
    · simp [hm]

theorem memoryPage_targets (rdb : Rdb) (s : Scanner) :
    (s.memoryPage rdb).2.1 = (rdb.fetchMemoryPage s.cursor s.config.pageSize).flatMap
      (MemoryScanRow.targets s.config rdb.mediaObjects) := by
  unfold Scanner.memoryPage
  refine List.flatMap_congr fun r hr => ?_
  unfold MemoryScanRow.targets
  rw [linkedIn_page hr]

theorem memoryPage_captions (rdb : Rdb) (s : Scanner) :
    (s.memoryPage rdb).2.2 = (rdb.fetchMemoryPage s.cursor s.config.pageSize).filterMap
      (MemoryScanRow.caption s.config rdb.mediaObjects) := by
  unfold Scanner.memoryPage
  refine List.filterMap_congr fun r hr => ?_
  unfold MemoryScanRow.caption
  rw [linkedIn_page hr]

/-! ## What a scanner has still to give -/

/-- The bounds on ids: from 1 to below `i64::MAX`. -/
structure IdsBounded (rdb : Rdb) (tables : List ScanTable) : Prop where
  memories : ∀ r ∈ rdb.memories, 1 ≤ r.id ∧ r.id < i64Max
  threads : ∀ r ∈ rdb.threads, 1 ≤ r.id ∧ r.id < i64Max
  keys : ∀ t ∈ tables, ∀ key ∈ t.keys, 1 ≤ key.1 ∧ key.1 < i64Max

def captionItem (c : Int × Int) : ScanItem := .captionMissing c.1 c.2

/-- The items of the memory tables for the entities in a range. -/
def memoryItems (rdb : Rdb) (config : ScanConfig) (tables : List ScanTable) (range : Int → Bool) : List ScanItem :=
  ((rdb.captions config).filter fun c => range c.1).map captionItem ++
    tables.flatMap fun t => t.items config.space (rdb.derived config) range

/-- The items of the thread table for the entities in a range. -/
def threadItems (rdb : Rdb) (config : ScanConfig) (table : Option ScanTable) (range : Int → Bool) : List ScanItem :=
  table.toList.flatMap fun t => t.items config.space (rdb.derived config) range

def Scanner.rest (rdb : Rdb) (s : Scanner) : List ScanItem :=
  match s.source with
  | none => []
  | some .memories => memoryItems rdb s.config s.memoryTables (fun i => s.cursor < i) ++
      threadItems rdb s.config s.threadTable (fun i => 0 < i)
  | some .threads => threadItems rdb s.config s.threadTable (fun i => s.cursor < i)

/-- A bound on the pages a scanner has still to give. -/
def Scanner.left (rdb : Rdb) (s : Scanner) : Nat :=
  match s.source with
  | none => 0
  | some .memories => (rdb.memories.filter fun r => s.cursor < r.id).length + rdb.threads.length + 2
  | some .threads => (rdb.threads.filter fun r => s.cursor < r.id).length + 1

/-- What holds of a scanner between its pages. -/
structure Scanner.Ready (rdb : Rdb) (s : Scanner) : Prop where
  bounded : IdsBounded rdb (s.memoryTables ++ s.threadTable.toList)
  memoryLabels : ∀ t ∈ s.memoryTables, t.label ≠ .thread
  threadLabel : ∀ t ∈ s.threadTable, t.label = .thread
  cursor : s.source ≠ none → s.cursor < i64Max

/-! ## A page gives the items of its range -/

theorem flatMap_range {α β : Type} {key : α → Int} {id : β → Int} {f : α → List β}
    (h : ∀ a, ∀ b ∈ f a, id b = key a) (range : Int → Bool) : ∀ rows : List α,
    (rows.filter fun a => range (key a)).flatMap f = (rows.flatMap f).filter fun b => range (id b)
  | [] => rfl
  | a :: rows => by
    have ih := flatMap_range h range rows
    rw [List.flatMap_cons, List.filter_append, ← ih, List.filter_cons]
    split
    next hr =>
      have hself : (f a).filter (fun b => range (id b)) = f a := List.filter_eq_self.2 fun b hb => by rwa [h a b hb]
      rw [List.flatMap_cons, hself]
    next hr =>
      have hnil : (f a).filter (fun b => range (id b)) = [] := List.filter_eq_nil_iff.2 fun b hb => by rwa [h a b hb]
      rw [hnil, List.nil_append]

theorem filterMap_range {α β : Type} {key : α → Int} {id : β → Int} {f : α → Option β}
    (h : ∀ a b, f a = some b → id b = key a) (range : Int → Bool) (rows : List α) :
    (rows.filter fun a => range (key a)).filterMap f = (rows.filterMap f).filter fun b => range (id b) := by
  rw [List.filterMap_eq_flatMap_toList, List.filterMap_eq_flatMap_toList]
  exact flatMap_range (fun a b hb => h a b (by simpa using hb)) range rows

theorem MemoryScanRow.caption_id {media : List MediaObjectRow} {r : MemoryScanRow} {c : Int × Int}
    (h : r.caption config media = some c) : c.1 = r.id := by
  unfold caption at h
  dsimp only at h
  split at h
  next m _ =>
    split at h
    · cases h; rfl
    · cases h
  next => cases h

theorem targetsOf_filter (label : TableLabel) (derived : List (Int × DerivedTarget)) (p : Int × DerivedTarget → Bool) :
    targetsOf label (derived.filter p) = (targetsOf label derived).filter p := by
  unfold targetsOf
  rw [List.filter_filter, List.filter_filter]
  exact List.filter_congr fun a _ => Bool.and_comm ..

/-- The range of a page: after the cursor, up to the page's end. -/
def pageRange (cursor hi : Int) (i : Int) : Bool := cursor < i ∧ i ≤ hi

theorem lo_le_iff {cursor hi : Int} (h : cursor < i64Max) :
    (fun i : Int => decide (min (cursor + 1) i64Max ≤ i ∧ i ≤ hi)) = pageRange cursor hi := by
  funext i
  unfold pageRange
  rw [min_eq_left (by omega)]
  rfl

theorem classifyRange_page {t : ScanTable} {cursor hi : Int} {space : SpaceId} {wanted : List (Int × DerivedTarget)}
    (hcursor : cursor < i64Max)
    (hw : wanted.Perm ((targetsOf t.label (rdb.derived config)).filter fun p => pageRange cursor hi p.1)) :
    (classifyRange t (min (cursor + 1) i64Max) hi space wanted).Perm
      (t.items space (rdb.derived config) (pageRange cursor hi)) := by
  rw [← lo_le_iff hcursor] at hw ⊢
  exact classifyRange_perm t _ _ _ (rdb.targetsOf_keys config t.label) hw

theorem memoryPage_items {s : Scanner} (hr : s.Ready rdb) (hsize : 1 ≤ s.config.pageSize) (hcursor : s.cursor < i64Max) :
    ((s.memoryPage rdb).2.2.map captionItem ++ s.memoryTables.flatMap fun t =>
      classifyRange t (min (s.cursor + 1) i64Max) (pageEnd (s.memoryPage rdb).1 s.config.pageSize) s.config.space
        ((s.memoryPage rdb).2.1.filter fun p => p.2.table = t.label)).Perm
      (memoryItems rdb s.config s.memoryTables
        (pageRange s.cursor (pageEnd (s.memoryPage rdb).1 s.config.pageSize))) := by
  rw [memoryPage_captions, memoryPage_targets]
  have hids : (s.memoryPage rdb).1 = (rdb.fetchMemoryPage s.cursor s.config.pageSize).map MemoryScanRow.id := rfl
  rw [hids]
  generalize hpage : rdb.fetchMemoryPage s.cursor s.config.pageSize = page
  generalize hhi : pageEnd (page.map MemoryScanRow.id) s.config.pageSize = hi
  have hperm : page.Perm (rdb.memories.filter fun r => pageRange s.cursor hi r.id) := by
    have h := page_range s.cursor rdb.memories_key (fun r hr' => (hr.bounded.memories r hr').2) hsize
    subst hpage hhi
    exact h
  refine List.Perm.append ?_ (List.Perm.flatMap_left _ fun t ht => ?_)
  · refine ((hperm.filterMap _).trans (List.Perm.of_eq ?_)).map _
    exact filterMap_range (fun r c h => MemoryScanRow.caption_id h) _ _
  · refine classifyRange_page hcursor ?_
    rw [rdb.targetsOf_memory (hr.memoryLabels t ht), ← targetsOf_filter]
    refine List.Perm.filter _ ?_
    refine (hperm.flatMap_right _).trans (List.Perm.of_eq ?_)
    exact flatMap_range (fun r p h => (MemoryScanRow.targets_id h).1) _ _

theorem threadPage_items {s : Scanner} (hr : s.Ready rdb) (hsize : 1 ≤ s.config.pageSize) (hcursor : s.cursor < i64Max) :
    (s.threadTable.toList.flatMap fun t =>
      classifyRange t (min (s.cursor + 1) i64Max) (pageEnd (s.threadPage rdb).1 s.config.pageSize) s.config.space
        ((s.threadPage rdb).2.filter fun p => p.2.table = t.label)).Perm
      (threadItems rdb s.config s.threadTable
        (pageRange s.cursor (pageEnd (s.threadPage rdb).1 s.config.pageSize))) := by
  have hids : (s.threadPage rdb).1 = (rdb.fetchThreadPage s.cursor s.config.pageSize).map ThreadScanRow.id := rfl
  have htargets : (s.threadPage rdb).2 =
      (rdb.fetchThreadPage s.cursor s.config.pageSize).filterMap (ThreadScanRow.target s.config) := rfl
  rw [hids, htargets]
  generalize hpage : rdb.fetchThreadPage s.cursor s.config.pageSize = page
  generalize hhi : pageEnd (page.map ThreadScanRow.id) s.config.pageSize = hi
  have hperm : page.Perm (rdb.threads.filter fun r => pageRange s.cursor hi r.id) := by
    have h := page_range s.cursor rdb.threads_key (fun r hr' => (hr.bounded.threads r hr').2) hsize
    subst hpage hhi
    exact h
  refine List.Perm.flatMap_left _ fun t ht => ?_
  have hlabel : t.label = .thread := hr.threadLabel t (by simpa using ht)
  refine classifyRange_page hcursor ?_
  rw [hlabel, rdb.targetsOf_thread]
  have hall : ∀ p ∈ page.filterMap (ThreadScanRow.target s.config), decide (p.2.table = TableLabel.thread) = true := by
    intro p hp
    obtain ⟨r, -, h⟩ := List.mem_filterMap.1 hp
    exact decide_eq_true (ThreadScanRow.target_id h).2
  rw [List.filter_eq_self.2 hall]
  refine (hperm.filterMap _).trans (List.Perm.of_eq ?_)
  exact filterMap_range (fun r p h => (ThreadScanRow.target_id h).1) _ _

/-! ## What is left after a page -/

/-- A range that ends where another begins. -/
theorem flatMap_items_split (tables : List ScanTable) (space : SpaceId) (derived : List (Int × DerivedTarget))
    {range front back : Int → Bool} (hfront : ∀ i, front i = true → range i = true)
    (hback : ∀ i, back i = (range i && !front i)) :
    (tables.flatMap (fun t => t.items space derived front) ++ tables.flatMap fun t => t.items space derived back).Perm
      (tables.flatMap fun t => t.items space derived range) := by
  refine (List.flatMap_append_perm tables _ _).trans ?_
  exact List.Perm.flatMap_left _ fun t _ => t.items_split space derived hfront hback

theorem pageRange_split {cursor hi : Int} (h : cursor ≤ hi) (i : Int) :
    decide (hi < i) = (decide (cursor < i) && !pageRange cursor hi i) := by
  unfold pageRange
  by_cases h₁ : hi < i
  · have h₂ : cursor < i := lt_of_le_of_lt h h₁
    simp [h₁, h₂]
  · have h₂ : i ≤ hi := not_lt.1 h₁
    simp [h₁, h₂]

theorem pageRange_after {cursor hi i : Int} (h : pageRange cursor hi i = true) : decide (cursor < i) = true := by
  unfold pageRange at h
  simp only [decide_eq_true_eq] at h ⊢
  exact h.1

theorem memoryItems_split (rdb : Rdb) (config : ScanConfig) (tables : List ScanTable) {cursor hi : Int} (h : cursor ≤ hi) :
    (memoryItems rdb config tables (pageRange cursor hi) ++ memoryItems rdb config tables fun i => hi < i).Perm
      (memoryItems rdb config tables fun i => cursor < i) := by
  have hcaptions := (perm_filter_split (p := fun c : Int × Int => decide (cursor < c.1))
    (q := fun c => pageRange cursor hi c.1) (fun c => pageRange_after) (rdb.captions config)).map captionItem
  have htables := flatMap_items_split tables config.space (rdb.derived config) (fun i => pageRange_after)
    (pageRange_split h)
  rw [List.map_append] at hcaptions
  simp only [← pageRange_split h] at hcaptions
  unfold memoryItems
  refine List.Perm.trans ?_ (hcaptions.symm.append htables)
  rw [List.append_assoc, List.append_assoc]
  refine List.Perm.append_left _ ?_
  rw [← List.append_assoc, ← List.append_assoc]
  exact List.Perm.append_right _ List.perm_append_comm

theorem threadItems_split (rdb : Rdb) (config : ScanConfig) (table : Option ScanTable) {cursor hi : Int} (h : cursor ≤ hi) :
    (threadItems rdb config table (pageRange cursor hi) ++ threadItems rdb config table fun i => hi < i).Perm
      (threadItems rdb config table fun i => cursor < i) :=
  flatMap_items_split _ _ _ (fun i => pageRange_after) (pageRange_split h)

theorem Rdb.derived_id {p : Int × DerivedTarget} (hp : p ∈ rdb.derived config) :
    (∃ r ∈ rdb.memories, p.1 = r.id) ∨ ∃ r ∈ rdb.threads, p.1 = r.id := by
  rcases List.mem_append.1 hp with hp | hp
  · obtain ⟨r, hr, hp⟩ := List.mem_flatMap.1 hp
    exact .inl ⟨r, hr, (MemoryScanRow.targets_id hp).1⟩
  · obtain ⟨r, hr, hp⟩ := List.mem_filterMap.1 hp
    exact .inr ⟨r, hr, (ThreadScanRow.target_id hp).1⟩

/-- Every id a scan meets is within the bounds. -/
theorem IdsBounded.derived {tables : List ScanTable} (h : IdsBounded rdb tables) {p : Int × DerivedTarget}
    (hp : p ∈ rdb.derived config) : 1 ≤ p.1 ∧ p.1 < i64Max := by
  rcases Rdb.derived_id hp with ⟨r, hr, heq⟩ | ⟨r, hr, heq⟩
  · exact heq ▸ h.memories r hr
  · exact heq ▸ h.threads r hr

theorem tableItems_end {tables all : List ScanTable} (h : IdsBounded rdb all) (hsub : ∀ t ∈ tables, t ∈ all) :
    (tables.flatMap fun t => t.items config.space (rdb.derived config) fun i => i64Max < i) = [] := by
  rw [List.flatMap_eq_nil_iff]
  intro t ht
  have htargets : (targetsOf t.label (rdb.derived config)).filter (fun p => decide (i64Max < p.1)) = [] := by
    rw [List.filter_eq_nil_iff]
    intro p hp hlt
    have := h.derived (List.mem_of_mem_filter hp)
    have := of_decide_eq_true hlt
    omega
  have horphans : (t.orphanKeys (rdb.derived config)).filter (fun key => decide (i64Max < key.1)) = [] := by
    rw [List.filter_eq_nil_iff]
    intro key hkey hlt
    have := h.keys t (hsub t ht) key (List.mem_of_mem_filter hkey)
    have := of_decide_eq_true hlt
    omega
  unfold ScanTable.items
  rw [htargets, horphans]
  rfl

theorem memoryItems_end {s : Scanner} (hr : s.Ready rdb) :
    memoryItems rdb s.config s.memoryTables (fun i => i64Max < i) = [] := by
  have hcaptions : (rdb.captions s.config).filter (fun c => decide (i64Max < c.1)) = [] := by
    rw [List.filter_eq_nil_iff]
    intro c hc hlt
    obtain ⟨r, hr', hc⟩ := List.mem_filterMap.1 hc
    have := (hr.bounded.memories r hr').2
    have := of_decide_eq_true hlt
    have := MemoryScanRow.caption_id hc
    omega
  unfold memoryItems
  rw [hcaptions, tableItems_end hr.bounded fun t ht => List.mem_append_left _ ht]
  rfl

theorem threadItems_end {s : Scanner} (hr : s.Ready rdb) :
    threadItems rdb s.config s.threadTable (fun i => i64Max < i) = [] :=
  tableItems_end hr.bounded fun t ht => List.mem_append_right _ ht

/-! ## One page -/

/-- What a page is: its items leave those still to give, and the end of the walk comes nearer. -/
structure Scanner.Turns (rdb : Rdb) (s s' : Scanner) (items : List ScanItem) : Prop where
  config : s'.config = s.config
  items : (items ++ s'.rest rdb).Perm (s.rest rdb)
  ready : s'.Ready rdb
  left : s'.left rdb < s.left rdb

theorem Scanner.Ready.moved {s : Scanner} (hr : s.Ready rdb) {source : Option Source} {cursor : Int}
    (h : source ≠ none → cursor < i64Max) : ({ s with source, cursor } : Scanner).Ready rdb :=
  ⟨hr.bounded, hr.memoryLabels, hr.threadLabel, h⟩

theorem pageEnd_of_short {ids : List Int} {pageSize : Int} (h : (ids.length : Int) < pageSize) :
    pageEnd ids pageSize = i64Max := if_pos h

theorem Scanner.nextPage_memories {s : Scanner} (hr : s.Ready rdb) (hsize : 1 ≤ s.config.pageSize)
    (hs : s.source = some .memories) : ∃ items s', s.nextPage rdb = (some items, s') ∧ Turns rdb s s' items := by
  have hcursor : s.cursor < i64Max := hr.cursor (by simp [hs])
  have hitems := memoryPage_items hr hsize hcursor
  have hrest : s.rest rdb = memoryItems rdb s.config s.memoryTables (fun i => s.cursor < i) ++
      threadItems rdb s.config s.threadTable (fun i => 0 < i) := by
    unfold rest
    rw [hs]
  have hleft : s.left rdb = (rdb.memories.filter fun r => s.cursor < r.id).length + rdb.threads.length + 2 := by
    unfold left
    rw [hs]
  unfold nextPage
  rw [hs]
  dsimp only
  by_cases hshort : ((s.memoryPage rdb).1.length : Int) < s.config.pageSize
  · rw [pageEnd_of_short hshort] at hitems
    have hsplit := memoryItems_split rdb s.config s.memoryTables hcursor.le
    rw [memoryItems_end hr, List.append_nil] at hsplit
    simp only [hshort, decide_true, if_true]
    split
    next hthread =>
      refine ⟨_, _, rfl, rfl, ?_, hr.moved fun _ => by decide, ?_⟩
      · rw [hrest]
        exact (hitems.trans hsplit).append_right _
      · rw [hleft]
        have := List.length_filter_le (fun r => decide ((0 : Int) < r.id)) rdb.threads
        simp only [left]
        omega
    next hthread =>
      have hnone : s.threadTable = none := by
        cases h : s.threadTable with
        | none => rfl
        | some t => exact absurd ⟨trivial, by simp [h]⟩ hthread
      refine ⟨_, _, rfl, rfl, ?_, hr.moved fun h => absurd rfl h, ?_⟩
      · have hthreads : threadItems rdb s.config s.threadTable (fun i => 0 < i) = [] := by
          rw [hnone]
          rfl
        rw [hrest, hthreads, List.append_nil]
        simp only [rest, List.append_nil]
        exact hitems.trans hsplit
      · rw [hleft]
        simp only [left]
        omega
  · obtain ⟨r, hr', hafter, hend⟩ := pageEnd_of_full MemoryScanRow.id rdb.memories s.cursor hsize hshort
    have hids : (s.memoryPage rdb).1 =
        (Keyset.page MemoryScanRow.id rdb.memories s.cursor s.config.pageSize.toNat).map MemoryScanRow.id := rfl
    rw [← hids] at hend
    have hhi : (s.memoryPage rdb).1.getLastD i64Max = r.id := by
      rw [← hend, pageEnd, if_neg hshort]
    rw [hend] at hitems
    simp only [hshort, decide_false, Bool.false_eq_true, if_false, hhi]
    refine ⟨_, _, rfl, rfl, ?_, hr.moved fun _ => (hr.bounded.memories r hr').2, ?_⟩
    · rw [hrest]
      simp only [rest]
      rw [← List.append_assoc]
      exact ((hitems.append_right _).trans (memoryItems_split _ _ _ hafter.le)).append_right _
    · rw [hleft]
      have := left_lt MemoryScanRow.id hr' hafter
      simp only [left]
      omega

theorem Scanner.nextPage_threads {s : Scanner} (hr : s.Ready rdb) (hsize : 1 ≤ s.config.pageSize)
    (hs : s.source = some .threads) : ∃ items s', s.nextPage rdb = (some items, s') ∧ Turns rdb s s' items := by
  have hcursor : s.cursor < i64Max := hr.cursor (by simp [hs])
  have hitems := threadPage_items hr hsize hcursor
  have hrest : s.rest rdb = threadItems rdb s.config s.threadTable (fun i => s.cursor < i) := by
    unfold rest
    rw [hs]
  have hleft : s.left rdb = (rdb.threads.filter fun r => s.cursor < r.id).length + 1 := by
    unfold left
    rw [hs]
  unfold nextPage
  rw [hs]
  dsimp only
  by_cases hshort : ((s.threadPage rdb).1.length : Int) < s.config.pageSize
  · rw [pageEnd_of_short hshort] at hitems
    have hsplit := threadItems_split rdb s.config s.threadTable hcursor.le
    rw [threadItems_end hr, List.append_nil] at hsplit
    simp only [hshort, decide_true, if_true, reduceCtorEq, false_and, if_false]
    refine ⟨_, _, rfl, rfl, ?_, hr.moved fun h => absurd rfl h, ?_⟩
    · rw [hrest]
      simp only [rest, List.append_nil]
      exact hitems.trans hsplit
    · rw [hleft]
      simp only [left]
      omega
  · obtain ⟨r, hr', hafter, hend⟩ := pageEnd_of_full ThreadScanRow.id rdb.threads s.cursor hsize hshort
    have hids : (s.threadPage rdb).1 =
        (Keyset.page ThreadScanRow.id rdb.threads s.cursor s.config.pageSize.toNat).map ThreadScanRow.id := rfl
    rw [← hids] at hend
    have hhi : (s.threadPage rdb).1.getLastD i64Max = r.id := by
      rw [← hend, pageEnd, if_neg hshort]
    rw [hend] at hitems
    simp only [hshort, decide_false, Bool.false_eq_true, if_false, hhi]
    refine ⟨_, _, rfl, rfl, ?_, hr.moved fun _ => (hr.bounded.threads r hr').2, ?_⟩
    · rw [hrest]
      simp only [rest]
      exact (hitems.append_right _).trans (threadItems_split _ _ _ hafter.le)
    · rw [hleft]
      have := left_lt ThreadScanRow.id hr' hafter
      simp only [left]
      omega

/-! ## A walk -/

theorem Scanner.nextPage_none {s : Scanner} (hs : s.source = none) : s.nextPage rdb = (none, s) := by
  unfold nextPage
  rw [hs]

/-- The page size of the next page does not change what a scanner has still to give. -/
theorem Scanner.sized_rest (s : Scanner) (pageSize : Int) : (s.sized pageSize).rest rdb = s.rest rdb := rfl

theorem Scanner.sized_left (s : Scanner) (pageSize : Int) : (s.sized pageSize).left rdb = s.left rdb := rfl

theorem Scanner.sized_ready {s : Scanner} (hr : s.Ready rdb) (pageSize : Int) : (s.sized pageSize).Ready rdb :=
  ⟨hr.bounded, hr.memoryLabels, hr.threadLabel, hr.cursor⟩

/-- A page of a walk that has not ended. -/
theorem Scanner.nextPage_spec {s : Scanner} (hr : s.Ready rdb) {pageSize : Int} (hsize : 1 ≤ pageSize)
    (hs : s.source ≠ none) : ∃ items s', (s.sized pageSize).nextPage rdb = (some items, s') ∧
      Turns rdb (s.sized pageSize) s' items := by
  cases hsource : s.source with
  | none => exact absurd hsource hs
  | some source =>
    cases source with
    | memories => exact nextPage_memories (sized_ready hr pageSize) hsize hsource
    | threads => exact nextPage_threads (sized_ready hr pageSize) hsize hsource

/-- A walk gives items that leave those still to give, and with enough pages it ends. -/
theorem Scanner.walk_spec : ∀ (sizes : List Int) (s : Scanner), (∀ n ∈ sizes, 1 ≤ n) → s.Ready rdb →
    ((s.walk rdb sizes).1.flatten ++ (s.walk rdb sizes).2.rest rdb).Perm (s.rest rdb) ∧
      (s.left rdb ≤ sizes.length → (s.walk rdb sizes).2.source = none)
  | [], s, _, _ => by
    refine ⟨List.Perm.refl _, fun h => ?_⟩
    cases hs : s.source with
    | none => exact hs
    | some source =>
      unfold left at h
      rw [hs] at h
      cases source <;> simp at h
  | n :: sizes, s, hsizes, hr => by
    unfold walk
    by_cases hs : s.source = none
    · rw [nextPage_none (s := s.sized n) hs]
      exact ⟨List.Perm.refl _, fun _ => hs⟩
    · obtain ⟨items, s', hpage, ht⟩ := nextPage_spec hr (hsizes n (List.mem_cons_self ..)) hs
      obtain ⟨hwalk, hend⟩ := walk_spec sizes s' (fun m hm => hsizes m (List.mem_cons_of_mem _ hm)) ht.ready
      have hitems := ht.items
      have hleft := ht.left
      rw [sized_rest] at hitems
      rw [sized_left] at hleft
      rw [hpage]
      refine ⟨?_, fun h => hend ?_⟩
      · rw [List.flatten_cons, List.append_assoc]
        exact (hwalk.append_left items).trans hitems
      · rw [List.length_cons] at h
        omega

/-! ## The items of a whole scan -/

/-- Everything a scan has to give. -/
def Rdb.scanItems (rdb : Rdb) (config : ScanConfig) (tables : List ScanTable) : List ScanItem :=
  (if ∃ t ∈ tables, t.label ≠ .thread then (rdb.captions config).map captionItem else []) ++
    tables.flatMap fun t => t.items config.space (rdb.derived config) fun _ => true

theorem ScanTable.items_all {t : ScanTable} {tables : List ScanTable} (h : IdsBounded rdb tables) (ht : t ∈ tables) :
    t.items config.space (rdb.derived config) (fun i => 0 < i) =
      t.items config.space (rdb.derived config) fun _ => true := by
  unfold items
  congr 2
  · refine List.filter_congr fun p hp => ?_
    have := (h.derived (List.mem_of_mem_filter hp)).1
    simp only [decide_eq_true_eq]
    omega
  · refine List.filter_congr fun key hkey => ?_
    have := (h.keys t ht key (List.mem_of_mem_filter hkey)).1
    simp only [decide_eq_true_eq]
    omega

theorem threadTable_of_nodup {tables : List ScanTable} (hlabels : (tables.map ScanTable.label).Nodup) :
    (tables.filter fun t => t.label = .thread).head?.toList = tables.filter fun t => t.label = .thread := by
  have hn : ((tables.filter fun t => t.label = .thread).map ScanTable.label).Nodup :=
    hlabels.sublist (List.filter_sublist.map _)
  generalize hl : (tables.filter fun t => t.label = .thread) = threads at hn
  match threads, hl with
  | [], _ => rfl
  | [t], _ => rfl
  | t :: t' :: rest, hl =>
    have hlabel : ∀ u ∈ t :: t' :: rest, u.label = .thread := fun u hu => by
      rw [← hl] at hu
      simpa using (List.mem_filter.1 hu).2
    simp [hlabel t (by simp), hlabel t' (by simp)] at hn

theorem Scanner.new_ready {tables : List ScanTable} (h : IdsBounded rdb tables) :
    (Scanner.new config tables).Ready rdb := by
  have hmem : ∀ t ∈ (tables.filter fun t => t.label ≠ .thread) ++
      (tables.filter fun t => t.label = .thread).head?.toList, t ∈ tables := by
    intro t ht
    rcases List.mem_append.1 ht with ht | ht
    · exact List.mem_of_mem_filter ht
    · rw [Option.mem_toList] at ht
      exact List.mem_of_mem_filter (List.mem_of_mem_head? ht)
  refine ⟨⟨h.memories, h.threads, fun t ht => h.keys t (hmem t ht)⟩, fun t ht => ?_, fun t ht => ?_, fun _ => ?_⟩
  · simpa using (List.mem_filter.1 ht).2
  · simpa using (List.mem_filter.1 (List.mem_of_mem_head? ht)).2
  · exact (by decide : (0 : Int) < i64Max)

theorem Scanner.new_source (config : ScanConfig) (tables : List ScanTable) :
    (Scanner.new config tables).source =
      if (tables.filter fun t => t.label ≠ .thread) ≠ [] then some .memories
      else if (tables.filter fun t => t.label = .thread) ≠ [] then some .threads
      else none := by
  have h : ∀ l : List ScanTable, (!l.isEmpty) = true ↔ l ≠ [] := fun l => by simp
  unfold new
  simp only [h]

/-- What a fresh scanner has to give. -/
theorem Scanner.new_rest {tables : List ScanTable} (h : IdsBounded rdb tables)
    (hlabels : (tables.map ScanTable.label).Nodup) :
    ((Scanner.new config tables).rest rdb).Perm (rdb.scanItems config tables) := by
  have hthreads := threadTable_of_nodup hlabels
  have hall : tables.flatMap (fun t => t.items config.space (rdb.derived config) fun i => 0 < i) =
      tables.flatMap fun t => t.items config.space (rdb.derived config) fun _ => true :=
    List.flatMap_congr fun t ht => t.items_all h ht
  have hsplit : ((tables.filter fun t => t.label ≠ .thread) ++ tables.filter fun t => t.label = .thread).Perm tables := by
    refine (List.perm_append_comm).trans ?_
    have := List.filter_append_perm (fun t : ScanTable => decide (t.label = .thread)) tables
    simpa using this
  have hcaptions : (rdb.captions config).filter (fun c => decide (0 < c.1)) = rdb.captions config := by
    rw [List.filter_eq_self]
    intro c hc
    obtain ⟨r, hr, hc⟩ := List.mem_filterMap.1 hc
    have := (h.memories r hr).1
    have := MemoryScanRow.caption_id hc
    simp only [decide_eq_true_eq]
    omega
  have hflat := (hsplit.flatMap_right fun t => t.items config.space (rdb.derived config) fun i => 0 < i)
  rw [List.flatMap_append, hall] at hflat
  unfold Rdb.scanItems
  by_cases hmemory : (tables.filter fun t => t.label ≠ .thread) = []
  · have hnone : ¬ ∃ t ∈ tables, t.label ≠ .thread := by
      rintro ⟨t, ht, hl⟩
      exact List.filter_eq_nil_iff.1 hmemory t ht (by simpa using hl)
    rw [if_neg hnone, List.nil_append]
    rw [hmemory, List.flatMap_nil, List.nil_append] at hflat
    refine List.Perm.trans (List.Perm.of_eq ?_) hflat
    unfold Scanner.rest
    rw [Scanner.new_source, if_neg (not_not.2 hmemory)]
    by_cases hthread : (tables.filter fun t => t.label = .thread) = []
    · rw [if_neg (not_not.2 hthread), hthread]
      rfl
    · rw [if_pos hthread]
      simp only [threadItems, Scanner.new, hthreads]
      rfl
  · have hsome : ∃ t ∈ tables, t.label ≠ .thread := by
      obtain ⟨t, ht⟩ := List.exists_mem_of_ne_nil _ hmemory
      exact ⟨t, List.mem_of_mem_filter ht, by simpa using (List.mem_filter.1 ht).2⟩
    rw [if_pos hsome]
    unfold Scanner.rest
    rw [Scanner.new_source, if_pos hmemory]
    simp only [memoryItems, threadItems, Scanner.new, hthreads, List.append_assoc]
    exact List.Perm.append (List.Perm.of_eq (congrArg _ hcaptions)) hflat

/-! ## Each target once, each orphan once -/

/-- The table, entity and kind of a target item. -/
def ScanItem.targetKey : ScanItem → Option (TableLabel × TargetKey)
  | .target table entityId vectorKind _ _ _ => some (table, entityId, vectorKind)
  | _ => none

/-- **Exact cover**: one item per derived target, in the state `classify` gives it from its rows and entry, and one
orphan per key with rows or an entry and no derived target. -/
structure Exact (rdb : Rdb) (config : ScanConfig) (tables : List ScanTable) (items : List ScanItem) : Prop where
  targetsOnce : (items.filterMap ScanItem.targetKey).Nodup
  targets : ∀ table id kind state version entry, .target table id kind state version entry ∈ items ↔
    ∃ t ∈ tables, t.label = table ∧ (id, ⟨table, kind, version⟩) ∈ rdb.derived config ∧ entry = t.entry (id, kind) ∧
      state = classify config.space version entry (t.chunks (id, kind))
  orphansOnce : (items.filterMap ScanItem.orphanKey).Nodup
  orphans : ∀ table id kind hasRows hasEntry, .orphan table id kind hasRows hasEntry ∈ items ↔
    ∃ t ∈ tables, t.label = table ∧ hasRows = !(t.chunks (id, kind)).isEmpty ∧
      hasEntry = (t.entry (id, kind)).isSome ∧ (hasRows = true ∨ hasEntry = true) ∧
      ∀ version, (id, ⟨table, kind, version⟩) ∉ rdb.derived config

theorem Exact.perm {tables : List ScanTable} {items items' : List ScanItem} (h : Exact rdb config tables items)
    (hp : items.Perm items') : Exact rdb config tables items' where
  targetsOnce := (hp.filterMap _).nodup_iff.1 h.targetsOnce
  targets := fun table id kind state version entry => hp.mem_iff.symm.trans (h.targets table id kind state version entry)
  orphansOnce := (hp.filterMap _).nodup_iff.1 h.orphansOnce
  orphans := fun table id kind hasRows hasEntry => hp.mem_iff.symm.trans (h.orphans table id kind hasRows hasEntry)

/-- One kind of item of a table, for every entity: the keys of the items, table by table. -/
theorem nodup_flatMap_labels {tables : List ScanTable} (hlabels : (tables.map ScanTable.label).Nodup)
    (keys : ScanTable → List TargetKey) (hkeys : ∀ t, (keys t).Nodup) :
    (tables.flatMap fun t => (keys t).map fun key => (t.label, key)).Nodup := by
  rw [List.nodup_flatMap]
  refine ⟨fun t _ => (hkeys t).map fun a b h => (Prod.mk.inj h).2, ?_⟩
  refine (List.pairwise_map.1 hlabels).imp fun {t t'} hne => ?_
  rw [Function.onFun, List.disjoint_left]
  rintro _ hx hx'
  obtain ⟨_, -, rfl⟩ := List.mem_map.1 hx
  obtain ⟨_, -, heq⟩ := List.mem_map.1 hx'
  exact hne (Prod.mk.inj heq).1.symm

theorem filterMap_captions {β : Type} (f : ScanItem → Option β) (hf : ∀ c, f (captionItem c) = none)
    (captions : List (Int × Int)) : (captions.map captionItem).filterMap f = [] := by
  rw [List.filterMap_map, List.filterMap_eq_nil_iff]
  exact fun c _ => hf c

theorem ScanTable.items_targetKeys (t : ScanTable) (space : SpaceId) (derived : List (Int × DerivedTarget)) :
    (t.items space derived fun _ => true).filterMap ScanItem.targetKey =
      ((targetsOf t.label derived).map targetKey).map fun key => (t.label, key) := by
  unfold items
  rw [List.filterMap_append, List.filterMap_map, List.filterMap_map, List.filter_true, List.filter_true]
  have htargets : (ScanItem.targetKey ∘ t.targetItem space) = fun p => some (t.label, targetKey p) := rfl
  have horphans : (ScanItem.targetKey ∘ t.orphanItem) = fun _ => none := rfl
  rw [htargets, horphans, List.filterMap_none, List.append_nil, List.map_map, ← List.filterMap_eq_map]
  rfl

theorem ScanTable.items_orphanKeys (t : ScanTable) (space : SpaceId) (derived : List (Int × DerivedTarget)) :
    (t.items space derived fun _ => true).filterMap ScanItem.orphanKey =
      (t.orphanKeys derived).map fun key => (t.label, key) := by
  unfold items
  rw [List.filterMap_append, List.filterMap_map, List.filterMap_map, List.filter_true, List.filter_true]
  have htargets : (ScanItem.orphanKey ∘ t.targetItem space) = fun _ => none := rfl
  have horphans : (ScanItem.orphanKey ∘ t.orphanItem) = fun key => some (t.label, key) := rfl
  rw [htargets, horphans, List.filterMap_none, List.nil_append, ← List.filterMap_eq_map]
  rfl

theorem ScanTable.target_mem_items {t : ScanTable} {space : SpaceId} {derived : List (Int × DerivedTarget)}
    {table : TableLabel} {id : Int} {kind : String} {state : TargetState} {version : SourceVersion}
    {entry : Option IndexEntry} :
    .target table id kind state version entry ∈ t.items space derived (fun _ => true) ↔
      t.label = table ∧ (id, ⟨table, kind, version⟩) ∈ derived ∧ entry = t.entry (id, kind) ∧
        state = classify space version entry (t.chunks (id, kind)) := by
  unfold items
  rw [List.mem_append, List.filter_true, List.filter_true, List.mem_map, List.mem_map]
  constructor
  · rintro (⟨⟨i, d⟩, hp, heq⟩ | ⟨key, -, heq⟩)
    · obtain ⟨hp, hlabel⟩ := List.mem_filter.1 hp
      obtain ⟨dt, dk, dv⟩ := d
      simp only [targetItem, targetKey, ScanItem.target.injEq] at heq
      obtain ⟨rfl, rfl, rfl, rfl, rfl, rfl⟩ := heq
      have hlabel : dt = t.label := of_decide_eq_true hlabel
      exact ⟨rfl, hlabel ▸ hp, rfl, rfl⟩
    · cases heq
  · rintro ⟨rfl, hp, rfl, rfl⟩
    exact .inl ⟨_, List.mem_filter.2 ⟨hp, decide_eq_true rfl⟩, rfl⟩

theorem ScanTable.orphan_mem_items {t : ScanTable} {space : SpaceId} {derived : List (Int × DerivedTarget)}
    {table : TableLabel} {id : Int} {kind : String} {hasRows hasEntry : Bool} :
    .orphan table id kind hasRows hasEntry ∈ t.items space derived (fun _ => true) ↔
      t.label = table ∧ hasRows = !(t.chunks (id, kind)).isEmpty ∧ hasEntry = (t.entry (id, kind)).isSome ∧
        (hasRows = true ∨ hasEntry = true) ∧ ∀ version, (id, ⟨table, kind, version⟩) ∉ derived := by
  have hkey : (id, kind) ∈ t.orphanKeys derived ↔ (id, kind) ∈ t.keys ∧
      ∀ version, (id, ⟨t.label, kind, version⟩) ∉ derived := by
    unfold orphanKeys targetsOf
    rw [List.mem_filter, decide_eq_true_eq, List.mem_map, not_exists]
    refine and_congr_right fun _ => ⟨fun h version hd => ?_, fun h p hp => ?_⟩
    · exact h _ ⟨List.mem_filter.2 ⟨hd, decide_eq_true rfl⟩, rfl⟩
    · obtain ⟨hp, heq⟩ := hp
      obtain ⟨hp, hlabel⟩ := List.mem_filter.1 hp
      obtain ⟨i, dt, dk, dv⟩ := p
      simp only [targetKey, Prod.mk.injEq] at heq
      obtain ⟨rfl, rfl⟩ := heq
      have hlabel : dt = t.label := of_decide_eq_true hlabel
      exact h dv (hlabel ▸ hp)
  unfold items
  rw [List.mem_append, List.filter_true, List.filter_true, List.mem_map, List.mem_map]
  constructor
  · rintro (⟨p, -, heq⟩ | ⟨key, hk, heq⟩)
    · exact nomatch heq
    · simp only [orphanItem, ScanItem.orphan.injEq] at heq
      obtain ⟨rfl, rfl, rfl, rfl, rfl⟩ := heq
      obtain ⟨hk, hnot⟩ := hkey.1 hk
      exact ⟨rfl, rfl, rfl, by simpa using mem_keys.1 hk, hnot⟩
  · rintro ⟨rfl, rfl, rfl, hsome, hnot⟩
    exact .inr ⟨(id, kind), hkey.2 ⟨mem_keys.2 (by simpa using hsome), hnot⟩, rfl⟩

theorem not_mem_captions {item : ScanItem} {p : Prop} [Decidable p] {captions : List (Int × Int)}
    (h : ∀ c, captionItem c ≠ item) : item ∉ if p then captions.map captionItem else [] := by
  split
  · rw [List.mem_map]
    rintro ⟨c, -, heq⟩
    exact h c heq
  · exact List.not_mem_nil

/-- What a scan has to give covers the targets and the orphans exactly. -/
theorem Rdb.scanItems_exact {tables : List ScanTable} (hlabels : (tables.map ScanTable.label).Nodup) :
    Exact rdb config tables (rdb.scanItems config tables) where
  targetsOnce := by
    unfold scanItems
    rw [List.filterMap_append, List.filterMap_flatMap]
    have hcaptions : (if ∃ t ∈ tables, t.label ≠ .thread then (rdb.captions config).map captionItem
        else []).filterMap ScanItem.targetKey = [] := by
      split
      · exact filterMap_captions _ (fun _ => rfl) _
      · rfl
    rw [hcaptions, List.nil_append]
    simp only [ScanTable.items_targetKeys]
    exact nodup_flatMap_labels hlabels _ fun t => rdb.targetsOf_keys config t.label
  targets table id kind state version entry := by
    unfold scanItems
    rw [List.mem_append, or_iff_right (not_mem_captions fun c => by simp [captionItem]), List.mem_flatMap]
    simp only [ScanTable.target_mem_items]
  orphansOnce := by
    unfold scanItems
    rw [List.filterMap_append, List.filterMap_flatMap]
    have hcaptions : (if ∃ t ∈ tables, t.label ≠ .thread then (rdb.captions config).map captionItem
        else []).filterMap ScanItem.orphanKey = [] := by
      split
      · exact filterMap_captions _ (fun _ => rfl) _
      · rfl
    rw [hcaptions, List.nil_append]
    simp only [ScanTable.items_orphanKeys]
    exact nodup_flatMap_labels hlabels _ fun t => t.keys_nodup.filter _
  orphans table id kind hasRows hasEntry := by
    unfold scanItems
    rw [List.mem_append, or_iff_right (not_mem_captions fun c => by simp [captionItem]), List.mem_flatMap]
    simp only [ScanTable.orphan_mem_items]

/-! ## The counts -/

/-- The targets counted in a state. -/
def StateCounts.inState (c : StateCounts) : TargetState → Nat
  | .complete => c.complete
  | .failed => c.failed
  | .stale => c.stale
  | .unverified => c.unverified
  | .missing => c.missing

/-- A target item of a kind. -/
def ScanItem.ofKind (kind : ReportKind) : ScanItem → Bool
  | .target table _ vectorKind _ _ _ => ReportKind.of table vectorKind = kind
  | _ => false

/-- A target item of a kind in a state. -/
def ScanItem.inState (kind : ReportKind) (state : TargetState) : ScanItem → Bool
  | .target table _ vectorKind s _ _ => ReportKind.of table vectorKind = kind && s = state
  | _ => false

theorem StateCounts.bump_required (c : StateCounts) (state : TargetState) (entry : Option IndexEntry) :
    (c.bump state entry).required = c.required + 1 := by
  unfold bump
  cases state with
  | failed => dsimp only; split <;> try split
              all_goals rfl
  | _ => rfl

theorem StateCounts.bump_inState (c : StateCounts) (state state' : TargetState) (entry : Option IndexEntry) :
    (c.bump state entry).inState state' = c.inState state' + if state = state' then 1 else 0 := by
  unfold bump
  cases state with
  | failed =>
    dsimp only
    split
    · split <;> cases state' <;> simp [inState, StateCounts.failed] <;> omega
    · cases state' <;> simp [inState, StateCounts.failed]
      omega
  | _ => cases state' <;> simp [inState, StateCounts.failed]

theorem Counts.addItems_required (kind : ReportKind) : ∀ (items : List ScanItem) (c : Counts),
    ((items.foldl Counts.addItem c).byKind kind).required = (c.byKind kind).required + items.countP (ScanItem.ofKind kind)
  | [], _ => rfl
  | item :: items, c => by
    rw [List.foldl_cons, addItems_required kind items, List.countP_cons]
    cases item with
    | target table id vectorKind state version entry =>
      by_cases hk : ReportKind.of table vectorKind = kind
      · subst hk
        simp only [addItem, Function.update_self, StateCounts.bump_required, ScanItem.ofKind, decide_true, if_true]
        omega
      · simp [addItem, Function.update_of_ne (Ne.symm hk), ScanItem.ofKind, hk]
    | captionMissing => rfl
    | orphan => rfl

theorem Counts.addItems_inState (kind : ReportKind) (state : TargetState) : ∀ (items : List ScanItem) (c : Counts),
    ((items.foldl Counts.addItem c).byKind kind).inState state =
      (c.byKind kind).inState state + items.countP (ScanItem.inState kind state)
  | [], _ => rfl
  | item :: items, c => by
    rw [List.foldl_cons, addItems_inState kind state items, List.countP_cons]
    cases item with
    | target table id vectorKind s version entry =>
      by_cases hk : ReportKind.of table vectorKind = kind
      · subst hk
        simp only [addItem, Function.update_self, StateCounts.bump_inState, ScanItem.inState, decide_true,
          Bool.true_and, decide_eq_true_eq]
        omega
      · simp [addItem, Function.update_of_ne (Ne.symm hk), ScanItem.inState, hk]
    | captionMissing => rfl
    | orphan => rfl

/-- Every target item is in exactly one state. -/
theorem countP_states (kind : ReportKind) : ∀ items : List ScanItem,
    items.countP (ScanItem.ofKind kind) = items.countP (ScanItem.inState kind .complete) +
      items.countP (ScanItem.inState kind .missing) + items.countP (ScanItem.inState kind .stale) +
      items.countP (ScanItem.inState kind .unverified) + items.countP (ScanItem.inState kind .failed)
  | [] => rfl
  | item :: items => by
    have ih := countP_states kind items
    simp only [List.countP_cons]
    cases item with
    | target table id vectorKind s version entry =>
      by_cases hk : ReportKind.of table vectorKind = kind <;> cases s <;>
        simp [ScanItem.ofKind, ScanItem.inState, hk] <;> omega
    | captionMissing => simpa [ScanItem.ofKind, ScanItem.inState] using ih
    | orphan => simpa [ScanItem.ofKind, ScanItem.inState] using ih

theorem StateCounts.bump_comm (c : StateCounts) (state state' : TargetState) (entry entry' : Option IndexEntry) :
    (c.bump state entry).bump state' entry' = (c.bump state' entry').bump state entry := by
  unfold bump
  cases state <;> cases state' <;> dsimp only <;> (repeat' split) <;> rfl

theorem Counts.addItem_comm (c : Counts) (item item' : ScanItem) :
    (c.addItem item).addItem item' = (c.addItem item').addItem item := by
  cases item with
  | target table id vectorKind state version entry =>
    cases item' with
    | target table' id' vectorKind' state' version' entry' =>
      by_cases hk : ReportKind.of table vectorKind = ReportKind.of table' vectorKind'
      · simp [addItem, hk, StateCounts.bump_comm _ state state']
      · simp [addItem, Function.update_of_ne hk, Function.update_of_ne (Ne.symm hk), Function.update_comm hk]
    | captionMissing => rfl
    | orphan => rfl
  | captionMissing => cases item' <;> rfl
  | orphan => cases item' <;> rfl

theorem Counts.addItem_orphan (c : Counts) (item : ScanItem) (n : Nat) :
    ({ c with orphan := n } : Counts).addItem item = { c.addItem item with orphan := n } := by
  cases item <;> rfl

theorem Counts.addItems_orphan : ∀ (items : List ScanItem) (c : Counts) (n : Nat),
    items.foldl Counts.addItem { c with orphan := n } = { items.foldl Counts.addItem c with orphan := n }
  | [], _, _ => rfl
  | item :: items, c, n => by
    rw [List.foldl_cons, List.foldl_cons, addItem_orphan, addItems_orphan items]

theorem Counts.addItems_orphan_eq : ∀ (items : List ScanItem) (c : Counts),
    (items.foldl Counts.addItem c).orphan = c.orphan
  | [], _ => rfl
  | item :: items, c => by
    rw [List.foldl_cons, addItems_orphan_eq items]
    cases item <;> rfl

/-- The counts of the pages are those of their items, when no orphan is repeated. -/
theorem Counts.addPages_eq : ∀ (pages : List (List ScanItem)) (c : Counts),
    (pages.flatten.filterMap ScanItem.orphanKey).Nodup →
    pages.foldl Counts.addPage c = { pages.flatten.foldl Counts.addItem c with
      orphan := c.orphan + (pages.flatten.filterMap ScanItem.orphanKey).length }
  | [], _, _ => rfl
  | page :: pages, c, hn => by
    rw [List.flatten_cons, List.filterMap_append] at hn
    have hpage := (List.nodup_append.1 hn).1
    have hpages := (List.nodup_append.1 hn).2.1
    rw [List.foldl_cons, addPages_eq pages _ hpages, List.flatten_cons, List.foldl_append, List.filterMap_append,
      List.length_append]
    unfold addPage
    dsimp only
    rw [addItems_orphan, addItems_orphan_eq, hpage.dedup, Nat.add_assoc]

theorem Counts.ofPages_eq {pages : List (List ScanItem)}
    (hn : (pages.flatten.filterMap ScanItem.orphanKey).Nodup) :
    Counts.ofPages pages = { pages.flatten.foldl Counts.addItem .zero with
      orphan := (pages.flatten.filterMap ScanItem.orphanKey).length } := by
  unfold ofPages
  rw [addPages_eq pages _ hn]
  simp [zero]

theorem Counts.ofPages_perm {pages pages' : List (List ScanItem)}
    (hn : (pages.flatten.filterMap ScanItem.orphanKey).Nodup) (hp : pages.flatten.Perm pages'.flatten) :
    Counts.ofPages pages = Counts.ofPages pages' := by
  rw [ofPages_eq hn, ofPages_eq ((hp.filterMap _).nodup_iff.1 hn),
    hp.foldl_eq' (fun x _ y _ c => addItem_comm c x y), (hp.filterMap _).length_eq]

/-! ## The scan -/

/-- **A scan is exact, whatever the sizes of its pages.** With ids between 1 and `i64::MAX - 1` and pages of at least
one entity each, the walk ends, its pages hold one item per derived target and one orphan per key without a target,
the counts split the targets by state, and neither items nor counts depend on the page sizes. -/
theorem Scanner.scan_exact (rdb : Rdb) (config : ScanConfig) (tables : List ScanTable) (hids : IdsBounded rdb tables)
    (hlabels : (tables.map ScanTable.label).Nodup) :
    (∀ sizes : List Int, (∀ n ∈ sizes, 1 ≤ n) → rdb.memories.length + rdb.threads.length + 2 ≤ sizes.length →
      ((Scanner.new config tables).walk rdb sizes).2.source = none) ∧
    ∀ sizes : List Int, (∀ n ∈ sizes, 1 ≤ n) → ((Scanner.new config tables).walk rdb sizes).2.source = none →
      Exact rdb config tables ((Scanner.new config tables).walk rdb sizes).1.flatten ∧
      (∀ kind, let c := (Counts.ofPages ((Scanner.new config tables).walk rdb sizes).1).byKind kind
        c.required = ((Scanner.new config tables).walk rdb sizes).1.flatten.countP (ScanItem.ofKind kind) ∧
        (∀ state, c.inState state =
          ((Scanner.new config tables).walk rdb sizes).1.flatten.countP (ScanItem.inState kind state)) ∧
        c.required = c.complete + c.missing + c.stale + c.unverified + c.failed) ∧
      (Counts.ofPages ((Scanner.new config tables).walk rdb sizes).1).orphan =
        (((Scanner.new config tables).walk rdb sizes).1.flatten.filterMap ScanItem.orphanKey).length ∧
      ∀ sizes' : List Int, (∀ n ∈ sizes', 1 ≤ n) → ((Scanner.new config tables).walk rdb sizes').2.source = none →
        ((Scanner.new config tables).walk rdb sizes).1.flatten.Perm
          ((Scanner.new config tables).walk rdb sizes').1.flatten ∧
        Counts.ofPages ((Scanner.new config tables).walk rdb sizes).1 =
          Counts.ofPages ((Scanner.new config tables).walk rdb sizes').1 := by
  have hready : (Scanner.new config tables).Ready rdb := Scanner.new_ready hids
  have hall : ∀ sizes : List Int, (∀ n ∈ sizes, 1 ≤ n) → ((Scanner.new config tables).walk rdb sizes).2.source = none →
      (((Scanner.new config tables).walk rdb sizes).1.flatten).Perm (rdb.scanItems config tables) := by
    intro sizes hsizes hend
    have hwalk := (walk_spec sizes _ hsizes hready).1
    have hrest : ((Scanner.new config tables).walk rdb sizes).2.rest rdb = [] := by
      unfold rest
      rw [hend]
    rw [hrest, List.append_nil] at hwalk
    exact hwalk.trans (Scanner.new_rest hids hlabels)
  refine ⟨fun sizes hsizes hlen => (walk_spec sizes _ hsizes hready).2 (le_trans ?_ hlen), fun sizes hsizes hend => ?_⟩
  · have hmemories := List.length_filter_le (fun r : MemoryScanRow => decide ((0 : Int) < r.id)) rdb.memories
    have hthreads := List.length_filter_le (fun r : ThreadScanRow => decide ((0 : Int) < r.id)) rdb.threads
    have hcursor : (Scanner.new config tables).cursor = 0 := rfl
    unfold left
    split
    · omega
    · rw [hcursor]
      omega
    · rw [hcursor]
      omega
  · have hexact := (Rdb.scanItems_exact hlabels).perm (hall sizes hsizes hend).symm
    have hcounts := Counts.ofPages_eq hexact.orphansOnce
    refine ⟨hexact, fun kind => ?_, ?_, fun sizes' hsizes' hend' => ?_⟩
    · have hrequired := Counts.addItems_required kind ((Scanner.new config tables).walk rdb sizes).1.flatten .zero
      have hstate := fun state =>
        Counts.addItems_inState kind state ((Scanner.new config tables).walk rdb sizes).1.flatten .zero
      have hsplit := countP_states kind ((Scanner.new config tables).walk rdb sizes).1.flatten
      rw [hcounts]
      dsimp only
      have hzero : (Counts.zero.byKind kind).required = 0 := rfl
      have hzeros : ∀ state, (Counts.zero.byKind kind).inState state = 0 := fun state => by cases state <;> rfl
      simp only [hzero, hzeros, Nat.zero_add] at hrequired hstate
      refine ⟨hrequired, hstate, ?_⟩
      rw [hrequired, hsplit, ← hstate, ← hstate, ← hstate, ← hstate, ← hstate]
      rfl
    · rw [hcounts]
    · have hperm := (hall sizes hsizes hend).trans (hall sizes' hsizes' hend').symm
      exact ⟨hperm, Counts.ofPages_perm hexact.orphansOnce hperm⟩

end

/-! ## A small store -/

/-- A table that answers a range in the order of its rows. -/
def VectorTable.ofRows (rows : List VectorRow) : VectorTable :=
  ⟨rows, fun lo hi => rows.filter fun r => lo ≤ r.entityId ∧ r.entityId ≤ hi, fun _ _ => List.Perm.refl _⟩

/-- An index that answers a range in the order of its entries. -/
def EmbeddingIndex.ofEntries (entries : List IndexEntry) (unique : (entries.map fun e => (e.table, e.key)).Nodup) :
    EmbeddingIndex :=
  ⟨entries, unique, fun label lo hi => entries.filter fun e => e.table = label ∧ lo ≤ e.entityId ∧ e.entityId ≤ hi,
    fun _ _ _ => List.Perm.refl _⟩

def sampleMetadata : MetadataJson := ⟨fun _ => none⟩

/-- Two memories, a thread, no media. -/
def sampleRdb : Rdb :=
  ⟨[⟨3, "a", 0, 1, none, none⟩, ⟨1, "b", 0, 2, none, none⟩], [⟨2, some "c"⟩], [], by decide, by decide, by decide⟩

/-- Rows of one memory and of one that is gone, an entry of another that is gone, and a thread table without rows. -/
def sampleTables : List ScanTable :=
  [⟨.memory, some (.ofRows [⟨9, "text", 0⟩, ⟨1, "text", 0⟩]),
    some (.ofEntries [⟨.memory, 7, "text", "s", "v", "g", .success 1, none, 0⟩] (by decide))⟩,
    ⟨.thread, none, none⟩]

/-- Pages of one entity and pages of two give the same items. -/
theorem small_pages_same_items :
    (@Scanner.walk sampleMetadata sampleRdb [1, 1, 1, 1, 1]
      (Scanner.new ⟨"s", .none, 100, 1⟩ sampleTables)).1.flatten.Perm
      (@Scanner.walk sampleMetadata sampleRdb [2, 2, 2, 2, 2]
        (Scanner.new ⟨"s", .none, 100, 1⟩ sampleTables)).1.flatten := by
  have h := @Scanner.scan_exact sampleMetadata sampleRdb ⟨"s", .none, 100, 1⟩ sampleTables
    ⟨by decide, by decide, by decide⟩ (by decide)
  have h₁ := h.1 [1, 1, 1, 1, 1] (by decide) (by decide)
  have h₂ := h.1 [2, 2, 2, 2, 2] (by decide) (by decide)
  exact ((h.2 _ (by decide) h₁).2.2.2 _ (by decide) h₂).1

end MemoryStore.EmbeddingIndex
