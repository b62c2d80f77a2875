/-
The scan that classifies every embedding target and finds orphans, one page of
entities at a time (`infra/src/infra/embedding_index/scan.rs`, `classify.rs`,
`counts.rs`, and the reading side of `table.rs`).

A vector table and an index answer a range query with their rows of that range,
in an order of their own. Failing reads are left out.
-/
import MemoryStore.EmbeddingIndex.Target
import MemoryStore.Lib.KeyMap
import MemoryStore.Lib.PageWalk

namespace MemoryStore.EmbeddingIndex

open EmbeddingSpace

/-- `i64::MAX` -/
def i64Max : Int := 2 ^ 63 - 1

/-! ## Index entries and the state of a target -/

inductive EntryOutcome where
  | success (chunkCount : Nat)
  | failure (reason failureClass : String)
  deriving DecidableEq, Repr

structure IndexEntry where
  table : TableLabel
  entityId : Int
  vectorKind : String
  spaceId : SpaceId
  sourceVersion : SourceVersion
  generationId : String
  outcome : EntryOutcome
  mediaDigest : Option String
  recordedAt : Int
  deriving DecidableEq, Repr

inductive TargetState where
  | complete | failed | stale | unverified | missing
  deriving DecidableEq, Repr

/-- The chunk indexes are exactly `0..count`, with no duplicates. -/
def chunksExactly (chunkIndexes : List Int) (count : Nat) : Bool :=
  if chunkIndexes.length ≠ count || count = 0 then false
  else (chunkIndexes.mergeSort (· ≤ ·)).zipIdx.all fun (c, i) => c = (i : Int)

/-- Classify a target from its index entry and the chunk indexes of its vector rows. -/
def classify (currentSpace : SpaceId) (currentVersion : SourceVersion) (entry : Option IndexEntry)
    (chunkIndexes : List Int) : TargetState :=
  match entry with
  | none => if chunkIndexes.isEmpty then .missing else .unverified
  | some entry =>
    let current := entry.spaceId = currentSpace && entry.sourceVersion = currentVersion
    match entry.outcome with
    | .success chunkCount => if current && chunksExactly chunkIndexes chunkCount then .complete else .stale
    | .failure _ _ => if current && chunkIndexes.isEmpty then .failed else .stale

/-- The state does not depend on the order in which the rows were read. -/
theorem classify_perm {chunks chunks' : List Int} (h : chunks.Perm chunks') (currentSpace : SpaceId)
    (currentVersion : SourceVersion) (entry : Option IndexEntry) :
    classify currentSpace currentVersion entry chunks = classify currentSpace currentVersion entry chunks' := by
  have hempty : chunks.isEmpty = chunks'.isEmpty := by
    rw [Bool.eq_iff_iff, List.isEmpty_iff, List.isEmpty_iff]
    exact ⟨fun h' => (h' ▸ h).symm.eq_nil, fun h' => (h' ▸ h).eq_nil⟩
  have hsort : chunks.mergeSort (· ≤ ·) = chunks'.mergeSort (· ≤ ·) := by
    refine List.Perm.eq_of_pairwise (fun a b _ _ hab hba => Int.le_antisymm hab hba)
      (Keyset.sorted_after id chunks) (Keyset.sorted_after id chunks') ?_
    exact (List.mergeSort_perm _ _).trans (h.trans (List.mergeSort_perm _ _).symm)
  have hexact : ∀ count, chunksExactly chunks count = chunksExactly chunks' count := by
    intro count
    unfold chunksExactly
    rw [h.length_eq, hsort]
  unfold classify
  simp only [hempty, hexact]

/-! ## The tables of a scan -/

/-- An entity and a kind, the key of a target within its table. -/
abbrev TargetKey := Int × String

structure VectorRow where
  entityId : Int
  vectorKind : String
  chunkIndex : Int
  deriving DecidableEq, Repr

def VectorRow.key (row : VectorRow) : TargetKey := (row.entityId, row.vectorKind)

/-- A vector table, as far as a scan reads it. -/
structure VectorTable where
  rows : List VectorRow
  /-- The answer to `id >= lo AND id <= hi`. -/
  rowsInRange : Int → Int → List VectorRow
  rowsInRange_perm : ∀ lo hi, (rowsInRange lo hi).Perm (rows.filter fun r => lo ≤ r.entityId ∧ r.entityId ≤ hi)

def IndexEntry.key (entry : IndexEntry) : TargetKey := (entry.entityId, entry.vectorKind)

/-- The index of a directory; `put` keeps at most one entry per target. -/
structure EmbeddingIndex where
  entries : List IndexEntry
  unique : (entries.map fun e => (e.table, e.key)).Nodup
  /-- The answer to `table_label = label AND entity_id >= lo AND entity_id <= hi`. -/
  entriesInRange : TableLabel → Int → Int → List IndexEntry
  entriesInRange_perm : ∀ label lo hi,
    (entriesInRange label lo hi).Perm (entries.filter fun e => e.table = label ∧ lo ≤ e.entityId ∧ e.entityId ≤ hi)

/-- A vector table taking part in a scan, with the index of its directory. -/
structure ScanTable where
  label : TableLabel
  table : Option VectorTable
  index : Option EmbeddingIndex

structure ScanConfig where
  space : SpaceId
  imageSearchMode : ImageSearchMode
  maxContentLen : Nat
  pageSize : Int

inductive ScanItem where
  | target (table : TableLabel) (entityId : Int) (vectorKind : String) (state : TargetState)
      (version : SourceVersion) (entry : Option IndexEntry)
  /-- An image memory with an empty body in a caption mode: its caption has to be generated. -/
  | captionMissing (entityId mediaObjectId : Int)
  /-- Vector rows or an index entry of something that is not an embedding target. -/
  | orphan (table : TableLabel) (entityId : Int) (vectorKind : String) (hasRows hasEntry : Bool)
  deriving DecidableEq, Repr

/-! ## One range of one table -/

/-- The loop over `wanted`: the items, and the rows and entries no target took. -/
def classifyTargets (label : TableLabel) (space : SpaceId) :
    List (Int × DerivedTarget) → KeyMap TargetKey (List Int) → KeyMap TargetKey IndexEntry →
      List ScanItem × KeyMap TargetKey (List Int) × KeyMap TargetKey IndexEntry
  | [], rows, entries => ([], rows, entries)
  | (id, target) :: wanted, rows, entries =>
    let key := (id, target.vectorKind)
    let chunks := (rows.lookup key).getD []
    let entry := entries.lookup key
    let rest := classifyTargets label space wanted (rows.erase key) (entries.erase key)
    (.target label id target.vectorKind (classify space target.version entry chunks) target.version entry :: rest.1,
      rest.2)

/-- The order of a `BTreeSet` of keys. -/
def keyLe (a b : TargetKey) : Bool := a.1 < b.1 || (a.1 = b.1 && a.2 ≤ b.2)

/-- The chunk indexes by key of the vector rows in `lo..=hi`. -/
def vectorRows (table : VectorTable) (lo hi : Int) : KeyMap TargetKey (List Int) :=
  KeyMap.group VectorRow.key VectorRow.chunkIndex (table.rowsInRange lo hi)

def classifyRange (t : ScanTable) (lo hi : Int) (space : SpaceId) (wanted : List (Int × DerivedTarget)) :
    List ScanItem :=
  let rows := match t.table with
    | some table => vectorRows table lo hi
    | none => ∅
  let found := match t.index with
    | some index => index.entriesInRange t.label lo hi
    | none => []
  let entries := KeyMap.collect IndexEntry.key found
  let (out, rows, entries) := classifyTargets t.label space wanted rows entries
  let orphanKeys := (rows.keys ++ entries.keys).dedup.mergeSort keyLe
  out ++ orphanKeys.map fun key =>
    .orphan t.label key.1 key.2 (rows.lookup key).isSome (entries.lookup key).isSome

/-! ## The database rows of a scan -/

structure MemoryScanRow where
  id : Int
  content : String
  contentType : Int
  role : Int
  metadata : Option String
  mediaObjectId : Option Int
  deriving DecidableEq, Repr

structure ThreadScanRow where
  id : Int
  description : Option String
  deriving DecidableEq, Repr

structure MediaObjectRow where
  id : Int
  kind : Int
  storageBackend : String
  sha256 : Option String
  storageUri : Option String
  deriving DecidableEq, Repr

/-- The tables a scan reads, with their primary keys. -/
structure Rdb where
  memories : List MemoryScanRow
  threads : List ThreadScanRow
  mediaObjects : List MediaObjectRow
  memories_key : (memories.map MemoryScanRow.id).Nodup
  threads_key : (threads.map ThreadScanRow.id).Nodup
  mediaObjects_key : (mediaObjects.map MediaObjectRow.id).Nodup

/-- `MEMORY_PAGE_SQL`, for a page size of at least one. -/
def Rdb.fetchMemoryPage (rdb : Rdb) (after limit : Int) : List MemoryScanRow :=
  Keyset.page MemoryScanRow.id rdb.memories after limit.toNat

/-- `THREAD_PAGE_SQL`, for a page size of at least one. -/
def Rdb.fetchThreadPage (rdb : Rdb) (after limit : Int) : List ThreadScanRow :=
  Keyset.page ThreadScanRow.id rdb.threads after limit.toNat

def Rdb.findByIds (rdb : Rdb) (ids : List Int) : List MediaObjectRow :=
  rdb.mediaObjects.filter fun m => m.id ∈ ids

def MediaObjectRow.linked (m : MediaObjectRow) : LinkedMedia :=
  ⟨m.id, m.kind, m.storageBackend, m.sha256, m.storageUri⟩

/-- The media a row links to, among the media read. -/
def MemoryScanRow.linkedIn (media : List MediaObjectRow) (r : MemoryScanRow) : Option LinkedMedia :=
  (r.mediaObjectId.bind fun id => media.find? fun m => m.id = id).map MediaObjectRow.linked

section Scanner

variable [MetadataJson]

/-- The targets of one memory row. -/
def MemoryScanRow.targets (config : ScanConfig) (media : List MediaObjectRow) (r : MemoryScanRow) :
    List (Int × DerivedTarget) :=
  (memoryTargets r.content r.role r.contentType r.metadata (r.linkedIn media) config.imageSearchMode
    config.maxContentLen).map fun d => (r.id, d)

/-- The caption a memory row waits for. -/
def MemoryScanRow.caption (config : ScanConfig) (media : List MediaObjectRow) (r : MemoryScanRow) : Option (Int × Int) :=
  let captionMode := config.imageSearchMode = .vlmCaption || config.imageSearchMode = .both
  match r.linkedIn media with
  | some m =>
    if captionMode && Whitespace.trim r.content = "" &&
        (dispatchKinds r.content r.role r.contentType (some m.kind) (some m.storageBackend)
          config.imageSearchMode).contains .media then some (r.id, m.id)
    else none
  | none => none

/-- The target of one thread row. -/
def ThreadScanRow.target (config : ScanConfig) (r : ThreadScanRow) : Option (Int × DerivedTarget) :=
  (threadTarget (r.description.getD "") config.maxContentLen).map fun d => (r.id, d)

/-! ## The scanner -/

/-- Which entities feed a scan. -/
inductive Source where
  | memories | threads
  deriving DecidableEq, Repr

structure Scanner where
  config : ScanConfig
  memoryTables : List ScanTable
  threadTable : Option ScanTable
  source : Option Source
  cursor : Int

def Scanner.new (config : ScanConfig) (tables : List ScanTable) : Scanner :=
  let thread := tables.filter fun t => t.label = .thread
  let memory := tables.filter fun t => t.label ≠ .thread
  let source := if !memory.isEmpty then some Source.memories
    else if !thread.isEmpty then some .threads
    else none
  ⟨config, memory, thread.head?, source, 0⟩

/-- The ids, the targets and the missing captions of a page of memories. -/
def Scanner.memoryPage (rdb : Rdb) (s : Scanner) : List Int × List (Int × DerivedTarget) × List (Int × Int) :=
  let rows := rdb.fetchMemoryPage s.cursor s.config.pageSize
  let mediaIds := rows.filterMap MemoryScanRow.mediaObjectId
  let media := if mediaIds.isEmpty then [] else rdb.findByIds mediaIds
  (rows.map MemoryScanRow.id, rows.flatMap (MemoryScanRow.targets s.config media),
    rows.filterMap (MemoryScanRow.caption s.config media))

def Scanner.threadPage (rdb : Rdb) (s : Scanner) : List Int × List (Int × DerivedTarget) :=
  let rows := rdb.fetchThreadPage s.cursor s.config.pageSize
  (rows.map ThreadScanRow.id, rows.filterMap (ThreadScanRow.target s.config))

/-- Classified targets and orphans of the next id range, and the scanner after it. -/
def Scanner.nextPage (rdb : Rdb) (s : Scanner) : Option (List ScanItem) × Scanner :=
  match s.source with
  | none => (none, s)
  | some source =>
    let (ids, targets, captions) := match source with
      | .memories => s.memoryPage rdb
      | .threads => ((s.threadPage rdb).1, (s.threadPage rdb).2, [])
    let lo := min (s.cursor + 1) i64Max
    let last : Bool := (ids.length : Int) < s.config.pageSize
    -- a full page is not empty
    let hi := if last then i64Max else ids.getLastD i64Max
    let tables := match source with
      | .memories => s.memoryTables
      | .threads => s.threadTable.toList
    let items := captions.map (fun c => ScanItem.captionMissing c.1 c.2) ++
      tables.flatMap fun t => classifyRange t lo hi s.config.space (targets.filter fun p => p.2.table = t.label)
    if last then
      if source = .memories ∧ s.threadTable.isSome then (some items, { s with source := some .threads, cursor := 0 })
      else (some items, { s with source := none, cursor := hi })
    else (some items, { s with cursor := hi })

/-- The scanner with another page size. -/
def Scanner.sized (s : Scanner) (pageSize : Int) : Scanner := { s with config := { s.config with pageSize } }

/-- A walk, with the page size of each page: the pages until `next_page` returns `None`, and the scanner then. -/
def Scanner.walk (rdb : Rdb) : List Int → Scanner → List (List ScanItem) × Scanner
  | [], s => ([], s)
  | pageSize :: sizes, s =>
    match (s.sized pageSize).nextPage rdb with
    | (some items, s') => (items :: (Scanner.walk rdb sizes s').1, (Scanner.walk rdb sizes s').2)
    | (none, s') => ([], s')

end Scanner

/-! ## The counts of a scan -/

/-- The kinds that counts are broken down by. -/
inductive ReportKind where
  | memoryText | memoryMedia | thread | reflectionIntent
  deriving DecidableEq, Repr

def ReportKind.of : TableLabel → String → ReportKind
  | .memory, vectorKind => if vectorKind = "image" then .memoryMedia else .memoryText
  | .thread, _ => .thread
  | .reflectionIntent, _ => .reflectionIntent

structure StateCounts where
  required : Nat
  complete : Nat
  missing : Nat
  stale : Nat
  unverified : Nat
  failedTransient : Nat
  failedPermanent : Nat
  deriving DecidableEq, Repr

def StateCounts.zero : StateCounts := ⟨0, 0, 0, 0, 0, 0, 0⟩

/-- `failed` -/
def StateCounts.failed (c : StateCounts) : Nat := c.failedTransient + c.failedPermanent

/-- A target counted by its state. -/
def StateCounts.bump (c : StateCounts) (state : TargetState) (entry : Option IndexEntry) : StateCounts :=
  let c := { c with required := c.required + 1 }
  match state with
  | .complete => { c with complete := c.complete + 1 }
  | .missing => { c with missing := c.missing + 1 }
  | .stale => { c with stale := c.stale + 1 }
  | .unverified => { c with unverified := c.unverified + 1 }
  | .failed =>
    match entry.map IndexEntry.outcome with
    | some (.failure _ failureClass) =>
      if failureClass = "transient" then { c with failedTransient := c.failedTransient + 1 }
      else { c with failedPermanent := c.failedPermanent + 1 }
    | _ => { c with failedPermanent := c.failedPermanent + 1 }

structure Counts where
  byKind : ReportKind → StateCounts
  orphan : Nat
  captionMissing : Nat

def Counts.zero : Counts := ⟨fun _ => .zero, 0, 0⟩

/-- The count of one item; the orphans of a page are counted as a set. -/
def Counts.addItem (counts : Counts) : ScanItem → Counts
  | .target table _ vectorKind state _ entry =>
    let kind := ReportKind.of table vectorKind
    { counts with byKind := Function.update counts.byKind kind ((counts.byKind kind).bump state entry) }
  | .orphan .. => counts
  | .captionMissing .. => { counts with captionMissing := counts.captionMissing + 1 }

/-- The key of an orphan. -/
def ScanItem.orphanKey : ScanItem → Option (TableLabel × TargetKey)
  | .orphan table entityId vectorKind _ _ => some (table, entityId, vectorKind)
  | _ => none

def Counts.addPage (counts : Counts) (items : List ScanItem) : Counts :=
  let counts := items.foldl Counts.addItem counts
  { counts with orphan := counts.orphan + (items.filterMap ScanItem.orphanKey).dedup.length }

/-- `Counts::scan`, over the pages of a walk. -/
def Counts.ofPages (pages : List (List ScanItem)) : Counts := pages.foldl Counts.addPage .zero

end MemoryStore.EmbeddingIndex
