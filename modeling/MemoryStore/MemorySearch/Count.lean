/-
Counting the memories a search would match: `count_search_matches`
(`app/src/app/memory_vector.rs`) and the counts of the vector table under it
(`infra/src/infra/memory_vector/repository.rs`).

A memory owns any number of rows. LanceDB is the structure `VectorTable`: it
ranks the rows a query matches, returns the best of them up to the row limit of
the query, and cuts the answer into batches as it likes. The thread filter comes
resolved, and the caller's filter as a predicate on rows.
-/
import MemoryStore.MemorySearch.Fusion
import MemoryStore.Lib.Chunks

namespace MemoryStore.MemorySearch

/-- `u64::MAX` -/
def u64Max : Nat := 2 ^ 64 - 1

/-! ## The vector table -/

/-- A row of the vector table; `columns` is what a filter reads besides the memory. -/
structure IndexRow (Columns : Type) where
  memoryId : Int
  columns : Columns
  deriving DecidableEq, Repr

/-- `SafeFilter` -/
abbrev SafeFilter (Columns : Type) := IndexRow Columns → Bool

/-- `query.only_if(sql)` -/
def accepts {Columns : Type} (filter : Option (SafeFilter Columns)) (row : IndexRow Columns) : Bool :=
  filter.all fun f => f row

/-- What the table is asked; a vector is a list of components. -/
inductive TableQuery (Component : Type) where
  | nearestTo (vector : List Component)
  | fullTextSearch (text : String)
  deriving DecidableEq, Repr

structure VectorTable (Columns Component : Type) where
  rows : List (IndexRow Columns)
  rows_length : rows.length ≤ u64Max
  /-- The rows a query matches, best first. -/
  ranking : TableQuery Component → Option (SafeFilter Columns) → List (IndexRow Columns)
  ranking_matches : ∀ query filter, ∀ row ∈ ranking query filter, row ∈ rows ∧ accepts filter row
  /-- The batches in which a query's best rows come, up to its row limit. -/
  execute : TableQuery Component → Option (SafeFilter Columns) → Nat → List (List (IndexRow Columns))
  execute_flatten : ∀ query filter limit, (execute query filter limit).flatten = (ranking query filter).take limit
  vectorSize : Nat

/-! ## The repository's counts -/

/-- `accumulate_memory_ids_capped`; the flag is raised as soon as there are more than `cap` ids. -/
def accumulateMemoryIdsCapped (cap : Nat) : List Int → Finset Int → Finset Int × Bool
  | [], ids => (ids, false)
  | id :: column, ids =>
    let ids := insert id ids
    if cap < ids.card then (ids, true) else accumulateMemoryIdsCapped cap column ids

/-- `count_distinct_capped`, after `rowsSeen` rows. -/
def countDistinctCapped (hardCap fetchLimit : Nat) : List (List Int) → Nat → Finset Int → Nat × Bool
  | [], _, ids => (ids.card, false)
  | batch :: stream, rowsSeen, ids =>
    let rowsSeen := rowsSeen + batch.length
    if fetchLimit ≤ rowsSeen then (hardCap, true)
    else match accumulateMemoryIdsCapped hardCap batch ids with
      | (_, true) => (hardCap, true)
      | (ids, false) => countDistinctCapped hardCap fetchLimit stream rowsSeen ids

/-- The loop of `collect_vector_ids_capped` and `collect_fts_ids_capped`. -/
def collectIdsCapped (cap : Nat) : List (List Int) → Finset Int → Finset Int × Bool
  | [], ids => (ids, false)
  | batch :: stream, ids =>
    match accumulateMemoryIdsCapped cap batch ids with
    | (ids, true) => (ids, true)
    | (ids, false) => collectIdsCapped cap stream ids

inductive SearchError where
  | invalidArgument (message : String)
  | failedPrecondition (message : String)
  | other (message : String)
  deriving DecidableEq, Repr

variable {Columns Component : Type}

/-- `cap.saturating_add(1)` -/
def fetchLimitOf (cap : Nat) : Nat := min (cap + 1) u64Max

/-- The `memory_id` columns of a query's batches. -/
def VectorTable.memoryIds (table : VectorTable Columns Component) (query : TableQuery Component)
    (filter : Option (SafeFilter Columns)) (limit : Nat) : List (List Int) :=
  (table.execute query filter limit).map fun batch => batch.map IndexRow.memoryId

def VectorTable.checkVectorSize (table : VectorTable Columns Component) (queryVector : List Component) :
    Except SearchError Unit :=
  let size := table.vectorSize
  let got := queryVector.length
  if got = size then .ok () else .error (.other s!"Vector size mismatch: expected {size}, got {got}")

/-- `count_by_filter` -/
def VectorTable.countByFilter (table : VectorTable Columns Component) (filter : Option (SafeFilter Columns)) :
    Nat × Bool :=
  (table.rows.countP (accepts filter), false)

/-- `run_bm25_count_query` and `run_vector_count_query` -/
def VectorTable.runCountQuery (table : VectorTable Columns Component) (query : TableQuery Component)
    (filter : Option (SafeFilter Columns)) (hardCap : Nat) : Nat × Bool :=
  let fetchLimit := fetchLimitOf hardCap
  countDistinctCapped hardCap fetchLimit (table.memoryIds query filter fetchLimit) 0 ∅

/-- `count_by_text` -/
def VectorTable.countByText (table : VectorTable Columns Component) (queryText : String)
    (filter : Option (SafeFilter Columns)) (hardCap : Nat) : Nat × Bool :=
  table.runCountQuery (.fullTextSearch queryText) filter hardCap

/-- `count_by_vector` -/
def VectorTable.countByVector (table : VectorTable Columns Component) (queryVector : List Component)
    (filter : Option (SafeFilter Columns)) (hardCap : Nat) : Except SearchError (Nat × Bool) := do
  table.checkVectorSize queryVector
  .ok (table.runCountQuery (.nearestTo queryVector) filter hardCap)

/-- What `collect_vector_ids_capped` and `collect_fts_ids_capped` have in common. -/
def VectorTable.collectIds (table : VectorTable Columns Component) (query : TableQuery Component)
    (filter : Option (SafeFilter Columns)) (cap : Nat) : Finset Int × Bool :=
  collectIdsCapped cap (table.memoryIds query filter (fetchLimitOf cap)) ∅

/-- `collect_vector_ids_capped` -/
def VectorTable.collectVectorIdsCapped (table : VectorTable Columns Component) (queryVector : List Component)
    (filter : Option (SafeFilter Columns)) (cap : Nat) : Except SearchError (Finset Int × Bool) := do
  table.checkVectorSize queryVector
  .ok (table.collectIds (.nearestTo queryVector) filter cap)

/-- `collect_fts_ids_capped` -/
def VectorTable.collectFtsIdsCapped (table : VectorTable Columns Component) (queryText : String)
    (filter : Option (SafeFilter Columns)) (cap : Nat) : Finset Int × Bool :=
  table.collectIds (.fullTextSearch queryText) filter cap

/-- The union of the branches, and whether one of them was truncated. -/
def unionOf (branches : List (Finset Int × Bool)) : Finset Int × Bool :=
  branches.foldl (fun merged branch => (merged.1 ∪ branch.1, merged.2 || branch.2)) (∅, false)

/-- The count of a union of branches under a cap. -/
def mergedCount (hardCap : Nat) (union : Finset Int × Bool) : Nat × Bool :=
  let merged := union.1.card
  (min merged hardCap, union.2 || decide (hardCap < merged))

/-- `count_by_hybrid` -/
def VectorTable.countByHybrid (table : VectorTable Columns Component) (queryVector : List Component)
    (queryText : String) (filter : Option (SafeFilter Columns)) (options : HybridOptions)
    (vectorHardCap ftsHardCap : Nat) : Except SearchError (Nat × Bool) := do
  (options.validateVectorWeight).mapError SearchError.other
  match options.strategy with
  | .rrf | .weighted =>
    let vecRes ← table.collectVectorIdsCapped queryVector filter vectorHardCap
    let ftsRes := table.collectFtsIdsCapped queryText filter vectorHardCap
    .ok (mergedCount vectorHardCap (unionOf [vecRes, ftsRes]))
  | .vectorThenFts => table.countByVector queryVector filter vectorHardCap
  | .ftsThenVector => .ok (table.countByText queryText filter ftsHardCap)

/-! ## The counts of the application -/

inductive CountMode where
  | filterOnly | text | vector | hybrid
  deriving DecidableEq, Repr

/-- The memories a thread filter resolves to, each once. -/
structure ThreadMemoryIds where
  ids : List Int
  nodup : ids.Nodup

/-- A count request. `aggregation` is accepted and not read, so it is left out. -/
structure CountSearchInput (Columns Component : Type) where
  mode : CountMode
  filter : Option (SafeFilter Columns)
  threadMemoryIds : Option ThreadMemoryIds
  queryText : Option String
  queryVectors : List (List Component)
  hybridOptions : Option HybridOptions

structure CountSearchOutput where
  total : Nat
  isTruncated : Bool
  mode : CountMode
  deriving DecidableEq, Repr

/-- The limits of `ThreadFilterConfig` a count reads. -/
structure CountConfig where
  ftsMaxInlineIds : Nat
  ftsMaxTotalIds : Nat
  ftsCountHardCap : Nat
  countVectorHardCap : Nat

/-- `base.and(in_i64_list("memory_id", ids))` -/
def withMemoryIds (base : Option (SafeFilter Columns)) (ids : List Int) : SafeFilter Columns :=
  fun row => accepts base row && decide (row.memoryId ∈ ids)

/-- `in_i64_list` under a base filter; an empty list is refused. -/
def inMemoryIds (base : Option (SafeFilter Columns)) (ids : List Int) : Except SearchError (SafeFilter Columns) :=
  if ids.isEmpty then .error (.other "in_i64_list: values must not be empty") else .ok (withMemoryIds base ids)

/-- The closest `f64` to an integer, ties to even. -/
def roundF64 (n : Nat) : Nat :=
  let step := 2 ^ (n.log2 - 52)
  let down := n / step
  let low := n % step
  (if step < 2 * low ∨ (step = 2 * low ∧ down % 2 = 1) then down + 1 else down) * step

/-- `((hard_cap as f64 * 1.5).ceil() as u64).max(hard_cap + 1)` -/
def overfetchCap (hardCap : Nat) : Nat :=
  max (min ((roundF64 (3 * roundF64 hardCap) + 1) / 2) u64Max) ((hardCap + 1) % 2 ^ 64)

def countFilterChunkSize : Nat := 1000

/-- `count_filter_only` -/
def countFilterOnly (table : VectorTable Columns Component) (config : CountConfig)
    (base : Option (SafeFilter Columns)) : Option ThreadMemoryIds → Except SearchError (Nat × Bool)
  | none => .ok (table.countByFilter base)
  | some threadMemoryIds =>
    let ids := threadMemoryIds.ids
    if ids.isEmpty then .ok (0, false)
    else if config.ftsMaxTotalIds < ids.length then
      let n := ids.length
      let max := config.ftsMaxTotalIds
      .error (.failedPrecondition
        (s!"thread_filter resolved to {n} memory_ids for CountSearchMode::FILTER_ONLY, exceeding " ++
          s!"MEMORY_THREAD_FILTER_FTS_MAX_TOTAL_IDS = {max}."))
    else do
      let total ← (ids.toChunks countFilterChunkSize).foldlM (fun total chunk => do
        let combined ← inMemoryIds base chunk
        .ok (min (total + (table.countByFilter (some combined)).1) u64Max)) 0
      .ok (total, false)

/-- The filter of a ranked count: none to run when the thread filter resolved to no memory. -/
def combinedFilter (base : Option (SafeFilter Columns)) (limit : Nat) (refusal : Nat → String) :
    Option ThreadMemoryIds → Except SearchError (Option (Option (SafeFilter Columns)))
  | none => .ok (some base)
  | some threadMemoryIds =>
    let ids := threadMemoryIds.ids
    if ids.isEmpty then .ok none
    else if limit < ids.length then .error (.failedPrecondition (refusal ids.length))
    else do
      let inFilter ← inMemoryIds base ids
      .ok (some (some inFilter))

/-- `count_text` -/
def countText (table : VectorTable Columns Component) (config : CountConfig) (queryText : String)
    (base : Option (SafeFilter Columns)) (threadMemoryIds : Option ThreadMemoryIds) :
    Except SearchError (Nat × Bool) := do
  let max := config.ftsMaxInlineIds
  let combined ← combinedFilter base max (fun n =>
    s!"thread_filter resolved to {n} memory_ids for CountSearchMode::TEXT, exceeding " ++
      s!"MEMORY_THREAD_FILTER_FTS_MAX_INLINE_IDS = {max}. BM25 cannot be chunked while remaining consistent — " ++
      "narrow the thread_filter or use FILTER_ONLY.") threadMemoryIds
  match combined with
  | none => .ok (0, false)
  | some filter => .ok (table.countByText queryText filter config.ftsCountHardCap)

/-- `count_vector` -/
def countVector (table : VectorTable Columns Component) (config : CountConfig) (queryVectors : List (List Component))
    (base : Option (SafeFilter Columns)) (threadMemoryIds : Option ThreadMemoryIds) :
    Except SearchError (Nat × Bool) :=
  if queryVectors.isEmpty then
    .error (.invalidArgument "query_vectors is required and must not be empty for CountSearchMode::VECTOR")
  else do
    let hardCap := config.countVectorHardCap
    let max := config.ftsMaxTotalIds
    let combined ← combinedFilter base max (fun n =>
      s!"thread_filter resolved to {n} memory_ids for CountSearchMode::VECTOR, exceeding " ++
        s!"MEMORY_THREAD_FILTER_FTS_MAX_TOTAL_IDS = {max}.") threadMemoryIds
    match combined, queryVectors with
    | none, _ => .ok (0, false)
    | some filter, [queryVector] => table.countByVector queryVector filter hardCap
    | some filter, queryVectors => do
      let branches ← queryVectors.mapM fun v => table.collectVectorIdsCapped v filter (overfetchCap hardCap)
      .ok (mergedCount hardCap (unionOf branches))

/-- `count_hybrid` -/
def countHybrid (table : VectorTable Columns Component) (config : CountConfig) (queryVectors : List (List Component))
    (queryText : String) (hybridOptions : Option HybridOptions) (base : Option (SafeFilter Columns))
    (threadMemoryIds : Option ThreadMemoryIds) : Except SearchError (Nat × Bool) :=
  match queryVectors with
  | [] => .error (.invalidArgument "query_vectors is required and must not be empty for CountSearchMode::HYBRID")
  | [queryVector] => do
    let options := hybridOptions.getD ⟨.rrf, none, none⟩
    let max := config.ftsMaxInlineIds
    let combined ← combinedFilter base max (fun n =>
      s!"thread_filter resolved to {n} memory_ids for CountSearchMode::HYBRID, exceeding " ++
        s!"MEMORY_THREAD_FILTER_FTS_MAX_INLINE_IDS = {max}. BM25 cannot be chunked while remaining consistent — " ++
        "narrow the thread_filter or use FILTER_ONLY.") threadMemoryIds
    match combined with
    | none => .ok (0, false)
    | some filter =>
      table.countByHybrid queryVector queryText filter options config.countVectorHardCap config.ftsCountHardCap
  | _ => .error (.invalidArgument "CountSearchMode::HYBRID accepts exactly one query_vector")

/-- The text of a request, when it has one that is not empty. -/
def CountSearchInput.requiredText (input : CountSearchInput Columns Component) (mode : String) :
    Except SearchError String :=
  match input.queryText.filter (· ≠ "") with
  | some q => .ok q
  | none =>
    .error (.invalidArgument s!"query_text is required and must not be empty for CountSearchMode::{mode}")

/-- The dispatch of `count_search_matches`. -/
def countByMode (table : VectorTable Columns Component) (config : CountConfig)
    (input : CountSearchInput Columns Component) : Except SearchError (Nat × Bool) :=
  match input.mode with
  | .filterOnly => countFilterOnly table config input.filter input.threadMemoryIds
  | .text => do
    let q ← input.requiredText "TEXT"
    countText table config q input.filter input.threadMemoryIds
  | .vector => countVector table config input.queryVectors input.filter input.threadMemoryIds
  | .hybrid => do
    let q ← input.requiredText "HYBRID"
    countHybrid table config input.queryVectors q input.hybridOptions input.filter input.threadMemoryIds

/-- `count_search_matches` -/
def countSearchMatches (table : VectorTable Columns Component) (config : CountConfig)
    (input : CountSearchInput Columns Component) : Except SearchError CountSearchOutput := do
  let (total, isTruncated) ← countByMode table config input
  .ok ⟨total, isTruncated, input.mode⟩

end MemoryStore.MemorySearch
