/-
The searches of `app/src/app/memory_vector.rs` down to the ranked rows LanceDB
returns: over-fetching, collapsing a memory's rows, dropping memories the RDB no
longer has, intersecting with the thread filter, cutting off at the limit.

The engine answers each query with any ranked rows that keep to the filter. What
hydration attaches to a hit (the memory's body, its representative thread,
highlights) is left out, and so are failing reads. Limits come as `u32`, so that
only the saturating products below can overflow.
-/
import MemoryStore.MemorySearch.Count
import MemoryStore.MemorySearch.Fusion

namespace MemoryStore.MemorySearch

/-! ## The engine -/

inductive DistanceType where
  | cosine | l2 | dot
  deriving DecidableEq, Repr

/-- A row of an answer to a vector query. -/
structure VectorRow where
  memoryId : Int
  distance : ℚ
  vectorKind : Option String := none
  chunkIndex : Option Int := none
  beginPosition : Option Int := none
  endPosition : Option Int := none
  content : Option String := none
  deriving DecidableEq, Repr

/-- Some row of this memory passes the filter. -/
def Admits {Columns : Type} (filter : Option (SafeFilter Columns)) (memoryId : Int) : Prop :=
  ∃ row : IndexRow Columns, row.memoryId = memoryId ∧ accepts filter row

/-- LanceDB: for a query, a filter and a row limit, the rows it returns, closest or best first. -/
structure SearchEngine (Columns Component : Type) where
  distanceType : DistanceType
  vectorSize : Nat
  nearestTo : List Component → Option (SafeFilter Columns) → Nat → List VectorRow
  nearestTo_ranked : ∀ vector filter n, (nearestTo vector filter n).Pairwise fun a b => a.distance ≤ b.distance
  nearestTo_admits : ∀ vector filter n, ∀ row ∈ nearestTo vector filter n, Admits filter row.memoryId
  l2_nonneg : distanceType = .l2 → ∀ vector filter n, ∀ row ∈ nearestTo vector filter n, 0 ≤ row.distance
  fullTextSearch : String → Option (SafeFilter Columns) → Nat → List (Int × ℚ)
  fullTextSearch_ranked : ∀ text filter n, (fullTextSearch text filter n).Pairwise fun a b => b.2 ≤ a.2
  fullTextSearch_admits : ∀ text filter n, ∀ row ∈ fullTextSearch text filter n, Admits filter row.1
  /-- `1 / (1 + exp(-score))` -/
  sigmoid : ℚ → ℚ
  sigmoid_mono : ∀ a b, a ≤ b → sigmoid a ≤ sigmoid b

variable {Columns Component : Type}

/-! ## The repository's searches -/

/-- `f32::clamp(0.0, 1.0)` -/
def clampUnit (x : ℚ) : ℚ := max 0 (min x 1)

/-- The score of a distance. -/
def scoreOf (distanceType : DistanceType) (distance : ℚ) : ℚ :=
  match distanceType with
  | .cosine => clampUnit (1 - distance)
  | .l2 => clampUnit (1 / (1 + distance))
  | .dot => clampUnit ((1 + distance) / 2)

/-- `extract_search_hits` -/
def extractSearchHit (distanceType : DistanceType) (row : VectorRow) : VectorSearchHit where
  memoryId := row.memoryId
  score := scoreOf distanceType row.distance
  distance := row.distance
  vectorKind := row.vectorKind
  chunkIndex := row.chunkIndex
  beginPosition := row.beginPosition
  endPosition := row.endPosition
  matchedContent := row.content

def SearchEngine.vectorHits (engine : SearchEngine Columns Component) (queryVector : List Component)
    (filter : Option (SafeFilter Columns)) (limit : Nat) : List VectorSearchHit :=
  (engine.nearestTo queryVector filter limit).map (extractSearchHit engine.distanceType)

def SearchEngine.checkVectorSize (engine : SearchEngine Columns Component) (queryVector : List Component) :
    Except SearchError Unit :=
  let size := engine.vectorSize
  let got := queryVector.length
  if got = size then .ok () else .error (.other s!"Vector size mismatch: expected {size}, got {got}")

/-- `search_by_vector` of the repository -/
def SearchEngine.searchByVector (engine : SearchEngine Columns Component) (queryVector : List Component)
    (filter : Option (SafeFilter Columns)) (limit : Nat) : Except SearchError (List VectorSearchHit) := do
  engine.checkVectorSize queryVector
  .ok (engine.vectorHits queryVector filter limit)

/-- `f32::EPSILON` -/
def f32Epsilon : ℚ := 1 / 2 ^ 23

/-- The normalised score of a BM25 score between the worst and the best of an answer. -/
def normalizeScore (sigmoid : ℚ → ℚ) (min max score : ℚ) : ℚ :=
  let range := max - min
  if range < f32Epsilon then sigmoid score else (score - min) / range * (9 / 10) + 1 / 10

/-- `search_by_text` of the repository -/
def SearchEngine.searchByText (engine : SearchEngine Columns Component) (queryText : String)
    (filter : Option (SafeFilter Columns)) (limit : Nat) : List VectorSearchHit :=
  let rawResults := engine.fullTextSearch queryText filter limit
  let min := (rawResults.map Prod.snd).foldl min ((rawResults.head?.map Prod.snd).getD 0)
  let max := (rawResults.map Prod.snd).foldl max ((rawResults.head?.map Prod.snd).getD 0)
  rawResults.map fun (id, score) =>
    { memoryId := id, score := normalizeScore engine.sigmoid min max score, distance := score }

/-- `hybrid_search` of the repository -/
def SearchEngine.hybridSearch (engine : SearchEngine Columns Component) (order : HashOrder)
    (queryVector : List Component) (queryText : String) (filter : Option (SafeFilter Columns)) (limit : Nat)
    (options : HybridOptions) : Except SearchError (List VectorSearchHit) := do
  let fetchLimit := limit * 2
  let narrowed := fun (ids : Finset Int) (row : IndexRow Columns) => accepts filter row && decide (row.memoryId ∈ ids)
  match options.strategy with
  | .rrf | .weighted =>
    let vecResults ← engine.searchByVector queryVector filter fetchLimit
    let ftsResults := engine.searchByText queryText filter fetchLimit
    let merged ← (parallelHybridSearch order vecResults ftsResults limit options).mapError .other
    .ok (merged.getD [])
  | .vectorThenFts =>
    (options.validateVectorWeight).mapError .other
    let primaryHits ← engine.searchByVector queryVector filter fetchLimit
    let secondarySearch := fun ids => engine.searchByText queryText (some (narrowed ids)) fetchLimit
    (twoPhaseHybridSearch primaryHits secondarySearch limit options true).mapError .other
  | .ftsThenVector =>
    (options.validateVectorWeight).mapError .other
    let primaryHits := engine.searchByText queryText filter fetchLimit
    if primaryHits.isEmpty then .ok []
    else
      engine.checkVectorSize queryVector
      let secondarySearch := fun ids => engine.vectorHits queryVector (some (narrowed ids)) fetchLimit
      (twoPhaseHybridSearch primaryHits secondarySearch limit options false).mapError .other

/-! ## From hits to results -/

/-- `dedup_vector_hits`: the memories in the order they appear, each with its best row. -/
def dedupVectorHits (hits : List VectorSearchHit) : List VectorSearchHit :=
  let (order, best) := hits.foldl (fun (order, best) hit =>
    match AList.lookup hit.memoryId best with
    | none => (order ++ [hit.memoryId], best.insert hit.memoryId hit)
    | some existing => if existing.score < hit.score then (order, best.insert hit.memoryId hit) else (order, best))
    (([] : List Int), (∅ : KeyMap Int VectorSearchHit))
  order.filterMap fun id => best.lookup id

/-- `enrich_hits`: the best row of each memory the RDB still has. -/
def enrichHits (live : Int → Bool) (hits : List VectorSearchHit) : List VectorSearchHit :=
  (dedupVectorHits hits).filter fun hit => live hit.memoryId

/-- The limits of `ThreadFilterConfig` a search reads. -/
structure SearchConfig where
  ftsMaxInlineIds : Nat
  ftsMaxTotalIds : Nat
  ftsApproximateMode : Bool
  ftsOverfetchK : Nat
  vectorDedupOverfetchK : Nat
  vectorDedupMaxFetch : Nat

/-- `usize::saturating_mul` -/
def saturatingMul (a b : Nat) : Nat := min (a * b) u64Max

/-- `approximate_fetch_limit` -/
def approximateFetchLimit (limit overfetchK attempt maxTotal : Nat) : Nat :=
  let k0 := max overfetchK 1
  let rawFetch := saturatingMul (saturatingMul limit k0) attempt
  let lowerBound := min (limit + 1) maxTotal
  max (min rawFetch maxTotal) lowerBound

/-- The results of a search, with the hits its last attempt fetched. -/
structure SearchRun where
  fetched : List VectorSearchHit
  items : List VectorSearchHit
  deriving DecidableEq, Repr

/-- The loop over the attempts, after an attempt that fetched up to `lastFetch` rows. -/
def overfetchLoop (limit : Nat) (fetchLimit : Nat → Nat) (search : Nat → Except SearchError (List VectorSearchHit))
    (enrich : List VectorSearchHit → List VectorSearchHit) : List Nat → Nat → SearchRun → Except SearchError SearchRun
  | [], _, run => .ok run
  | attempt :: attempts, lastFetch, run =>
    let fetch := fetchLimit attempt
    if 1 < attempt ∧ fetch ≤ lastFetch then .ok run
    else do
      let hits ← search fetch
      let results := enrich hits
      if limit ≤ results.length then .ok ⟨hits, results⟩
      else overfetchLoop limit fetchLimit search enrich attempts fetch ⟨hits, results⟩

/-- `search_with_overfetch` -/
def searchWithOverfetch (config : SearchConfig) (live : Int → Bool) (limit : Nat)
    (search : Nat → Except SearchError (List VectorSearchHit)) : Except SearchError SearchRun := do
  let fetchLimit := fun attempt =>
    approximateFetchLimit limit config.vectorDedupOverfetchK attempt config.vectorDedupMaxFetch
  let run ← overfetchLoop limit fetchLimit search (enrichHits live) [1, 2, 3] 0 ⟨[], []⟩
  .ok { run with items := run.items.take limit }

/-- `two_phase_fts_search`: hits outside the thread filter are dropped here, not by the engine. -/
def twoPhaseFtsSearch (config : SearchConfig) (live : Int → Bool) (limit : Nat) (allowed : List Int)
    (search : Nat → Except SearchError (List VectorSearchHit)) : Except SearchError SearchRun := do
  let fetchLimit := fun attempt => approximateFetchLimit limit config.ftsOverfetchK attempt config.ftsMaxTotalIds
  let enrich := fun (hits : List VectorSearchHit) =>
    enrichHits live (hits.filter fun hit => decide (hit.memoryId ∈ allowed))
  let run ← overfetchLoop limit fetchLimit search enrich [1, 2, 3] 0 ⟨[], []⟩
  .ok { run with items := run.items.take limit }

/-- `((limit as f64 * 1.5).ceil() as usize).max(limit + 1)`, exact for a `u32` -/
def multiVectorFetchLimit (limit : Nat) : Nat := max ((3 * limit + 1) / 2) (limit + 1)

/-- The several-vector part of `search_by_vector`: the aggregated hits are cut off before the stale ones go. -/
def searchByVectors (live : Int → Bool) (limit : Nat) (search : Nat → Except SearchError (List VectorSearchHit)) :
    Except SearchError SearchRun := do
  let overfetchLimit := multiVectorFetchLimit limit
  let aggregated ← search overfetchLimit
  let results := enrichHits live (aggregated.take limit)
  if results.length < limit then
    let retryLimit := limit * 3
    if overfetchLimit < retryLimit then
      let retryAggregated ← search retryLimit
      .ok ⟨retryAggregated, (enrichHits live (retryAggregated.take limit)).take limit⟩
    else .ok ⟨aggregated, results⟩
  else .ok ⟨aggregated, results.take limit⟩

/-! ## The searches of the application -/

inductive FilterPlan (Columns : Type) where
  | shortCircuit
  | strict (filter : Option (SafeFilter Columns))
  | approximate (base : Option (SafeFilter Columns)) (allowed : List Int)

/-- `build_search_filter_with_cfg`; the vector searches are the ones that do not use full text. -/
def buildSearchFilter (config : SearchConfig) (base : Option (SafeFilter Columns)) (usesFts : Bool) :
    Option ThreadMemoryIds → Except SearchError (FilterPlan Columns)
  | none => .ok (.strict base)
  | some threadMemoryIds =>
    let ids := threadMemoryIds.ids
    let n := ids.length
    let total := config.ftsMaxTotalIds
    let inline := config.ftsMaxInlineIds
    if ids.isEmpty then .ok .shortCircuit
    else if usesFts ∧ total < n then
      .error (.failedPrecondition
        (s!"thread_filter resolved to {n} memory_ids, exceeding the absolute upper bound " ++
          s!"MEMORY_THREAD_FILTER_FTS_MAX_TOTAL_IDS = {total}."))
    else if usesFts ∧ inline < n then
      if config.ftsApproximateMode then .ok (.approximate base ids)
      else .error (.failedPrecondition
        (s!"thread_filter resolved to {n} memory_ids, exceeding " ++
          s!"MEMORY_THREAD_FILTER_FTS_MAX_INLINE_IDS = {inline}. Add labels / channel filters " ++
          "to narrow the thread set, or set MEMORY_THREAD_FILTER_FTS_APPROXIMATE_MODE=true " ++
          "to opt into the search-side over-fetch fallback."))
    else .ok (.strict (some (withMemoryIds base ids)))

/-- What is searched for. -/
inductive SearchQuery (Component : Type) where
  | byVector (queryVectors : List (List Component)) (aggregation : Option AggregationStrategy)
  | byText (queryText : String)
  | hybrid (queryVectors : List (List Component)) (queryText : String) (options : HybridOptions)

structure SearchRequest (Columns Component : Type) where
  query : SearchQuery Component
  filter : Option (SafeFilter Columns)
  threadMemoryIds : Option ThreadMemoryIds
  limit : Nat

/-- The full-text part of a plan, with the search it runs. -/
def searchPlan (config : SearchConfig) (live : Int → Bool) (limit : Nat) (plan : FilterPlan Columns)
    (search : Option (SafeFilter Columns) → Nat → Except SearchError (List VectorSearchHit)) :
    Except SearchError SearchRun :=
  match plan with
  | .shortCircuit => .ok ⟨[], []⟩
  | .strict combined => searchWithOverfetch config live limit (search combined)
  | .approximate base allowed => twoPhaseFtsSearch config live limit allowed (search base)

/-- `search_by_vector` of the application -/
def searchByVector (engine : SearchEngine Columns Component) (order : HashOrder) (config : SearchConfig)
    (live : Int → Bool) (request : SearchRequest Columns Component) (queryVectors : List (List Component))
    (aggregation : Option AggregationStrategy) : Except SearchError SearchRun :=
  if queryVectors.isEmpty then .error (.other "query_vectors must not be empty")
  else do
    let plan ← buildSearchFilter config request.filter false request.threadMemoryIds
    match plan, queryVectors with
    | .shortCircuit, _ => .ok ⟨[], []⟩
    | .approximate _ _, _ =>
      .error (.other "internal error: approximate plan is not valid for SearchKind::Vector")
    | .strict combined, [queryVector] =>
      searchWithOverfetch config live request.limit (engine.searchByVector queryVector combined)
    | .strict combined, queryVectors =>
      searchByVectors live request.limit fun fetchLimit => do
        let allHits ← queryVectors.mapM fun v => engine.searchByVector v combined fetchLimit
        .ok (aggregateScores order allHits (aggregation.getD .average))

/-- `search_by_text` of the application -/
def searchByText (engine : SearchEngine Columns Component) (config : SearchConfig) (live : Int → Bool)
    (request : SearchRequest Columns Component) (queryText : String) : Except SearchError SearchRun := do
  let plan ← buildSearchFilter config request.filter true request.threadMemoryIds
  searchPlan config live request.limit plan fun filter n => .ok (engine.searchByText queryText filter n)

/-- `hybrid_search` of the application -/
def hybridSearch (engine : SearchEngine Columns Component) (order : HashOrder) (config : SearchConfig)
    (live : Int → Bool) (request : SearchRequest Columns Component) (queryVectors : List (List Component))
    (queryText : String) (options : HybridOptions) : Except SearchError SearchRun :=
  match queryVectors with
  | [] => .error (.other "query_vectors must not be empty")
  | [queryVector] => do
    let plan ← buildSearchFilter config request.filter true request.threadMemoryIds
    searchPlan config live request.limit plan fun filter n =>
      engine.hybridSearch order queryVector queryText filter n options
  | _ => .error (.other "multi-vector search is not yet supported; pass exactly one query vector")

/-- A search, by what it asks for. -/
def search (engine : SearchEngine Columns Component) (order : HashOrder) (config : SearchConfig)
    (live : Int → Bool) (request : SearchRequest Columns Component) : Except SearchError SearchRun :=
  match request.query with
  | .byVector queryVectors aggregation => searchByVector engine order config live request queryVectors aggregation
  | .byText queryText => searchByText engine config live request queryText
  | .hybrid queryVectors queryText options =>
    hybridSearch engine order config live request queryVectors queryText options

end MemoryStore.MemorySearch
