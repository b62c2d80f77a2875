/-
What the memory search passes around (`infra/src/infra/memory_vector/repository.rs`):
hits, and the options of a hybrid search. Scores and weights are exact rationals.
-/
import MemoryStore.Lib.KeyMap

namespace MemoryStore.MemorySearch

/-- One row of an answer. Fused and aggregated hits carry no row of their own. -/
structure VectorSearchHit where
  memoryId : Int
  score : ℚ
  distance : ℚ := 0
  vectorKind : Option String := none
  chunkIndex : Option Int := none
  beginPosition : Option Int := none
  endPosition : Option Int := none
  matchedContent : Option String := none
  deriving DecidableEq, Repr

inductive HybridStrategy where
  | rrf | weighted | vectorThenFts | ftsThenVector
  deriving DecidableEq, Repr

structure HybridOptions where
  strategy : HybridStrategy
  vectorWeight : Option ℚ
  rrfK : Option ℚ

/-- The weight a strategy uses when none is given. -/
def defaultVectorWeight : ℚ := 7 / 10

/-- `validate_vector_weight` -/
def HybridOptions.validateVectorWeight (options : HybridOptions) : Except String Unit :=
  match options.strategy with
  | .rrf => .ok ()
  | .weighted | .vectorThenFts | .ftsThenVector =>
    let vw := options.vectorWeight.getD defaultVectorWeight
    if 0 ≤ vw ∧ vw ≤ 1 then .ok () else .error s!"vector_weight must be in 0.0..=1.0, got {vw}"

inductive AggregationStrategy where
  | sum | average | max | weightedByPosition | rankFusion
  deriving DecidableEq, Repr

end MemoryStore.MemorySearch

/-!
Fusing ranked hit lists into one: the hybrid searches and the aggregation over
several query vectors (`merge_rrf`, `merge_weighted`, `two_phase_hybrid_search`
and `aggregate_scores` in `infra/src/infra/memory_vector/repository.rs`).

The searches below are their answers. Scores are exact rationals. A `HashMap` is
iterated in an order of its own, any order, but one and the same for maps of the
same keys.
-/

namespace MemoryStore.MemorySearch

/-- The order in which a map of given keys is iterated. -/
structure HashOrder where
  arrange : List Int → List Int
  nodup : ∀ keys, (arrange keys).Nodup
  mem_arrange : ∀ {keys id}, id ∈ arrange keys ↔ id ∈ keys
  arrange_congr : ∀ {keys keys'}, (∀ id, id ∈ keys ↔ id ∈ keys') → arrange keys = arrange keys'

/-- `MAX_HYBRID_CANDIDATES` -/
def maxHybridCandidates : Nat := 200

/-- Best score first; equal scores keep their order. -/
def sortByScore (hits : List VectorSearchHit) : List VectorSearchHit :=
  hits.insertionSort fun a b => b.score ≤ a.score

/-- A fused hit, with no row of its own. -/
def fusedHit (memoryId : Int) (score : ℚ) : VectorSearchHit where
  memoryId := memoryId
  score := score

variable (order : HashOrder)

/-- A score for each memory of a map, best first. -/
def rankScores (keys : List Int) (score : Int → ℚ) : List VectorSearchHit :=
  sortByScore ((order.arrange keys).map fun id => fusedHit id (score id))

/-! ## Parallel hybrid search -/

/-- What a hit at a rank adds to a reciprocal rank fusion. -/
def reciprocalRank (k : ℚ) (hit : VectorSearchHit × Nat) : ℚ := 1 / ((hit.2 : ℚ) + k)

/-- `merge_rrf` -/
def mergeRrf (vecResults ftsResults : List VectorSearchHit) (k : ℚ) (limit : Nat) : List VectorSearchHit :=
  let scores := KeyMap.tally (fun hit => hit.1.memoryId) (reciprocalRank k) vecResults.zipIdx ∅
  let scores := KeyMap.tally (fun hit => hit.1.memoryId) (reciprocalRank k) ftsResults.zipIdx scores
  (rankScores order scores.keys scores.total).take limit

/-- `merge_weighted` -/
def mergeWeighted (vecResults ftsResults : List VectorSearchHit) (vectorWeight : ℚ) (limit : Nat) :
    List VectorSearchHit :=
  let textWeight := 1 - vectorWeight
  let scores := KeyMap.tally VectorSearchHit.memoryId (fun hit => hit.score * vectorWeight) vecResults ∅
  let scores := KeyMap.tally VectorSearchHit.memoryId (fun hit => hit.score * textWeight) ftsResults scores
  (rankScores order scores.keys scores.total).take limit

/-- `parallel_hybrid_search`, on what its two searches return; `none` where the source is unreachable. -/
def parallelHybridSearch (vecResults ftsResults : List VectorSearchHit) (limit : Nat) (options : HybridOptions) :
    Except String (Option (List VectorSearchHit)) := do
  options.validateVectorWeight
  match options.strategy with
  | .rrf => .ok (some (mergeRrf order vecResults ftsResults (options.rrfK.getD 60) limit))
  | .weighted =>
    .ok (some (mergeWeighted order vecResults ftsResults (options.vectorWeight.getD defaultVectorWeight) limit))
  | .vectorThenFts | .ftsThenVector => .ok none

/-! ## Two-phase hybrid search -/

/-- Stage 3: each primary hit with its score blended with its memory's score in the secondary search. -/
def blend (vectorFirst : Bool) (vectorWeight : ℚ) (secondaryHits : List VectorSearchHit) (hit : VectorSearchHit) :
    VectorSearchHit :=
  let secondaryMap := KeyMap.collect VectorSearchHit.memoryId secondaryHits
  let secScore := ((secondaryMap.lookup hit.memoryId).map VectorSearchHit.score).getD 0
  let (primaryWeight, secondaryWeight) :=
    if vectorFirst then (vectorWeight, 1 - vectorWeight) else (1 - vectorWeight, vectorWeight)
  { hit with score := hit.score * primaryWeight + secScore * secondaryWeight, distance := 0 }

/-- `two_phase_hybrid_search`, on its primary hits and on what its secondary search returns for a set of
candidates. -/
def twoPhaseHybridSearch (primaryHits : List VectorSearchHit) (secondarySearch : Finset Int → List VectorSearchHit)
    (limit : Nat) (options : HybridOptions) (vectorFirst : Bool) : Except String (List VectorSearchHit) := do
  options.validateVectorWeight
  let vectorWeight := options.vectorWeight.getD defaultVectorWeight
  if primaryHits.isEmpty then .ok []
  else
    let primaryHits := primaryHits.take maxHybridCandidates
    let candidateIds := (primaryHits.map VectorSearchHit.memoryId).toFinset
    let secondaryHits := secondarySearch candidateIds
    .ok ((sortByScore (primaryHits.map (blend vectorFirst vectorWeight secondaryHits))).take limit)

/-! ## Several query vectors -/

/-- A hit with the index of its vector and its rank there. -/
structure RankedRow where
  vecIdx : Nat
  rank : Nat
  hit : VectorSearchHit

/-- The rows of all lists, list by list, from the index `start`. -/
def rankedRowsFrom (start : Nat) : List (List VectorSearchHit) → List RankedRow
  | [] => []
  | hits :: rest => (hits.zipIdx.map fun (hit, rank) => ⟨start, rank, hit⟩) ++ rankedRowsFrom (start + 1) rest

/-- The largest of some scores. -/
def maxScore : List ℚ → ℚ
  | [] => 0
  | s :: scores => scores.foldl max s

/-- The aggregated score of a memory's rows. -/
def aggregateRows (strategy : AggregationStrategy) (numVectors : Nat) (rows : List RankedRow) : ℚ :=
  match strategy with
  | .sum => (rows.map fun r => r.hit.score).sum
  | .average => (rows.map fun r => r.hit.score).sum / (numVectors : ℚ)
  | .max => maxScore (rows.map fun r => r.hit.score)
  | .weightedByPosition => (rows.map fun r => r.hit.score / ((r.vecIdx : ℚ) + 1)).sum
  | .rankFusion => (rows.map fun r => 1 / ((r.rank : ℚ) + 60)).sum

/-- `aggregate_scores` -/
def aggregateScores (allHits : List (List VectorSearchHit)) (strategy : AggregationStrategy) : List VectorSearchHit :=
  let scoreMap := KeyMap.group (fun row => row.hit.memoryId) id (rankedRowsFrom 0 allHits)
  rankScores order scoreMap.keys fun memoryId =>
    aggregateRows strategy allHits.length ((scoreMap.lookup memoryId).getD [])

end MemoryStore.MemorySearch
