/-
The score aggregation of the SQLite backend (`infra/src/infra/reflection/stats.rs`):
one query groups the matching rows and returns count, minimum and maximum of each
group, a second one returns the rows in the order of the groups and of their
scores, and the percentiles are picked in a walk over both. Each query reads one
committed state, and transactions may be committed between them.

Averages are left out. Scores are of any linear order with a zero, and a filter is
any predicate on a state of the sidecar and one of its rows, such as
`ResolvedFilter.admits`. Values are ordered as SQLite orders them: NULL, numbers,
texts.
-/
import MemoryStore.Lib.Lockstep
import MemoryStore.Reflection.Filter

namespace MemoryStore.Reflection

open Lockstep
open Conversation (AppError)

/-! ## Axes -/

/-- `ScoresAggregateAxis`. -/
inductive ScoresAggregateAxis where
  | originUserId
  | originChannel
  | targetModelVersion
  | taskCategory
  | reflectionAspect
  | outcome
  | experimentId
  | experimentVariant
  | timeBucket
  | summaryEmbeddingStatus
  | intentEmbeddingStatus
  deriving DecidableEq, Repr

/-- A value of a column: NULL, a number or a text. -/
abbrev AxisValue := WithBot (Int ⊕ₗ String)

def AxisValue.number (n : Int) : AxisValue := ((toLex (.inl n) : Int ⊕ₗ String) : WithBot (Int ⊕ₗ String))

def AxisValue.text : Option String → AxisValue
  | none => ⊥
  | some s => ((toLex (.inr s) : Int ⊕ₗ String) : WithBot (Int ⊕ₗ String))

/-- The values of the columns grouped by. -/
abbrev GroupKey := List AxisValue

section

variable {α : Type}

/-- `expr` of an axis, at a row. The bucket of a time is cut towards zero. -/
def ScoresAggregateAxis.expr (timeBucketMs : Int) (tri : SidecarRow α) : ScoresAggregateAxis → AxisValue
  | .originUserId => .number tri.originUserId
  | .originChannel => .text tri.originChannel
  | .targetModelVersion => .text tri.targetModelVersion
  | .taskCategory => .number tri.taskCategory
  | .reflectionAspect => .number tri.reflectionAspect
  | .outcome => .number tri.outcome
  | .experimentId => .text tri.experimentId
  | .experimentVariant => .text tri.experimentVariant
  | .timeBucket => .number (if 0 < timeBucketMs then tri.createdAt.tdiv timeBucketMs * timeBucketMs else 0)
  | .summaryEmbeddingStatus => .number tri.summaryEmbeddingStatus
  | .intentEmbeddingStatus => .number tri.intentEmbeddingStatus

/-- The matching rows of a state, each as its key and its score. -/
def Sidecar.scored (t : Sidecar α) (admits : Sidecar α → SidecarRow α → Bool) (axes : List ScoresAggregateAxis)
    (timeBucketMs : Int) : List (GroupKey × α) :=
  (t.rows.filter (admits t)).map fun tri => (axes.map (·.expr timeBucketMs tri), tri.score)

end

/-! ## The two queries and the walk -/

/-- A row of the first query. -/
structure AggregateScoresAggRow (α : Type) where
  key : GroupKey
  bucketCount : Nat
  scoreMin : α
  scoreMax : α

/-- `ScoresAggregateBucket`, with the values of the axes asked for as its key. -/
structure ScoresAggregateBucket (α : Type) where
  key : GroupKey
  count : Nat
  scoreMin : α
  scoreMax : α
  scoreP50 : α
  scoreP95 : α
  deriving DecidableEq

section

variable {α : Type} [LinearOrder α] [Zero α]

/-- `nearest_rank_percentile`. A product of 0.5 or 0.95 and a length, in doubles, is
rounded up to the same rank as the exact one. -/
def nearestRankPercentile (scores : List α) (p : ℚ) : α :=
  if scores.isEmpty then 0
  else
    let rank := ⌈p * scores.length⌉ - 1
    let idx := max 0 (min rank (scores.length - 1))
    scores.getD idx.toNat 0

/-- The groups of the first query in its order: without axes there is one, of all rows. -/
def groupKeys (axes : List ScoresAggregateAxis) (rows : List (GroupKey × α)) : List GroupKey :=
  if axes.isEmpty then [[]] else SortedSet.ofList (rows.map (·.1))

/-- `COUNT(*)`, `COALESCE(MIN(score), 0.0)` and `COALESCE(MAX(score), 0.0)` of a group. -/
def aggRow (rows : List (GroupKey × α)) (key : GroupKey) : AggregateScoresAggRow α :=
  let scores := valuesOf rows key
  { key, bucketCount := scores.length, scoreMin := scores.min?.getD 0, scoreMax := scores.max?.getD 0 }

/-- `into_bucket`. -/
def AggregateScoresAggRow.intoBucket (agg : AggregateScoresAggRow α) (scoreP50 scoreP95 : α) : ScoresAggregateBucket α :=
  ⟨agg.key, agg.bucketCount, agg.scoreMin, agg.scoreMax, scoreP50, scoreP95⟩

/-- `same_group`. -/
def AggregateScoresAggRow.sameGroup (agg : AggregateScoresAggRow α) (raw : GroupKey × α) : Bool := raw.1 = agg.key

/-- The walk over both results: each group takes the next rows while they are of it. -/
def walkGroups : List (AggregateScoresAggRow α) → List (GroupKey × α) → List (ScoresAggregateBucket α)
  | [], _ => []
  | agg :: aggs, rows =>
    let scores := (rows.takeWhile agg.sameGroup).map (·.2)
    agg.intoBucket (nearestRankPercentile scores (1 / 2)) (nearestRankPercentile scores (19 / 20)) ::
      walkGroups aggs (rows.dropWhile agg.sameGroup)

/-- `aggregate_scores_impl` with `aggregate_scores_sqlite`: the first query reads `first`, the second `second`. -/
def aggregateScores (admits : Sidecar α → SidecarRow α → Bool) (groupBy : List ScoresAggregateAxis)
    (timeBucketSeconds : Option Nat) (cap : Nat) (first second : Sidecar α) :
    Except AppError (List (ScoresAggregateBucket α)) :=
  let timeBucketMs : Int := timeBucketSeconds.getD 0 * 1000
  if .timeBucket ∈ groupBy ∧ timeBucketMs = 0 then
    .error (.invalidArgument "aggregate_scores: time_bucket_seconds must be > 0 when TimeBucket is in group_by")
  else
    let axes := groupBy.eraseDups
    let aggRows := (groupKeys axes (first.scored admits axes timeBucketMs)).map
      (aggRow (first.scored admits axes timeBucketMs))
    if cap < aggRows.length then
      .error (.invalidArgument s!"aggregate_scores group count {aggRows.length} exceeds cap {cap}")
    else .ok (walkGroups aggRows (orderBy (second.scored admits axes timeBucketMs)))

/-! ## Nearest ranks -/

/-- The index of a percentile of a list that is not empty. -/
theorem nearestRankPercentile_eq {β : Type} [Zero β] {scores : List β} {p : ℚ} (hne : scores ≠ []) (h0 : 0 < p) (h1 : p ≤ 1) :
    ∃ h : (⌈p * scores.length⌉ - 1).toNat < scores.length,
      nearestRankPercentile scores p = scores[(⌈p * scores.length⌉ - 1).toNat] ∧ 1 ≤ ⌈p * scores.length⌉ := by
  have hlen : 0 < (scores.length : ℚ) := by
    have := List.length_pos_iff.2 hne
    exact_mod_cast this
  have hlow : 1 ≤ ⌈p * scores.length⌉ := Int.one_le_ceil_iff.2 (mul_pos h0 hlen)
  have hhigh : ⌈p * scores.length⌉ ≤ scores.length := by
    rw [Int.ceil_le]
    have := mul_le_mul_of_nonneg_right h1 hlen.le
    simpa using this
  have hidx : (⌈p * scores.length⌉ - 1).toNat < scores.length := by omega
  refine ⟨hidx, ?_, hlow⟩
  unfold nearestRankPercentile
  rw [if_neg (by simpa using hne)]
  dsimp only
  rw [show max 0 (min (⌈p * scores.length⌉ - 1) ((scores.length : ℤ) - 1)) = ⌈p * scores.length⌉ - 1 by omega]
  rw [List.getD_eq_getElem?_getD, List.getElem?_eq_getElem hidx, Option.getD_some]

/-- **A nearest rank**: a score, at or below which at least the share `p` of the scores lies, and less below it. -/
structure NearestRank (scores : List α) (p : ℚ) (x : α) : Prop where
  mem : x ∈ scores
  atMost : p * scores.length ≤ (scores.countP (· ≤ x) : ℚ)
  below : (scores.countP (· < x) : ℚ) < p * scores.length

/-- In a sorted list the scores up to an index are at or below the one there. -/
theorem countP_le_of_sorted {β : Type} [LinearOrder β] {scores : List β} (hs : scores.Pairwise (· ≤ ·)) {i : Nat} (hi : i < scores.length) :
    i + 1 ≤ scores.countP (· ≤ scores[i]) ∧ scores.countP (· < scores[i]) ≤ i := by
  have hsplit : scores = scores.take i ++ scores[i] :: scores.drop (i + 1) := by simp
  have hs' := hs
  rw [hsplit, List.pairwise_append, List.pairwise_cons] at hs'
  obtain ⟨-, ⟨hback, -⟩, hfront⟩ := hs'
  have hlen : (scores.take i).length = i := List.length_take_of_le hi.le
  generalize scores[i] = x at *
  have hle : (scores.take i).countP (· ≤ x) = i := by
    rw [List.countP_eq_length.2 fun a ha => by simpa using hfront a ha x List.mem_cons_self, hlen]
  have hlt : (scores.take i).countP (· < x) ≤ (scores.take i).length := List.countP_le_length
  have hnone : (scores.drop (i + 1)).countP (· < x) = 0 := by
    rw [List.countP_eq_zero]
    intro a ha
    simpa using hback a ha
  rw [hsplit, List.countP_append, List.countP_append, List.countP_cons, List.countP_cons]
  simp only [le_refl, decide_true, if_true, lt_irrefl, decide_false, Bool.false_eq_true, if_false]
  omega

/-- What is picked from sorted scores is their nearest rank. -/
theorem nearestRankPercentile_spec {scores : List α} {p : ℚ} (hs : scores.Pairwise (· ≤ ·)) (hne : scores ≠ [])
    (h0 : 0 < p) (h1 : p ≤ 1) : NearestRank scores p (nearestRankPercentile scores p) := by
  obtain ⟨hidx, heq, hone⟩ := nearestRankPercentile_eq hne h0 h1
  obtain ⟨hle, hlt⟩ := countP_le_of_sorted hs hidx
  rw [heq]
  have hceil := Int.le_ceil (p * scores.length)
  have hpred := Int.ceil_lt_add_one (p * scores.length)
  generalize ⌈p * scores.length⌉ = rank at *
  refine ⟨List.getElem_mem _, ?_, ?_⟩
  · have : (rank : ℚ) ≤ (scores.countP (· ≤ scores[(rank - 1).toNat]) : ℚ) := by
      have hz : rank ≤ (scores.countP (· ≤ scores[(rank - 1).toNat]) : ℤ) := by omega
      exact_mod_cast hz
    exact hceil.trans this
  · have : (scores.countP (· < scores[(rank - 1).toNat]) : ℚ) ≤ (rank : ℚ) - 1 := by
      have hz : (scores.countP (· < scores[(rank - 1).toNat]) : ℤ) ≤ rank - 1 := by omega
      exact_mod_cast hz
    linarith

/-- Nearest ranks of one sorted list go up with the share. -/
theorem nearestRankPercentile_mono {scores : List α} {p q : ℚ} (hs : scores.Pairwise (· ≤ ·)) (hne : scores ≠ [])
    (h0 : 0 < p) (hpq : p ≤ q) (h1 : q ≤ 1) : nearestRankPercentile scores p ≤ nearestRankPercentile scores q := by
  obtain ⟨hp, heqp, -⟩ := nearestRankPercentile_eq hne h0 (hpq.trans h1)
  obtain ⟨hq, heqq, -⟩ := nearestRankPercentile_eq hne (h0.trans_le hpq) h1
  have hmul : p * scores.length ≤ q * scores.length := mul_le_mul_of_nonneg_right hpq (by positivity)
  have hceil := Int.ceil_le_ceil hmul
  have hidx : (⌈p * scores.length⌉ - 1).toNat ≤ (⌈q * scores.length⌉ - 1).toNat := by omega
  rw [heqp, heqq]
  rcases hidx.lt_or_eq with hlt | heq
  · exact List.pairwise_iff_getElem.1 hs _ _ hp hq hlt
  · simp only [heq, le_refl]

/-! ## The buckets of one state -/

/-- Minimum and maximum of a group, 0 where it is empty. -/
def extent (scores : List α) : Nat × α × α := (scores.length, scores.min?.getD 0, scores.max?.getD 0)

/-- The percentiles of a group, 0 where it is empty. -/
def percentiles (scores : List α) : α × α :=
  let sorted := scores.insertionSort (· ≤ ·)
  (nearestRankPercentile sorted (1 / 2), nearestRankPercentile sorted (19 / 20))

/-- The bucket of a group with these scores. -/
def bucketOf (key : GroupKey) (scores : List α) : ScoresAggregateBucket α :=
  ⟨key, (extent scores).1, (extent scores).2.1, (extent scores).2.2, (percentiles scores).1, (percentiles scores).2⟩

/-- Minimum, percentiles and maximum of one group are in order. -/
theorem bucketOf_ordered (key : GroupKey) (scores : List α) :
    (bucketOf key scores).scoreMin ≤ (bucketOf key scores).scoreP50 ∧
      (bucketOf key scores).scoreP50 ≤ (bucketOf key scores).scoreP95 ∧
      (bucketOf key scores).scoreP95 ≤ (bucketOf key scores).scoreMax := by
  unfold bucketOf extent percentiles
  dsimp only
  have hperm := List.perm_insertionSort (· ≤ ·) scores
  have hs := List.pairwise_insertionSort (· ≤ ·) scores
  by_cases hne : scores = []
  · subst hne
    simp [nearestRankPercentile]
  · have hne' : scores.insertionSort (· ≤ ·) ≠ [] := fun h => hne (List.perm_nil.1 (h ▸ hperm.symm))
    generalize scores.insertionSort (· ≤ ·) = sorted at *
    obtain ⟨low, hlow⟩ := Option.isSome_iff_exists.1 (List.isSome_min?_of_ne_nil hne)
    obtain ⟨high, hhigh⟩ := Option.isSome_iff_exists.1 (List.isSome_max?_of_ne_nil hne)
    have hlow' := (List.min?_eq_some_iff.1 hlow).2
    have hhigh' := (List.max?_eq_some_iff.1 hhigh).2
    rw [hlow, hhigh, Option.getD_some, Option.getD_some]
    have h50 : NearestRank sorted (1 / 2) _ := nearestRankPercentile_spec hs hne' (by norm_num) (by norm_num)
    have h95 : NearestRank sorted (19 / 20) _ := nearestRankPercentile_spec hs hne' (by norm_num) (by norm_num)
    exact ⟨hlow' _ (hperm.mem_iff.1 h50.mem),
      nearestRankPercentile_mono hs hne' (by norm_num) (by norm_num) (by norm_num), hhigh' _ (hperm.mem_iff.1 h95.mem)⟩

/-! ## The buckets of two states -/

/-- The walk gives each group of the first query the percentiles of its rows in the
second, unless a group that the first one does not have comes before it there. -/
theorem walkGroups_eq {keys : List GroupKey} (hk : keys.Pairwise (· < ·)) (first second : List (GroupKey × α)) :
    walkGroups (keys.map (aggRow first)) (orderBy second) = keys.map fun k =>
      (aggRow first k).intoBucket
        (percentiles (if Overtaken keys second k then [] else valuesOf second k)).1
        (percentiles (if Overtaken keys second k then [] else valuesOf second k)).2 := by
  have hwalk : ∀ (keys : List GroupKey) (rows : List (GroupKey × α)),
      walkGroups (keys.map (aggRow first)) rows = (lockstep keys rows).map fun (k, scores) =>
        (aggRow first k).intoBucket (nearestRankPercentile scores (1 / 2)) (nearestRankPercentile scores (19 / 20)) := by
    intro keys
    induction keys with
    | nil => intro rows; rfl
    | cons k keys ih =>
      intro rows
      have hsame : ∀ raw, (aggRow first k).sameGroup raw = true ↔ raw.1 = k := fun raw => decide_eq_true_iff
      rw [List.map_cons, walkGroups, lockstep_cons hsame, List.map_cons, ih]
  have hover : ∀ k, Overtaken keys (orderBy second) k ↔ Overtaken keys second k := fun k => by
    unfold Overtaken
    simp only [orderBy, List.mem_insertionSort]
  rw [hwalk, lockstep_eq hk (orderBy_byKey second), List.map_map]
  refine List.map_congr_left fun k _ => ?_
  simp only [Function.comp_apply, hover, valuesOf_orderBy, percentiles]
  split <;> rfl

/-- The groups come in order. -/
theorem groupKeys_sorted {β : Type} (axes : List ScoresAggregateAxis) (rows : List (GroupKey × β)) :
    (groupKeys axes rows).Pairwise (· < ·) := by
  unfold groupKeys
  split
  · exact List.pairwise_singleton ..
  · exact ((SortedSet.sorted_ofList _).and (SortedSet.nodup_ofList _)).imp fun ⟨hle, hne⟩ => lt_of_le_of_ne hle hne

/-! ## Runs -/

/-- A call and the transactions committed between its queries. -/
structure ScoresRun (α : Type) where
  admits : Sidecar α → SidecarRow α → Bool
  groupBy : List ScoresAggregateAxis
  timeBucketSeconds : Option Nat
  cap : Nat
  first : Sidecar α
  transactions : List (Sidecar α → Sidecar α)

/-- The committed states from the first query to the second. -/
def ScoresRun.states (run : ScoresRun α) : List (Sidecar α) := run.transactions.scanl (fun t tx => tx t) run.first

/-- The state the second query reads. -/
def ScoresRun.second (run : ScoresRun α) : Sidecar α := run.transactions.foldl (fun t tx => tx t) run.first

/-- What the call returns. -/
def ScoresRun.result (run : ScoresRun α) : Except AppError (List (ScoresAggregateBucket α)) :=
  aggregateScores run.admits run.groupBy run.timeBucketSeconds run.cap run.first run.second

/-- The matching rows of a state by their group. -/
def ScoresRun.scored (run : ScoresRun α) (t : Sidecar α) : List (GroupKey × α) :=
  t.scored run.admits run.groupBy.eraseDups (run.timeBucketSeconds.getD 0 * 1000 : Nat)

/-- The groups the first query returns. -/
def ScoresRun.groups (run : ScoresRun α) : List GroupKey := groupKeys run.groupBy.eraseDups (run.scored run.first)

/-- The scores of a group that the second query gives to it: none if a group that the
first one did not return comes before it. -/
def ScoresRun.visible (run : ScoresRun α) (k : GroupKey) : List α :=
  if Overtaken run.groups (run.scored run.second) k then [] else valuesOf (run.scored run.second) k

/-- **A bucket belongs to its group**: all of it is that of the group in one committed
state, and its values are in order. -/
structure ScoresRun.Belongs (run : ScoresRun α) (bucket : ScoresAggregateBucket α) : Prop where
  oneState : ∃ t ∈ run.states, bucket = bucketOf bucket.key (valuesOf (run.scored t) bucket.key)
  ordered : bucket.scoreMin ≤ bucket.scoreP50 ∧ bucket.scoreP50 ≤ bucket.scoreP95 ∧ bucket.scoreP95 ≤ bucket.scoreMax

/-- The buckets: count, minimum and maximum of the first state, percentiles of the second. -/
theorem ScoresRun.result_eq {run : ScoresRun α} {buckets : List (ScoresAggregateBucket α)}
    (h : run.result = .ok buckets) :
    buckets = run.groups.map fun k => (aggRow (run.scored run.first) k).intoBucket
      (percentiles (run.visible k)).1 (percentiles (run.visible k)).2 := by
  unfold ScoresRun.result aggregateScores at h
  dsimp only at h
  split at h
  · cases h
  · split at h
    · cases h
    · rw [← Except.ok.inj h]
      exact walkGroups_eq (groupKeys_sorted _ _) _ _

end

/-! ## A row of a new group -/

/-- A reflection of a user, with its score in hundredths. -/
def scoredRow (memoryId originUserId score : Int) : SidecarRow ℤ :=
  { memoryId, originThreadId := 1, originUserId, originChannel := none, outcome := 1, score
    taskCategory := 1, reflectionAspect := 1, datasetQuality := 1, summaryEmbeddingStatus := 2
    intentEmbeddingStatus := 2, promptVersion := "v1", targetModelVersion := none, experimentId := none
    experimentVariant := none, pinned := false, isRecurrence := false, createdAt := 0 }

/-- One reflection of user 2. -/
def oneScore : Sidecar ℤ := ⟨[scoredRow 7 2 50], [], [], show [(7 : Int)].Nodup by decide⟩

/-- And one of user 1. -/
def twoScores : Sidecar ℤ := ⟨[scoredRow 7 2 50, scoredRow 8 1 30], [], [], show [(7 : Int), 8].Nodup by decide⟩

/-- The scores of every user, while a transaction leaves a state of the sidecar. -/
def byUser (after : Sidecar ℤ) : ScoresRun ℤ :=
  { admits := fun _ _ => true, groupBy := [.originUserId], timeBucketSeconds := none, cap := 10
    first := oneScore, transactions := [fun _ => after] }

/-- The bucket of user 2. -/
def bucketOfTwo (percentile : ℤ) : ScoresAggregateBucket ℤ := ⟨[.number 2], 1, 50, 50, percentile, percentile⟩

end MemoryStore.Reflection
