/-
Fusion is per memory where every memory has one row, and otherwise almost never.

The formulas were written for one row per memory. With more rows a rank counts
the rows above it, a sum counts every row of a memory, and the two-phase search
returns a memory as often as it was hit. `fusion_per_memory_iff` says of each
formula for which hit lists it does what it does to the best rows alone.
-/
import MemoryStore.MemorySearch.Fusion
import MemoryStore.Lib.FirstOfEach
import MemoryStore.Lib.SortedSet

namespace MemoryStore.MemorySearch

open FirstOfEach

/-! ## Ranked hit lists -/

/-- The answer of a search: best score first. -/
structure RankedHits where
  hits : List VectorSearchHit
  ranked : hits.Pairwise fun a b => b.score ≤ a.score

namespace RankedHits

variable (r : RankedHits)

/-- **The best row of each memory.** -/
def bestRows : RankedHits where
  hits := firstOfEach VectorSearchHit.memoryId r.hits
  ranked := r.ranked.sublist (firstOfEach_sublist _ _)

/-- No memory has two rows. -/
def OneRowEach : Prop := (r.hits.map VectorSearchHit.memoryId).Nodup

/-- The rows of a memory. -/
def rowsOf (id : Int) : List VectorSearchHit := r.hits.filter fun hit => hit.memoryId = id

/-- What a memory's rows after its best one score together. -/
def furtherScore (id : Int) : ℚ := (((r.rowsOf id).drop 1).map VectorSearchHit.score).sum

variable {r}

theorem bestRows_eq (h : r.OneRowEach) : r.bestRows.hits = r.hits := firstOfEach_eq_self _ h

theorem rowsOf_bestRows (id : Int) : r.bestRows.rowsOf id = (r.rowsOf id).take 1 := filter_firstOfEach _ id r.hits

theorem exists_bestRows (id : Int) :
    (∃ hit ∈ r.bestRows.hits, hit.memoryId = id) ↔ ∃ hit ∈ r.hits, hit.memoryId = id :=
  mem_keys_firstOfEach _ r.hits id

/-- A memory's rows score what its best one does and its further ones do. -/
theorem sum_rowsOf (r : RankedHits) (id : Int) :
    ((r.rowsOf id).map VectorSearchHit.score).sum =
      ((r.bestRows.rowsOf id).map VectorSearchHit.score).sum + r.furtherScore id := by
  rw [rowsOf_bestRows, furtherScore, ← List.sum_append, ← List.map_append, List.take_append_drop]

theorem length_bestRows_le (r : RankedHits) : r.bestRows.hits.length ≤ r.hits.length :=
  (firstOfEach_sublist _ _).length_le

theorem oneRowEach_iff : r.bestRows.hits.length = r.hits.length ↔ r.OneRowEach := length_firstOfEach_eq_iff _

end RankedHits

/-! ## Ranking fused scores -/

/-- **What a fusion owes**: each memory at most once, and what it makes of the best rows alone. -/
structure PerMemory (result reduced : List VectorSearchHit) : Prop where
  once : (result.map VectorSearchHit.memoryId).Nodup
  same : result = reduced

variable {order : HashOrder} {keys keys' : List Int} {score score' : Int → ℚ}

theorem sortByScore_perm (hits : List VectorSearchHit) : (sortByScore hits).Perm hits :=
  List.perm_insertionSort _ hits

theorem mem_rankScores {hit : VectorSearchHit} :
    hit ∈ rankScores order keys score ↔ ∃ id ∈ keys, fusedHit id (score id) = hit := by
  unfold rankScores
  rw [(sortByScore_perm _).mem_iff, List.mem_map]
  simp only [order.mem_arrange]

theorem nodup_rankScores : ((rankScores order keys score).map VectorSearchHit.memoryId).Nodup := by
  refine (((sortByScore_perm _).map _).nodup_iff).2 ?_
  rw [List.map_map]
  have hid : (VectorSearchHit.memoryId ∘ fun id => fusedHit id (score id)) = id := rfl
  rw [hid, List.map_id]
  exact order.nodup _

theorem nodup_take_rankScores (limit : ℕ) :
    (((rankScores order keys score).take limit).map VectorSearchHit.memoryId).Nodup :=
  nodup_rankScores.sublist ((List.take_sublist _ _).map _)

theorem length_rankScores_le : (rankScores order keys score).length ≤ keys.length := by
  unfold rankScores
  rw [(sortByScore_perm _).length_eq, List.length_map]
  exact ((order.nodup keys).subperm fun id hid => order.mem_arrange.1 hid).length_le

/-- The ranking depends on the memories and their scores alone. -/
theorem rankScores_congr (hkeys : ∀ id, id ∈ keys ↔ id ∈ keys') (hscore : ∀ id ∈ keys, score id = score' id) :
    rankScores order keys score = rankScores order keys' score' := by
  unfold rankScores
  rw [← order.arrange_congr hkeys]
  congr 1
  refine List.map_congr_left fun id hid => ?_
  rw [hscore id (order.mem_arrange.1 hid)]

/-- Equal rankings give every memory the same score. -/
theorem rankScores_injective (h : rankScores order keys score = rankScores order keys' score') {id : Int}
    (hid : id ∈ keys) : score id = score' id := by
  have hmem : fusedHit id (score id) ∈ rankScores order keys' score' := h ▸ mem_rankScores.2 ⟨id, hid, rfl⟩
  obtain ⟨id', -, heq⟩ := mem_rankScores.1 hmem
  obtain ⟨hsame, hvalue⟩ : id' = id ∧ score' id' = score id :=
    ⟨congrArg VectorSearchHit.memoryId heq, congrArg VectorSearchHit.score heq⟩
  rw [← hvalue, hsame]

/-- Enough room for every memory. -/
theorem take_rankScores {limit : ℕ} (h : keys.length ≤ limit) :
    (rankScores order keys score).take limit = rankScores order keys score :=
  List.take_of_length_le (length_rankScores_le.trans h)

/-! ## Two lists added up -/

section TwoLists

variable {α : Type} {key : α → Int} {value value' : α → ℚ}

theorem mem_keys_both (vec fts : List α) (id : Int) :
    id ∈ (KeyMap.tally key value' fts (KeyMap.tally key value vec ∅)).keys ↔
      (∃ hit ∈ vec, key hit = id) ∨ ∃ hit ∈ fts, key hit = id := by
  rw [KeyMap.mem_keys_tally, KeyMap.mem_keys_tally]
  simp

theorem total_both (vec fts : List α) (id : Int) :
    (KeyMap.tally key value' fts (KeyMap.tally key value vec ∅)).total id =
      ((vec.filter fun hit => key hit = id).map value).sum +
        ((fts.filter fun hit => key hit = id).map value').sum := by
  rw [KeyMap.total_tally, KeyMap.total_tally, KeyMap.total_empty, zero_add]

end TwoLists

/-! ## Reciprocal rank fusion -/

/-- What the ranks of a list of some length add up to. -/
def rankSum (k : ℚ) (n : ℕ) : ℚ := ∑ rank ∈ Finset.range n, 1 / ((rank : ℚ) + k)

theorem rankSum_le {k : ℚ} (hk : 0 < k) {m n : ℕ} (h : m ≤ n) : rankSum k m ≤ rankSum k n :=
  Finset.sum_le_sum_of_subset_of_nonneg (Finset.range_subset_range.2 h) fun _ _ _ => by positivity

theorem rankSum_lt {k : ℚ} (hk : 0 < k) {m n : ℕ} (h : m < n) : rankSum k m < rankSum k n := by
  refine lt_of_lt_of_le ?_ (rankSum_le hk (Nat.succ_le_of_lt h))
  unfold rankSum
  rw [Finset.sum_range_succ]
  have hpos : 0 < 1 / ((m : ℚ) + k) := by positivity
  linarith

/-- **Ranks of no more rows add up to as much only where there are as many.** -/
theorem rankSum_add_eq_iff {k : ℚ} (hk : 0 < k) {m m' n n' : ℕ} (h : m' ≤ m) (h' : n' ≤ n) :
    rankSum k m' + rankSum k n' = rankSum k m + rankSum k n ↔ m' = m ∧ n' = n := by
  constructor
  · intro heq
    have hm := rankSum_le hk h
    have hn := rankSum_le hk h'
    constructor
    · by_contra hne
      have := rankSum_lt hk (Nat.lt_of_le_of_ne h hne)
      linarith
    · by_contra hne
      have := rankSum_lt hk (Nat.lt_of_le_of_ne h' hne)
      linarith
  · rintro ⟨rfl, rfl⟩
    rfl

theorem sum_reciprocalRank_from (k : ℚ) : ∀ (hits : List VectorSearchHit) (start : ℕ),
    ((hits.zipIdx start).map (reciprocalRank k)).sum =
      ∑ i ∈ Finset.range hits.length, 1 / (((start + i : ℕ) : ℚ) + k)
  | [], _ => rfl
  | hit :: hits, start => by
    rw [List.zipIdx_cons, List.map_cons, List.sum_cons, sum_reciprocalRank_from k hits (start + 1),
      List.length_cons, Finset.sum_range_succ', add_comm]
    congr 1
    exact Finset.sum_congr rfl fun i _ => by rw [Nat.add_assoc, Nat.add_comm 1 i]

theorem sum_reciprocalRank (k : ℚ) (hits : List VectorSearchHit) :
    (hits.zipIdx.map (reciprocalRank k)).sum = rankSum k hits.length := by
  rw [sum_reciprocalRank_from]
  unfold rankSum
  exact Finset.sum_congr rfl fun i _ => by rw [Nat.zero_add]

theorem exists_zipIdx (hits : List VectorSearchHit) (id : Int) :
    (∃ hit ∈ hits.zipIdx, hit.1.memoryId = id) ↔ ∃ hit ∈ hits, hit.memoryId = id := by
  have hfst : hits.zipIdx.map Prod.fst = hits := List.zipIdx_map_fst 0 hits
  conv_rhs => rw [← hfst]
  simp only [List.mem_map, exists_exists_and_eq_and]

/-- The scores of a reciprocal rank fusion. -/
def rrfScores (k : ℚ) (vec fts : List VectorSearchHit) : KeyMap Int ℚ :=
  KeyMap.tally (fun hit => hit.1.memoryId) (reciprocalRank k) fts.zipIdx
    (KeyMap.tally (fun hit => hit.1.memoryId) (reciprocalRank k) vec.zipIdx ∅)

theorem mergeRrf_eq (order : HashOrder) (vec fts : List VectorSearchHit) (k : ℚ) (limit : ℕ) :
    mergeRrf order vec fts k limit =
      (rankScores order (rrfScores k vec fts).keys (rrfScores k vec fts).total).take limit := rfl

theorem mem_keys_rrfScores {k : ℚ} {vec fts : List VectorSearchHit} {id : Int} :
    id ∈ (rrfScores k vec fts).keys ↔ (∃ hit ∈ vec, hit.memoryId = id) ∨ ∃ hit ∈ fts, hit.memoryId = id := by
  unfold rrfScores
  rw [mem_keys_both, exists_zipIdx, exists_zipIdx]

/-- All scores of a fusion together are what the ranks add up to. -/
theorem sum_rrfScores (k : ℚ) (vec fts : List VectorSearchHit) (ids : Finset Int)
    (h : ∀ id ∈ (rrfScores k vec fts).keys, id ∈ ids) :
    ∑ id ∈ ids, (rrfScores k vec fts).total id = rankSum k vec.length + rankSum k fts.length := by
  have hvec : ∀ hit ∈ vec.zipIdx, hit.1.memoryId ∈ ids := fun hit hhit =>
    h _ (mem_keys_rrfScores.2 (.inl ((exists_zipIdx vec _).1 ⟨hit, hhit, rfl⟩)))
  have hfts : ∀ hit ∈ fts.zipIdx, hit.1.memoryId ∈ ids := fun hit hhit =>
    h _ (mem_keys_rrfScores.2 (.inr ((exists_zipIdx fts _).1 ⟨hit, hhit, rfl⟩)))
  unfold rrfScores
  simp only [total_both, Finset.sum_add_distrib]
  rw [KeyMap.sum_filter_key ids hvec, KeyMap.sum_filter_key ids hfts, sum_reciprocalRank, sum_reciprocalRank]

/-- **Reciprocal rank fusion is per memory just for lists with one row each.** -/
theorem mergeRrf_perMemory_iff (order : HashOrder) (vec fts : RankedHits) :
    (∀ k limit, PerMemory (mergeRrf order vec.hits fts.hits k limit)
      (mergeRrf order vec.bestRows.hits fts.bestRows.hits k limit)) ↔ vec.OneRowEach ∧ fts.OneRowEach := by
  constructor
  · intro h
    -- with room for every memory, the scores agree one by one, so all together
    set scores := rrfScores 60 vec.hits fts.hits with hscores
    set reduced := rrfScores 60 vec.bestRows.hits fts.bestRows.hits with hreduced
    have hkeys : ∀ id, id ∈ reduced.keys ↔ id ∈ scores.keys := fun id => by
      rw [mem_keys_rrfScores, mem_keys_rrfScores, RankedHits.exists_bestRows, RankedHits.exists_bestRows]
    have hsame := (h 60 (scores.keys.length + reduced.keys.length)).same
    rw [mergeRrf_eq, mergeRrf_eq, ← hscores, ← hreduced, take_rankScores (by omega), take_rankScores (by omega)] at hsame
    have hsum : ∑ id ∈ scores.keys.toFinset, reduced.total id = ∑ id ∈ scores.keys.toFinset, scores.total id :=
      Finset.sum_congr rfl fun id hid => (rankScores_injective hsame (List.mem_toFinset.1 hid)).symm
    rw [sum_rrfScores 60 _ _ _ fun id hid => List.mem_toFinset.2 ((hkeys id).1 hid),
      sum_rrfScores 60 _ _ _ fun id hid => List.mem_toFinset.2 hid,
      rankSum_add_eq_iff (by norm_num) vec.length_bestRows_le fts.length_bestRows_le] at hsum
    exact ⟨RankedHits.oneRowEach_iff.1 hsum.1, RankedHits.oneRowEach_iff.1 hsum.2⟩
  · rintro ⟨hvec, hfts⟩ k limit
    exact ⟨nodup_take_rankScores limit, by rw [RankedHits.bestRows_eq hvec, RankedHits.bestRows_eq hfts]⟩

/-! ## Weighted fusion -/

/-- The scores lie between zero and one. -/
def InUnit (hits : List VectorSearchHit) : Prop := ∀ hit ∈ hits, 0 ≤ hit.score ∧ hit.score ≤ 1

/-- The scores of a weighted fusion. -/
def weightedScores (vectorWeight : ℚ) (vec fts : List VectorSearchHit) : KeyMap Int ℚ :=
  KeyMap.tally VectorSearchHit.memoryId (fun hit => hit.score * (1 - vectorWeight)) fts
    (KeyMap.tally VectorSearchHit.memoryId (fun hit => hit.score * vectorWeight) vec ∅)

theorem mergeWeighted_eq (order : HashOrder) (vec fts : List VectorSearchHit) (vectorWeight : ℚ) (limit : ℕ) :
    mergeWeighted order vec fts vectorWeight limit =
      (rankScores order (weightedScores vectorWeight vec fts).keys
        (weightedScores vectorWeight vec fts).total).take limit := rfl

theorem mem_keys_weightedScores {vectorWeight : ℚ} {vec fts : List VectorSearchHit} {id : Int} :
    id ∈ (weightedScores vectorWeight vec fts).keys ↔
      (∃ hit ∈ vec, hit.memoryId = id) ∨ ∃ hit ∈ fts, hit.memoryId = id :=
  mem_keys_both vec fts id

/-- A memory's score is the blend of what its rows score in each list. -/
theorem total_weightedScores (vectorWeight : ℚ) (vec fts : RankedHits) (id : Int) :
    (weightedScores vectorWeight vec.hits fts.hits).total id =
      ((vec.rowsOf id).map VectorSearchHit.score).sum * vectorWeight +
        ((fts.rowsOf id).map VectorSearchHit.score).sum * (1 - vectorWeight) := by
  unfold weightedScores
  rw [total_both, List.sum_map_mul_right, List.sum_map_mul_right]
  rfl

theorem RankedHits.furtherScore_eq_zero {r : RankedHits} {id : Int} (h : ¬ ∃ hit ∈ r.hits, hit.memoryId = id) :
    r.furtherScore id = 0 := by
  have hrows : r.rowsOf id = [] := List.filter_eq_nil_iff.2 fun hit hhit hid => h ⟨hit, hhit, by simpa using hid⟩
  unfold RankedHits.furtherScore
  rw [hrows]
  rfl

/-- The best row of a memory scores between zero and one where all rows do. -/
theorem RankedHits.sum_bestRows_inUnit {r : RankedHits} (h : InUnit r.hits) (id : Int) :
    0 ≤ ((r.bestRows.rowsOf id).map VectorSearchHit.score).sum ∧
      ((r.bestRows.rowsOf id).map VectorSearchHit.score).sum ≤ 1 := by
  rw [rowsOf_bestRows]
  cases hrows : r.rowsOf id with
  | nil => simp
  | cons hit rest =>
    have hmem : hit ∈ r.rowsOf id := hrows ▸ List.mem_cons_self
    have hunit := h hit (List.mem_of_mem_filter hmem)
    simpa using hunit

/-- **Weighted fusion is per memory, and a blend, just where further rows add up to nothing.** -/
theorem mergeWeighted_perMemory_iff (order : HashOrder) (vec fts : RankedHits) :
    (∀ vectorWeight limit, PerMemory (mergeWeighted order vec.hits fts.hits vectorWeight limit)
        (mergeWeighted order vec.bestRows.hits fts.bestRows.hits vectorWeight limit) ∧
      (InUnit vec.hits → InUnit fts.hits → 0 ≤ vectorWeight → vectorWeight ≤ 1 →
        InUnit (mergeWeighted order vec.hits fts.hits vectorWeight limit))) ↔
      ∀ id, vec.furtherScore id = 0 ∧ fts.furtherScore id = 0 := by
  have hkeys : ∀ w id, id ∈ (weightedScores w vec.hits fts.hits).keys ↔
      id ∈ (weightedScores w vec.bestRows.hits fts.bestRows.hits).keys := fun w id => by
    rw [mem_keys_weightedScores, mem_keys_weightedScores, RankedHits.exists_bestRows, RankedHits.exists_bestRows]
  have htotal : ∀ w id, (weightedScores w vec.hits fts.hits).total id =
      (weightedScores w vec.bestRows.hits fts.bestRows.hits).total id +
        (vec.furtherScore id * w + fts.furtherScore id * (1 - w)) := fun w id => by
    rw [total_weightedScores, total_weightedScores, vec.sum_rowsOf, fts.sum_rowsOf]
    ring
  constructor
  · intro h id
    by_cases hid : id ∈ (weightedScores 1 vec.hits fts.hits).keys
    · have hfurther : ∀ w, vec.furtherScore id * w + fts.furtherScore id * (1 - w) = 0 := by
        intro w
        have hsame := (h w ((weightedScores w vec.hits fts.hits).keys.length +
          (weightedScores w vec.bestRows.hits fts.bestRows.hits).keys.length)).1.same
        rw [mergeWeighted_eq, mergeWeighted_eq, take_rankScores (by omega), take_rankScores (by omega)] at hsame
        have hscore := rankScores_injective hsame (mem_keys_weightedScores.2 (mem_keys_weightedScores.1 hid))
        have := htotal w id
        linarith
      -- all weight on one list and then on the other
      have hone := hfurther 1
      have hzero := hfurther 0
      constructor <;> linarith
    · rw [mem_keys_weightedScores, not_or] at hid
      exact ⟨RankedHits.furtherScore_eq_zero hid.1, RankedHits.furtherScore_eq_zero hid.2⟩
  · intro h w limit
    refine ⟨⟨nodup_take_rankScores limit, ?_⟩, fun hvec hfts h0 h1 hit hhit => ?_⟩
    · rw [mergeWeighted_eq, mergeWeighted_eq]
      refine congrArg (List.take limit) (rankScores_congr (hkeys w) fun id _ => ?_)
      have hid := htotal w id
      rw [(h id).1, (h id).2] at hid
      linarith
    · rw [mergeWeighted_eq] at hhit
      obtain ⟨id, -, rfl⟩ := mem_rankScores.1 (List.mem_of_mem_take hhit)
      change 0 ≤ (weightedScores w vec.hits fts.hits).total id ∧ (weightedScores w vec.hits fts.hits).total id ≤ 1
      obtain ⟨hv0, hv1⟩ := vec.sum_bestRows_inUnit hvec id
      obtain ⟨hf0, hf1⟩ := fts.sum_bestRows_inUnit hfts id
      rw [htotal, (h id).1, (h id).2, total_weightedScores]
      constructor <;> nlinarith

/-! ## Two phases -/

/-- The primary hits that go into the second phase. -/
def RankedHits.kept (r : RankedHits) : List VectorSearchHit := r.hits.take maxHybridCandidates

def RankedHits.candidates (r : RankedHits) : Finset Int := (r.kept.map VectorSearchHit.memoryId).toFinset

/-- **One row each where it counts**: the hits kept are of different memories, and a memory among them has
one score in the secondary hits. -/
structure OneScoreEach (primary secondary : RankedHits) : Prop where
  kept : (primary.kept.map VectorSearchHit.memoryId).Nodup
  scores : ∀ hit ∈ primary.kept, ∀ a ∈ secondary.rowsOf hit.memoryId, ∀ b ∈ secondary.rowsOf hit.memoryId,
    a.score = b.score

/-- The score blended in for a memory: that of its last secondary row. -/
def secondaryScore (secondary : RankedHits) (id : Int) : ℚ :=
  ((secondary.rowsOf id).getLast?.map VectorSearchHit.score).getD 0

theorem blend_eq (vectorFirst : Bool) (vectorWeight : ℚ) (secondary : RankedHits) (hit : VectorSearchHit) :
    blend vectorFirst vectorWeight secondary.hits hit =
      { hit with
        score := hit.score * (if vectorFirst then vectorWeight else 1 - vectorWeight) +
          secondaryScore secondary hit.memoryId * (if vectorFirst then 1 - vectorWeight else vectorWeight)
        distance := 0 } := by
  unfold blend secondaryScore RankedHits.rowsOf
  simp only [KeyMap.lookup_collect_last]
  cases vectorFirst <;> rfl

/-- The last row of a memory scores as its best one exactly where all its rows do. -/
theorem secondaryScore_bestRows_iff (secondary : RankedHits) (id : Int) :
    secondaryScore secondary.bestRows id = secondaryScore secondary id ↔
      ∀ a ∈ secondary.rowsOf id, ∀ b ∈ secondary.rowsOf id, a.score = b.score := by
  unfold secondaryScore
  rw [RankedHits.rowsOf_bestRows]
  have hranked : (secondary.rowsOf id).Pairwise fun a b => b.score ≤ a.score :=
    secondary.ranked.sublist List.filter_sublist
  cases hrows : secondary.rowsOf id with
  | nil => simp
  | cons first rest =>
    rw [hrows] at hranked
    have hlast : (first :: rest).getLast? = some ((first :: rest).getLast (List.cons_ne_nil _ _)) :=
      List.getLast?_eq_some_getLast _
    rw [hlast]
    set last := (first :: rest).getLast (List.cons_ne_nil _ _) with hlastdef
    have hmem : last ∈ first :: rest := List.getLast_mem _
    change first.score = last.score ↔ _
    constructor
    · intro heq
      have hall : ∀ a ∈ first :: rest, a.score = first.score := by
        intro a ha
        -- between the first and the last
        have hle : a.score ≤ first.score := by
          rcases List.mem_cons.1 ha with rfl | ha
          · exact le_refl _
          · exact (List.pairwise_cons.1 hranked).1 a ha
        have hge : last.score ≤ a.score := by
          rcases eq_or_ne a last with rfl | hne
          · exact le_refl _
          · have hsplit := List.dropLast_append_getLast (List.cons_ne_nil first rest)
            rw [← hlastdef] at hsplit
            rw [← hsplit] at ha hranked
            have ha' : a ∈ (first :: rest).dropLast := by
              rcases List.mem_append.1 ha with h | h
              · exact h
              · exact absurd (List.mem_singleton.1 h) hne
            exact (List.pairwise_append.1 hranked).2.2 a ha' last (List.mem_singleton.2 rfl)
        linarith
      exact fun a ha b hb => (hall a ha).trans (hall b hb).symm
    · exact fun h => h first List.mem_cons_self last hmem

theorem twoPhaseHybridSearch_eq (primaryHits : List VectorSearchHit)
    (secondarySearch : Finset Int → List VectorSearchHit) (limit : ℕ) {options : HybridOptions} (vectorFirst : Bool)
    (hweight : options.validateVectorWeight = .ok ()) :
    twoPhaseHybridSearch primaryHits secondarySearch limit options vectorFirst =
      .ok ((sortByScore ((primaryHits.take maxHybridCandidates).map
        (blend vectorFirst (options.vectorWeight.getD defaultVectorWeight)
          (secondarySearch ((primaryHits.take maxHybridCandidates).map VectorSearchHit.memoryId).toFinset)))).take
        limit) := by
  unfold twoPhaseHybridSearch
  rw [hweight]
  cases primaryHits with
  | nil => exact congrArg Except.ok (by simp [sortByScore])
  | cons => rfl

/-- **The two-phase search is per memory just where the kept hits have one row and one score each.** -/
theorem twoPhase_perMemory_iff (primary : RankedHits) (secondary : Finset Int → RankedHits) (vectorFirst : Bool) :
    (∀ limit options result,
      twoPhaseHybridSearch primary.hits (fun ids => (secondary ids).hits) limit options vectorFirst = .ok result →
      ∃ reduced, twoPhaseHybridSearch primary.bestRows.hits (fun ids => (secondary ids).bestRows.hits) limit options
        vectorFirst = .ok reduced ∧ PerMemory result reduced) ↔
      OneScoreEach primary (secondary primary.candidates) := by
  have hblend : ∀ (w : ℚ) (s : RankedHits) (hits : List VectorSearchHit),
      (hits.map (blend vectorFirst w s.hits)).map VectorSearchHit.memoryId =
        hits.map VectorSearchHit.memoryId := fun w s hits => by
    rw [List.map_map]
    exact List.map_congr_left fun hit _ => by rw [Function.comp_apply, blend_eq]
  constructor
  · intro h
    -- all the weight on the secondary score, and room for every hit
    obtain ⟨w, hw, hsec⟩ : ∃ w : ℚ, (0 ≤ w ∧ w ≤ 1) ∧ (if vectorFirst then 1 - w else w) = 1 := by
      cases vectorFirst
      · exact ⟨1, ⟨by norm_num, by norm_num⟩, by simp⟩
      · exact ⟨0, ⟨by norm_num, by norm_num⟩, by simp⟩
    have hweight : (⟨.vectorThenFts, some w, none⟩ : HybridOptions).validateVectorWeight = .ok () := if_pos hw
    obtain ⟨reduced, hreduced, hper⟩ := h maxHybridCandidates ⟨.vectorThenFts, some w, none⟩ _
      (twoPhaseHybridSearch_eq primary.hits _ maxHybridCandidates vectorFirst hweight)
    rw [twoPhaseHybridSearch_eq _ _ _ _ hweight] at hreduced
    obtain rfl := Except.ok.inj hreduced
    have hroom : ∀ (hits : List VectorSearchHit) (f : VectorSearchHit → VectorSearchHit),
        (sortByScore ((hits.take maxHybridCandidates).map f)).take maxHybridCandidates =
          sortByScore ((hits.take maxHybridCandidates).map f) := fun hits f => by
      refine List.take_of_length_le ?_
      rw [(sortByScore_perm _).length_eq, List.length_map, List.length_take]
      exact Nat.min_le_left _ _
    have hkept : (primary.kept.map VectorSearchHit.memoryId).Nodup := by
      have honce := hper.once
      rw [hroom] at honce
      have hids := (((sortByScore_perm _).map VectorSearchHit.memoryId).nodup_iff).1 honce
      exact hblend w _ primary.kept ▸ hids
    refine ⟨hkept, fun hit hhit => ?_⟩
    have hstart : primary.bestRows.hits.take maxHybridCandidates = primary.kept := take_firstOfEach _ hkept
    have hsame := hper.same
    rw [hroom, hroom, hstart] at hsame
    change sortByScore (primary.kept.map (blend vectorFirst w (secondary primary.candidates).hits)) =
      sortByScore (primary.kept.map (blend vectorFirst w (secondary primary.candidates).bestRows.hits)) at hsame
    -- the hit comes back once, with one score
    have hmem : blend vectorFirst w (secondary primary.candidates).hits hit ∈
        primary.kept.map (blend vectorFirst w (secondary primary.candidates).bestRows.hits) := by
      rw [← (sortByScore_perm _).mem_iff, ← hsame, (sortByScore_perm _).mem_iff]
      exact List.mem_map_of_mem hhit
    obtain ⟨hit', hhit', heq⟩ := List.mem_map.1 hmem
    rw [blend_eq, blend_eq] at heq
    have hid := congrArg VectorSearchHit.memoryId heq
    dsimp only at hid
    obtain rfl : hit' = hit := List.inj_on_of_nodup_map hkept hhit' hhit hid
    have hscore := congrArg VectorSearchHit.score heq
    dsimp only at hscore
    rw [hsec] at hscore
    exact (secondaryScore_bestRows_iff _ _).1 (by linarith)
  · rintro ⟨hkept, hscores⟩ limit options result h
    have hweight : options.validateVectorWeight = .ok () := by
      unfold twoPhaseHybridSearch at h
      cases hv : options.validateVectorWeight with
      | ok => rfl
      | error e => rw [hv] at h; cases h
    have hstart : primary.bestRows.hits.take maxHybridCandidates = primary.kept := take_firstOfEach _ hkept
    rw [twoPhaseHybridSearch_eq _ _ _ _ hweight] at h
    obtain rfl := Except.ok.inj h
    refine ⟨_, twoPhaseHybridSearch_eq _ _ _ _ hweight, ?_, ?_⟩
    · refine List.Nodup.sublist ((List.take_sublist _ _).map _) ?_
      rw [((sortByScore_perm _).map VectorSearchHit.memoryId).nodup_iff, hblend]
      exact hkept
    · rw [hstart]
      refine congrArg (fun hits => (sortByScore hits).take limit) (List.map_congr_left fun hit hhit => ?_)
      change blend vectorFirst _ (secondary primary.candidates).hits hit =
        blend vectorFirst _ (secondary primary.candidates).bestRows.hits hit
      rw [blend_eq, blend_eq, (secondaryScore_bestRows_iff _ _).2 (hscores hit hhit)]

/-! ## Several query vectors -/

/-- The rows of a memory over all lists. -/
def memoryRows (allHits : List (List VectorSearchHit)) (id : Int) : List RankedRow :=
  (rankedRowsFrom 0 allHits).filter fun row => row.hit.memoryId = id

theorem rankedRowsFrom_hits : ∀ (start : ℕ) (allHits : List (List VectorSearchHit)),
    (rankedRowsFrom start allHits).map RankedRow.hit = allHits.flatten
  | _, [] => rfl
  | start, hits :: rest => by
    unfold rankedRowsFrom
    rw [List.map_append, List.map_map, rankedRowsFrom_hits (start + 1) rest, List.flatten_cons]
    congr 1
    exact List.zipIdx_map_fst 0 hits

/-- The memories of an aggregation. -/
def aggregateKeys (allHits : List (List VectorSearchHit)) : List Int :=
  (KeyMap.group (fun row : RankedRow => row.hit.memoryId) id (rankedRowsFrom 0 allHits)).keys

theorem mem_aggregateKeys {allHits : List (List VectorSearchHit)} {id : Int} :
    id ∈ aggregateKeys allHits ↔ ∃ hits ∈ allHits, ∃ hit ∈ hits, hit.memoryId = id := by
  have hflat : (∃ row ∈ rankedRowsFrom 0 allHits, row.hit.memoryId = id) ↔
      ∃ hit ∈ allHits.flatten, hit.memoryId = id := by
    rw [← rankedRowsFrom_hits 0 allHits]
    simp only [List.mem_map, exists_exists_and_eq_and]
  unfold aggregateKeys
  rw [KeyMap.mem_keys_iff, KeyMap.lookup_group]
  have hany : (rankedRowsFrom 0 allHits).any (fun row => row.hit.memoryId = id) = true ↔
      ∃ row ∈ rankedRowsFrom 0 allHits, row.hit.memoryId = id := by
    rw [List.any_eq_true]
    simp only [decide_eq_true_eq]
  rw [hflat] at hany
  have hnested : (∃ hit ∈ allHits.flatten, hit.memoryId = id) ↔ ∃ hits ∈ allHits, ∃ hit ∈ hits, hit.memoryId = id := by
    simp only [List.mem_flatten]
    constructor
    · rintro ⟨hit, ⟨hits, hhits, hhit⟩, hid⟩
      exact ⟨hits, hhits, hit, hhit, hid⟩
    · rintro ⟨hits, hhits, hit, hhit, hid⟩
      exact ⟨hit, ⟨hits, hhits, hhit⟩, hid⟩
  rw [← hnested, ← hany]
  split
  next h => simp [h]
  next h => simp [h]

theorem aggregateScores_eq (order : HashOrder) (allHits : List (List VectorSearchHit)) (strategy : AggregationStrategy) :
    aggregateScores order allHits strategy = rankScores order (aggregateKeys allHits)
      fun id => aggregateRows strategy allHits.length (memoryRows allHits id) := by
  unfold aggregateScores
  refine rankScores_congr (fun _ => Iff.rfl) fun id _ => ?_
  rw [KeyMap.lookup_group]
  congr 1
  unfold memoryRows
  split
  next => simp
  next h =>
    rw [List.filter_eq_nil_iff.2]
    · rfl
    · intro row hrow hid
      exact h (List.any_eq_true.2 ⟨row, hrow, hid⟩)

/-- Hits and best rows of several searches. -/
def hitsOf (lists : List RankedHits) : List (List VectorSearchHit) := lists.map RankedHits.hits

def bestHitsOf (lists : List RankedHits) : List (List VectorSearchHit) := lists.map fun r => r.bestRows.hits

theorem bestHitsOf_eq (lists : List RankedHits) : bestHitsOf lists = hitsOf (lists.map RankedHits.bestRows) := by
  unfold bestHitsOf hitsOf
  rw [List.map_map]
  rfl

theorem mem_aggregateKeys_best {lists : List RankedHits} {id : Int} :
    id ∈ aggregateKeys (hitsOf lists) ↔ id ∈ aggregateKeys (bestHitsOf lists) := by
  rw [mem_aggregateKeys, mem_aggregateKeys]
  unfold hitsOf bestHitsOf
  simp only [List.mem_map, exists_exists_and_eq_and, RankedHits.exists_bestRows]

/-- **The aggregation is per memory exactly where the memories' scores are those of their best rows.** -/
theorem aggregate_perMemory_iff_scores (order : HashOrder) (lists : List RankedHits) (strategy : AggregationStrategy) :
    PerMemory (aggregateScores order (hitsOf lists) strategy) (aggregateScores order (bestHitsOf lists) strategy) ↔
      ∀ id ∈ aggregateKeys (hitsOf lists), aggregateRows strategy lists.length (memoryRows (hitsOf lists) id) =
        aggregateRows strategy lists.length (memoryRows (bestHitsOf lists) id) := by
  have hlen : (hitsOf lists).length = lists.length := List.length_map ..
  have hlen' : (bestHitsOf lists).length = lists.length := List.length_map ..
  rw [aggregateScores_eq, aggregateScores_eq, hlen, hlen']
  constructor
  · exact fun h id hid => rankScores_injective h.same hid
  · exact fun h => ⟨nodup_rankScores, rankScores_congr (fun _ => mem_aggregateKeys_best) h⟩

/-- What a list's rows of a memory add up to, weighted by the position of the list. -/
theorem sum_memoryRows_from (weight : ℕ → ℚ) (id : Int) : ∀ (lists : List RankedHits) (start : ℕ),
    (((rankedRowsFrom start (hitsOf lists)).filter fun row => row.hit.memoryId = id).map fun row =>
        row.hit.score * weight row.vecIdx).sum =
      ((lists.zipIdx start).map fun r => ((r.1.rowsOf id).map VectorSearchHit.score).sum * weight r.2).sum
  | [], _ => rfl
  | r :: lists, start => by
    have hrest := sum_memoryRows_from weight id lists (start + 1)
    unfold hitsOf at hrest ⊢
    rw [List.map_cons]
    unfold rankedRowsFrom
    rw [List.filter_append, List.map_append, List.sum_append, hrest, List.zipIdx_cons, List.map_cons, List.sum_cons]
    congr 1
    have hrows : r.rowsOf id = (r.hits.zipIdx.filter fun hit => hit.1.memoryId = id).map Prod.fst := by
      unfold RankedHits.rowsOf
      conv_lhs => rw [← List.zipIdx_map_fst 0 r.hits, List.filter_map]
      rfl
    rw [hrows, List.filter_map, List.map_map, List.map_map, ← List.sum_map_mul_right]
    rfl

/-- How much a list counts at its position. -/
def positionWeight (strategy : AggregationStrategy) (i : ℕ) : ℚ :=
  match strategy with
  | .weightedByPosition => 1 / ((i : ℚ) + 1)
  | _ => 1

/-- What the further rows of a memory add to its score. -/
def furtherTotal (strategy : AggregationStrategy) (lists : List RankedHits) (id : Int) : ℚ :=
  (lists.zipIdx.map fun r => r.1.furtherScore id * positionWeight strategy r.2).sum

theorem sum_zipIdx_rowsOf (weight : ℕ → ℚ) (id : Int) : ∀ (lists : List RankedHits) (start : ℕ),
    ((lists.zipIdx start).map fun r => ((r.1.rowsOf id).map VectorSearchHit.score).sum * weight r.2).sum =
      (((lists.map RankedHits.bestRows).zipIdx start).map fun r =>
          ((r.1.rowsOf id).map VectorSearchHit.score).sum * weight r.2).sum +
        ((lists.zipIdx start).map fun r => r.1.furtherScore id * weight r.2).sum
  | [], _ => by simp
  | r :: lists, start => by
    rw [List.map_cons, List.zipIdx_cons, List.zipIdx_cons, List.map_cons, List.map_cons, List.map_cons,
      List.sum_cons, List.sum_cons, List.sum_cons, sum_zipIdx_rowsOf weight id lists (start + 1), r.sum_rowsOf]
    ring

/-- The rows of a memory score what its best rows and its further ones do. -/
theorem sum_memoryRows (strategy : AggregationStrategy) (lists : List RankedHits) (id : Int) :
    ((memoryRows (hitsOf lists) id).map fun row => row.hit.score * positionWeight strategy row.vecIdx).sum =
      ((memoryRows (bestHitsOf lists) id).map fun row => row.hit.score * positionWeight strategy row.vecIdx).sum +
        furtherTotal strategy lists id := by
  unfold memoryRows furtherTotal
  rw [bestHitsOf_eq, sum_memoryRows_from, sum_memoryRows_from, sum_zipIdx_rowsOf]

theorem furtherTotal_eq_zero {strategy : AggregationStrategy} {lists : List RankedHits} {id : Int}
    (h : id ∉ aggregateKeys (hitsOf lists)) : furtherTotal strategy lists id = 0 := by
  rw [mem_aggregateKeys] at h
  have hnone : ∀ r ∈ lists.zipIdx, r.1.furtherScore id * positionWeight strategy r.2 = 0 := by
    intro r hr
    have hmem : r.1 ∈ lists := (List.mem_zipIdx' hr).2 ▸ List.getElem_mem _
    have hzero : r.1.furtherScore id = 0 :=
      RankedHits.furtherScore_eq_zero fun hex => h ⟨_, List.mem_map_of_mem hmem, hex⟩
    rw [hzero, zero_mul]
  exact List.sum_eq_zero fun x hx => by
    obtain ⟨r, hr, rfl⟩ := List.mem_map.1 hx
    exact hnone r hr

/-- What the ranks of several lists add up to. -/
theorem sum_ranks_from : ∀ (lists : List RankedHits) (start : ℕ),
    ((rankedRowsFrom start (hitsOf lists)).map fun row => 1 / ((row.rank : ℚ) + 60)).sum =
      (lists.map fun r => rankSum 60 r.hits.length).sum
  | [], _ => rfl
  | r :: lists, start => by
    have hrest := sum_ranks_from lists (start + 1)
    unfold hitsOf at hrest ⊢
    rw [List.map_cons]
    unfold rankedRowsFrom
    rw [List.map_append, List.sum_append, hrest, List.map_cons, List.sum_cons, List.map_map,
      ← sum_reciprocalRank 60 r.hits]
    rfl

/-- All rank fusion scores together are what the ranks add up to. -/
theorem sum_rankFusion (lists : List RankedHits) (ids : Finset Int) (h : ∀ id ∈ aggregateKeys (hitsOf lists), id ∈ ids) :
    ∑ id ∈ ids, aggregateRows .rankFusion lists.length (memoryRows (hitsOf lists) id) =
      (lists.map fun r => rankSum 60 r.hits.length).sum := by
  rw [← sum_ranks_from lists 0]
  refine KeyMap.sum_filter_key ids fun row hrow => h _ ?_
  have hhit : row.hit ∈ (hitsOf lists).flatten := rankedRowsFrom_hits 0 (hitsOf lists) ▸ List.mem_map_of_mem hrow
  obtain ⟨hits, hhits, hhit⟩ := List.mem_flatten.1 hhit
  exact mem_aggregateKeys.2 ⟨hits, hhits, row.hit, hhit, rfl⟩

/-- Sums of smaller terms are equal only term by term. -/
theorem sum_map_eq_iff {α : Type} {f g : α → ℚ} : ∀ {l : List α}, (∀ a ∈ l, f a ≤ g a) →
    ((l.map f).sum = (l.map g).sum ↔ ∀ a ∈ l, f a = g a)
  | [], _ => by simp
  | a :: l, h => by
    have ha := h a List.mem_cons_self
    have hl := fun b hb => h b (List.mem_cons_of_mem a hb)
    have hle : (l.map f).sum ≤ (l.map g).sum := List.sum_le_sum hl
    rw [List.map_cons, List.map_cons, List.sum_cons, List.sum_cons, List.forall_mem_cons, ← sum_map_eq_iff hl]
    constructor
    · intro heq
      constructor <;> linarith
    · rintro ⟨h1, h2⟩
      rw [h1, h2]

theorem foldl_max_spec : ∀ (scores : List ℚ) (s : ℚ),
    (scores.foldl max s = s ∨ scores.foldl max s ∈ scores) ∧ s ≤ scores.foldl max s ∧
      ∀ x ∈ scores, x ≤ scores.foldl max s
  | [], s => ⟨.inl rfl, le_refl _, fun _ h => absurd h List.not_mem_nil⟩
  | t :: scores, s => by
    obtain ⟨hmem, hle, hall⟩ := foldl_max_spec scores (max s t)
    rw [List.foldl_cons]
    refine ⟨?_, (le_max_left s t).trans hle, fun x hx => ?_⟩
    · rcases hmem with hmem | hmem
      · rcases max_choice s t with hmax | hmax
        · exact .inl (hmem.trans hmax)
        · exact .inr (by rw [hmem, hmax]; exact List.mem_cons_self)
      · exact .inr (List.mem_cons_of_mem _ hmem)
    · rcases List.mem_cons.1 hx with rfl | hx
      · exact (le_max_right s x).trans hle
      · exact hall x hx

theorem maxScore_spec {scores : List ℚ} (h : scores ≠ []) :
    maxScore scores ∈ scores ∧ ∀ x ∈ scores, x ≤ maxScore scores := by
  match scores, h with
  | s :: scores, _ =>
    obtain ⟨hmem, hle, hall⟩ := foldl_max_spec scores s
    refine ⟨?_, fun x hx => ?_⟩
    · rcases hmem with hmem | hmem
      · exact List.mem_cons.2 (.inl hmem)
      · exact List.mem_cons_of_mem _ hmem
    · rcases List.mem_cons.1 hx with rfl | hx
      · exact hle
      · exact hall x hx

theorem mem_memoryRows_scores {allHits : List (List VectorSearchHit)} {id : Int} {x : ℚ} :
    x ∈ (memoryRows allHits id).map (fun row => row.hit.score) ↔
      ∃ hits ∈ allHits, ∃ hit ∈ hits, hit.memoryId = id ∧ hit.score = x := by
  have hrows : (memoryRows allHits id).map (fun row => row.hit.score) =
      (allHits.flatten.filter fun hit => hit.memoryId = id).map VectorSearchHit.score := by
    unfold memoryRows
    rw [← rankedRowsFrom_hits 0 allHits, List.filter_map, List.map_map]
    rfl
  rw [hrows]
  simp only [List.mem_map, List.mem_filter, List.mem_flatten, decide_eq_true_eq]
  constructor
  · rintro ⟨hit, ⟨⟨hits, hhits, hhit⟩, hid⟩, hx⟩
    exact ⟨hits, hhits, hit, hhit, hid, hx⟩
  · rintro ⟨hits, hhits, hit, hhit, hid, hx⟩
    exact ⟨hit, ⟨⟨hits, hhits, hhit⟩, hid⟩, hx⟩

/-- A row never scores more than its memory's best one. -/
theorem RankedHits.exists_best {r : RankedHits} {hit : VectorSearchHit} (h : hit ∈ r.hits) :
    ∃ best ∈ r.bestRows.hits, best.memoryId = hit.memoryId ∧ hit.score ≤ best.score := by
  have hrow : hit ∈ r.rowsOf hit.memoryId := List.mem_filter.2 ⟨h, by simp⟩
  have hranked : (r.rowsOf hit.memoryId).Pairwise fun a b => b.score ≤ a.score :=
    r.ranked.sublist List.filter_sublist
  have htake := r.rowsOf_bestRows hit.memoryId
  cases hrows : r.rowsOf hit.memoryId with
  | nil => rw [hrows] at hrow; cases hrow
  | cons best rest =>
    rw [hrows] at hrow hranked htake
    have hbest : best ∈ r.bestRows.rowsOf hit.memoryId := by rw [htake]; exact List.mem_cons_self
    obtain ⟨hmem, hid⟩ := List.mem_filter.1 hbest
    refine ⟨best, hmem, by simpa using hid, ?_⟩
    rcases List.mem_cons.1 hrow with rfl | hrow
    · exact le_refl _
    · exact (List.pairwise_cons.1 hranked).1 hit hrow

theorem maxScore_best {lists : List RankedHits} {id : Int} (h : id ∈ aggregateKeys (hitsOf lists)) :
    maxScore ((memoryRows (hitsOf lists) id).map fun row => row.hit.score) =
      maxScore ((memoryRows (bestHitsOf lists) id).map fun row => row.hit.score) := by
  have hne : ∀ allHits, id ∈ aggregateKeys allHits →
      (memoryRows allHits id).map (fun row => row.hit.score) ≠ [] := by
    intro allHits hid
    obtain ⟨hits, hhits, hit, hhit, hid⟩ := mem_aggregateKeys.1 hid
    exact List.ne_nil_of_mem (mem_memoryRows_scores.2 ⟨hits, hhits, hit, hhit, hid, rfl⟩)
  obtain ⟨hmem, hall⟩ := maxScore_spec (hne _ h)
  obtain ⟨hmem', hall'⟩ := maxScore_spec (hne _ (mem_aggregateKeys_best.1 h))
  refine le_antisymm ?_ ?_
  · obtain ⟨hits, hhits, hit, hhit, hid, hscore⟩ := mem_memoryRows_scores.1 hmem
    obtain ⟨r, hr, rfl⟩ := List.mem_map.1 hhits
    obtain ⟨best, hbest, hsame, hle⟩ := RankedHits.exists_best hhit
    rw [← hscore]
    exact hle.trans (hall' _ (mem_memoryRows_scores.2
      ⟨_, List.mem_map_of_mem hr, best, hbest, hsame.trans hid, rfl⟩))
  · obtain ⟨hits, hhits, hit, hhit, hid, hscore⟩ := mem_memoryRows_scores.1 hmem'
    obtain ⟨r, hr, rfl⟩ := List.mem_map.1 hhits
    rw [← hscore]
    exact hall _ (mem_memoryRows_scores.2
      ⟨_, List.mem_map_of_mem hr, hit, (firstOfEach_sublist _ _).mem hhit, hid, rfl⟩)

/-- **Where an aggregation is per memory**: the largest score always is; sums are where further rows add up
to nothing, and rank fusion where no list has two rows of a memory. -/
def AggregatesPerMemory (lists : List RankedHits) : AggregationStrategy → Prop
  | .max => True
  | .sum => ∀ id, furtherTotal .sum lists id = 0
  | .average => ∀ id, furtherTotal .average lists id = 0
  | .weightedByPosition => ∀ id, furtherTotal .weightedByPosition lists id = 0
  | .rankFusion => ∀ r ∈ lists, r.OneRowEach

/-- A sum over a memory's rows is that over its best ones exactly where the further ones add up to nothing. -/
theorem sums_perMemory_iff {lists : List RankedHits} {strategy : AggregationStrategy} {c : ℚ} (hc : c ≠ 0)
    (hsum : ∀ allHits id, aggregateRows strategy lists.length (memoryRows allHits id) =
      ((memoryRows allHits id).map fun row => row.hit.score * positionWeight strategy row.vecIdx).sum * c) :
    (∀ id ∈ aggregateKeys (hitsOf lists), aggregateRows strategy lists.length (memoryRows (hitsOf lists) id) =
      aggregateRows strategy lists.length (memoryRows (bestHitsOf lists) id)) ↔
      ∀ id, furtherTotal strategy lists id = 0 := by
  have hone : ∀ id, aggregateRows strategy lists.length (memoryRows (hitsOf lists) id) =
      aggregateRows strategy lists.length (memoryRows (bestHitsOf lists) id) ↔
      furtherTotal strategy lists id = 0 := by
    intro id
    rw [hsum, hsum, mul_left_inj' hc, sum_memoryRows]
    constructor <;> intro h <;> linarith
  constructor
  · intro h id
    by_cases hid : id ∈ aggregateKeys (hitsOf lists)
    · exact (hone id).1 (h id hid)
    · exact furtherTotal_eq_zero hid
  · exact fun h id _ => (hone id).2 (h id)

theorem rankFusion_perMemory_iff {lists : List RankedHits} :
    (∀ id ∈ aggregateKeys (hitsOf lists), aggregateRows .rankFusion lists.length (memoryRows (hitsOf lists) id) =
      aggregateRows .rankFusion lists.length (memoryRows (bestHitsOf lists) id)) ↔ ∀ r ∈ lists, r.OneRowEach := by
  constructor
  · intro h
    have hsum := Finset.sum_congr (rfl : (aggregateKeys (hitsOf lists)).toFinset = _)
      fun id hid => h id (List.mem_toFinset.1 hid)
    have hbest := sum_rankFusion (lists.map RankedHits.bestRows) (aggregateKeys (hitsOf lists)).toFinset
      fun id hid => List.mem_toFinset.2 (mem_aggregateKeys_best.2 (bestHitsOf_eq lists ▸ hid))
    rw [← bestHitsOf_eq, List.length_map, List.map_map] at hbest
    rw [sum_rankFusion lists _ fun id hid => List.mem_toFinset.2 hid, hbest, eq_comm] at hsum
    have hterms : ∀ r ∈ lists, rankSum 60 r.bestRows.hits.length = rankSum 60 r.hits.length :=
      (sum_map_eq_iff fun r _ => rankSum_le (by norm_num) r.length_bestRows_le).1 hsum
    intro r hr
    rw [← RankedHits.oneRowEach_iff]
    by_contra hne
    have hlt := rankSum_lt (k := 60) (by norm_num) (Nat.lt_of_le_of_ne r.length_bestRows_le hne)
    exact absurd (hterms r hr) (ne_of_lt hlt)
  · intro h id _
    have hsame : bestHitsOf lists = hitsOf lists := List.map_congr_left fun r hr => RankedHits.bestRows_eq (h r hr)
    rw [hsame]

theorem aggregateScores_perMemory_iff (order : HashOrder) (lists : List RankedHits) (strategy : AggregationStrategy) :
    PerMemory (aggregateScores order (hitsOf lists) strategy) (aggregateScores order (bestHitsOf lists) strategy) ↔
      AggregatesPerMemory lists strategy := by
  rw [aggregate_perMemory_iff_scores]
  have hone : ∀ (strategy : AggregationStrategy) (rows : List RankedRow), strategy ≠ .weightedByPosition →
      (rows.map fun row => row.hit.score * positionWeight strategy row.vecIdx) =
        rows.map fun row => row.hit.score := fun strategy rows hs =>
    List.map_congr_left fun row _ => by cases strategy <;> first | exact absurd rfl hs | exact mul_one _
  cases strategy with
  | sum =>
    refine sums_perMemory_iff one_ne_zero fun allHits id => ?_
    rw [hone _ _ (by decide), mul_one]
    rfl
  | average =>
    rcases Nat.eq_zero_or_pos lists.length with hlen | hlen
    · -- without a list there is no memory
      obtain rfl := List.length_eq_zero_iff.1 hlen
      exact iff_of_true (fun id hid => rfl) fun id => rfl
    · refine sums_perMemory_iff (inv_ne_zero (Nat.cast_ne_zero.2 (Nat.pos_iff_ne_zero.1 hlen))) fun allHits id => ?_
      rw [hone _ _ (by decide), ← div_eq_mul_inv]
      rfl
  | max => exact iff_of_true (fun id hid => maxScore_best hid) trivial
  | weightedByPosition =>
    refine sums_perMemory_iff one_ne_zero fun allHits id => ?_
    rw [mul_one]
    refine congrArg List.sum (List.map_congr_left fun row _ => ?_)
    exact div_eq_mul_one_div _ _
  | rankFusion => exact rankFusion_perMemory_iff

/-! ## The law -/

/-- **Fusion and aggregation are per memory for these hit lists, and for no others.** -/
theorem fusion_per_memory_iff (order : HashOrder) :
    (∀ vec fts : RankedHits,
      ((∀ k limit, PerMemory (mergeRrf order vec.hits fts.hits k limit)
          (mergeRrf order vec.bestRows.hits fts.bestRows.hits k limit)) ↔ vec.OneRowEach ∧ fts.OneRowEach) ∧
      ((∀ vectorWeight limit, PerMemory (mergeWeighted order vec.hits fts.hits vectorWeight limit)
          (mergeWeighted order vec.bestRows.hits fts.bestRows.hits vectorWeight limit) ∧
        (InUnit vec.hits → InUnit fts.hits → 0 ≤ vectorWeight → vectorWeight ≤ 1 →
          InUnit (mergeWeighted order vec.hits fts.hits vectorWeight limit))) ↔
        ∀ id, vec.furtherScore id = 0 ∧ fts.furtherScore id = 0)) ∧
    (∀ (primary : RankedHits) (secondary : Finset Int → RankedHits) (vectorFirst : Bool),
      (∀ limit options result,
        twoPhaseHybridSearch primary.hits (fun ids => (secondary ids).hits) limit options vectorFirst = .ok result →
        ∃ reduced, twoPhaseHybridSearch primary.bestRows.hits (fun ids => (secondary ids).bestRows.hits) limit options
          vectorFirst = .ok reduced ∧ PerMemory result reduced) ↔
        OneScoreEach primary (secondary primary.candidates)) ∧
    ∀ (lists : List RankedHits) (strategy : AggregationStrategy),
      PerMemory (aggregateScores order (hitsOf lists) strategy) (aggregateScores order (bestHitsOf lists) strategy) ↔
        AggregatesPerMemory lists strategy :=
  ⟨fun vec fts => ⟨mergeRrf_perMemory_iff order vec fts, mergeWeighted_perMemory_iff order vec fts⟩,
    twoPhase_perMemory_iff, aggregateScores_perMemory_iff order⟩

/-- Iterate a map in the order of its keys. -/
def ascending : HashOrder where
  arrange := SortedSet.ofList
  nodup := SortedSet.nodup_ofList
  mem_arrange := SortedSet.mem_ofList
  arrange_congr := SortedSet.ofList_eq_iff.2

/-- The two best rows of the vector search are of one memory. -/
def longMemoryFirst : RankedHits where
  hits := [{ memoryId := 1, score := 9 / 10 }, { memoryId := 1, score := 8 / 10 }, { memoryId := 2, score := 7 / 10 }]
  ranked := by simp; norm_num

/-- **Two rows of a memory change its weighted score, and every other memory's rank.** With all weight on the
vector search the long memory scores more than any row can, and a search in two phases returns it twice. -/
theorem longMemory_weighs_twice :
    mergeWeighted ascending longMemoryFirst.hits [] 1 10 = [fusedHit 1 (17 / 10), fusedHit 2 (7 / 10)] ∧
      InUnit longMemoryFirst.hits ∧
      ¬ PerMemory (mergeWeighted ascending longMemoryFirst.hits [] 1 10)
        (mergeWeighted ascending longMemoryFirst.bestRows.hits [] 1 10) ∧
      ¬ PerMemory (mergeRrf ascending longMemoryFirst.hits [] 60 10)
        (mergeRrf ascending longMemoryFirst.bestRows.hits [] 60 10) ∧
      ¬ PerMemory (aggregateScores ascending [longMemoryFirst.hits] .sum)
        (aggregateScores ascending [longMemoryFirst.bestRows.hits] .sum) ∧
      (twoPhaseHybridSearch longMemoryFirst.hits (fun _ => []) 10 ⟨.vectorThenFts, none, none⟩ true).map
        (List.map VectorSearchHit.memoryId) = .ok [1, 1, 2] := by
  refine ⟨by decide +kernel, by unfold InUnit; decide +kernel, fun h => ?_, fun h => ?_, fun h => ?_,
    by decide +kernel⟩
  all_goals
    have hsame := h.same
    revert hsame
    decide +kernel

end MemoryStore.MemorySearch
