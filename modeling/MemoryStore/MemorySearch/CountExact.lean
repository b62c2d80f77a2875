/-
Match counts never under-report silently, but for one kind of answer.

A count that streams its rows gives up at the row limit, so what it reports as
complete is complete. The two set collectors under a union stop at the same row
limit and do not notice: a clipped branch with few memories passes for a whole
one. And a filter-only count counts rows. `count_sound_iff` says exactly when a
count of any mode keeps its promise.
-/
import MemoryStore.MemorySearch.Count
import MemoryStore.Lib.Fallible

namespace MemoryStore.MemorySearch

variable {Columns Component : Type}

/-! ## The loops -/

/-- Under the cap the accumulation reads the whole column. -/
theorem accumulateMemoryIdsCapped_all (cap : Nat) : ∀ (column : List Int) (ids : Finset Int),
    (ids ∪ column.toFinset).card ≤ cap →
      accumulateMemoryIdsCapped cap column ids = (ids ∪ column.toFinset, false)
  | [], ids, _ => by simp [accumulateMemoryIdsCapped]
  | id :: column, ids, h => by
    have hset : ids ∪ (id :: column).toFinset = insert id ids ∪ column.toFinset := by
      ext x
      simp only [Finset.mem_union, List.mem_toFinset, List.mem_cons, Finset.mem_insert]
      tauto
    rw [hset] at h ⊢
    have hle : (insert id ids).card ≤ cap := (Finset.card_le_card Finset.subset_union_left).trans h
    unfold accumulateMemoryIdsCapped
    rw [if_neg (by omega), accumulateMemoryIdsCapped_all cap column _ h]

/-- Over the cap the accumulation raises its flag. -/
theorem accumulateMemoryIdsCapped_clipped (cap : Nat) : ∀ (column : List Int) (ids : Finset Int),
    ids.card ≤ cap → cap < (ids ∪ column.toFinset).card → (accumulateMemoryIdsCapped cap column ids).2 = true
  | [], ids, hle, h => by
    rw [List.toFinset_nil, Finset.union_empty] at h
    omega
  | id :: column, ids, hle, h => by
    have hset : ids ∪ (id :: column).toFinset = insert id ids ∪ column.toFinset := by
      ext x
      simp only [Finset.mem_union, List.mem_toFinset, List.mem_cons, Finset.mem_insert]
      tauto
    rw [hset] at h
    unfold accumulateMemoryIdsCapped
    by_cases hcap : cap < (insert id ids).card
    · rw [if_pos hcap]
    · rw [if_neg hcap]
      exact accumulateMemoryIdsCapped_clipped cap column _ (by omega) h

/-- Reading a batch and then the rest of the stream reads both. -/
theorem union_toFinset_append (ids : Finset Int) (batch : List Int) (stream : List (List Int)) :
    ids ∪ (batch :: stream).flatten.toFinset = ids ∪ batch.toFinset ∪ stream.flatten.toFinset := by
  rw [List.flatten_cons, List.toFinset_append, Finset.union_assoc]

/-- **What the streaming count reports.** Either it gave up, or it read every row and the count is exact. -/
theorem countDistinctCapped_cases (hardCap fetchLimit : Nat) : ∀ (stream : List (List Int)) (rowsSeen : Nat)
    (ids : Finset Int), ids.card ≤ hardCap → rowsSeen < fetchLimit →
      countDistinctCapped hardCap fetchLimit stream rowsSeen ids = (hardCap, true) ∨
      countDistinctCapped hardCap fetchLimit stream rowsSeen ids = ((ids ∪ stream.flatten.toFinset).card, false) ∧
        rowsSeen + stream.flatten.length < fetchLimit
  | [], rowsSeen, ids, _, hrows => .inr ⟨by simp [countDistinctCapped], by simpa using hrows⟩
  | batch :: stream, rowsSeen, ids, hle, hrows => by
    unfold countDistinctCapped
    dsimp only
    by_cases hlimit : fetchLimit ≤ rowsSeen + batch.length
    · rw [if_pos hlimit]
      exact .inl rfl
    · rw [if_neg hlimit]
      by_cases hcap : hardCap < (ids ∪ batch.toFinset).card
      · have hflag := accumulateMemoryIdsCapped_clipped hardCap batch ids hle hcap
        generalize accumulateMemoryIdsCapped hardCap batch ids = read at hflag ⊢
        obtain ⟨ids', flag⟩ := read
        obtain rfl : flag = true := hflag
        exact .inl rfl
      · rw [accumulateMemoryIdsCapped_all hardCap batch ids (by omega), union_toFinset_append]
        rw [List.flatten_cons, List.length_append, ← Nat.add_assoc]
        exact countDistinctCapped_cases hardCap fetchLimit stream _ _ (by omega) (by omega)

/-- Under the cap a collector returns every memory of the rows it was given, truncated or not. -/
theorem collectIdsCapped_all (cap : Nat) : ∀ (stream : List (List Int)) (ids : Finset Int),
    (ids ∪ stream.flatten.toFinset).card ≤ cap →
      collectIdsCapped cap stream ids = (ids ∪ stream.flatten.toFinset, false)
  | [], ids, _ => by simp [collectIdsCapped]
  | batch :: stream, ids, h => by
    rw [union_toFinset_append] at h ⊢
    have hle : (ids ∪ batch.toFinset).card ≤ cap := (Finset.card_le_card Finset.subset_union_left).trans h
    unfold collectIdsCapped
    rw [accumulateMemoryIdsCapped_all cap batch ids hle]
    exact collectIdsCapped_all cap stream _ h

/-- Over the cap a collector says so. -/
theorem collectIdsCapped_clipped (cap : Nat) : ∀ (stream : List (List Int)) (ids : Finset Int),
    ids.card ≤ cap → cap < (ids ∪ stream.flatten.toFinset).card → (collectIdsCapped cap stream ids).2 = true
  | [], ids, hle, h => by
    rw [List.flatten_nil, List.toFinset_nil, Finset.union_empty] at h
    omega
  | batch :: stream, ids, hle, h => by
    rw [union_toFinset_append] at h
    unfold collectIdsCapped
    by_cases hcap : cap < (ids ∪ batch.toFinset).card
    · have hflag := accumulateMemoryIdsCapped_clipped cap batch ids hle hcap
      generalize accumulateMemoryIdsCapped cap batch ids = read at hflag ⊢
      obtain ⟨ids', flag⟩ := read
      obtain rfl : flag = true := hflag
      rfl
    · rw [accumulateMemoryIdsCapped_all cap batch ids (by omega)]
      exact collectIdsCapped_clipped cap stream _ (by omega) h

/-! ## What a count is about -/

/-- The distinct memories of some rows. -/
def memoriesOf (rows : List (IndexRow Columns)) : Finset Int := (rows.map IndexRow.memoryId).toFinset

theorem mem_memoriesOf {rows : List (IndexRow Columns)} {id : Int} :
    id ∈ memoriesOf rows ↔ ∃ row ∈ rows, row.memoryId = id := by
  unfold memoriesOf
  rw [List.mem_toFinset, List.mem_map]

/-- The caller's filter and the thread filter together. -/
def effectiveFilter (base : Option (SafeFilter Columns)) : Option ThreadMemoryIds → Option (SafeFilter Columns)
  | none => base
  | some threadMemoryIds => some (withMemoryIds base threadMemoryIds.ids)

namespace CountSearchInput

variable (input : CountSearchInput Columns Component)

def options : HybridOptions := input.hybridOptions.getD ⟨.rrf, none, none⟩

/-- The queries whose matches a request counts, over its mode and strategy. -/
def queries : List (TableQuery Component) :=
  let vectors := input.queryVectors.map TableQuery.nearestTo
  let text := .fullTextSearch (input.queryText.getD "")
  match input.mode with
  | .filterOnly => []
  | .text => [text]
  | .vector => vectors
  | .hybrid =>
    match input.options.strategy with
    | .rrf | .weighted => vectors ++ [text]
    | .vectorThenFts => vectors
    | .ftsThenVector => [text]

/-- The rows a request matches. -/
def matching (table : VectorTable Columns Component) : List (IndexRow Columns) :=
  let filter := effectiveFilter input.filter input.threadMemoryIds
  match input.mode with
  | .filterOnly => table.rows.filter (accepts filter)
  | .text | .vector | .hybrid => input.queries.flatMap fun query => table.ranking query filter

/-- The cap of the mode; a filter-only count has none. -/
def cap (config : CountConfig) : Option Nat :=
  match input.mode with
  | .filterOnly => none
  | .text => some config.ftsCountHardCap
  | .vector => some config.countVectorHardCap
  | .hybrid =>
    match input.options.strategy with
    | .rrf | .weighted | .vectorThenFts => some config.countVectorHardCap
    | .ftsThenVector => some config.ftsCountHardCap

end CountSearchInput

/-- **A count keeps its promise**: complete means exact, truncated means within the cap. -/
structure Sound (table : VectorTable Columns Component) (config : CountConfig)
    (input : CountSearchInput Columns Component) (total : Nat) (isTruncated : Bool) : Prop where
  exact : isTruncated = false → total = (memoriesOf (input.matching table)).card
  capped : isTruncated = true → ∃ cap, input.cap config = some cap ∧ total ≤ cap

/-! ## Counts of one query -/

theorem fetchLimitOf_pos (cap : Nat) : 0 < fetchLimitOf cap := by
  unfold fetchLimitOf u64Max
  omega

theorem VectorTable.memoryIds_flatten (table : VectorTable Columns Component) (query : TableQuery Component)
    (filter : Option (SafeFilter Columns)) (limit : Nat) :
    (table.memoryIds query filter limit).flatten = ((table.ranking query filter).take limit).map IndexRow.memoryId := by
  unfold VectorTable.memoryIds
  rw [← List.map_flatten, table.execute_flatten]

/-- **A streaming count is sound.** -/
theorem VectorTable.runCountQuery_cases (table : VectorTable Columns Component) (query : TableQuery Component)
    (filter : Option (SafeFilter Columns)) (hardCap : Nat) :
    table.runCountQuery query filter hardCap = (hardCap, true) ∨
      table.runCountQuery query filter hardCap = ((memoriesOf (table.ranking query filter)).card, false) := by
  rcases countDistinctCapped_cases hardCap (fetchLimitOf hardCap)
      (table.memoryIds query filter (fetchLimitOf hardCap)) 0 ∅ (by simp) (fetchLimitOf_pos hardCap) with h | ⟨h, hlen⟩
  · exact .inl h
  · rw [table.memoryIds_flatten, List.length_map, List.length_take] at hlen
    have hall : (table.ranking query filter).take (fetchLimitOf hardCap) = table.ranking query filter :=
      List.take_of_length_le (by omega)
    rw [table.memoryIds_flatten, hall, Finset.empty_union] at h
    exact .inr h

/-! ## Counts of a union -/

/-- The rows the branches of a union are given. -/
def seenRows (table : VectorTable Columns Component) (filter : Option (SafeFilter Columns)) (branchCap : Nat)
    (queries : List (TableQuery Component)) : List (IndexRow Columns) :=
  queries.flatMap fun query => (table.ranking query filter).take (fetchLimitOf branchCap)

/-- **Nothing stays hidden behind the row limit of a union**: some branch has more memories than its cap
among the rows it is given, or the branches together have more than the hard cap, or every memory a
branch matches has a row among those given to some branch. -/
def Revealed (table : VectorTable Columns Component) (filter : Option (SafeFilter Columns)) (branchCap hardCap : Nat)
    (queries : List (TableQuery Component)) : Prop :=
  (∃ query ∈ queries, branchCap < (memoriesOf (seenRows table filter branchCap [query])).card) ∨
  hardCap < (memoriesOf (seenRows table filter branchCap queries)).card ∨
  ∀ query ∈ queries, ∀ row ∈ table.ranking query filter,
    row.memoryId ∈ memoriesOf (seenRows table filter branchCap queries)

theorem unionOf_eq (branches : List (Finset Int × Bool)) : ∀ merged : Finset Int × Bool,
    (branches.foldl (fun merged branch => (merged.1 ∪ branch.1, merged.2 || branch.2)) merged).2 =
        (merged.2 || branches.any (·.2)) ∧
      ∀ id, id ∈ (branches.foldl (fun merged branch => (merged.1 ∪ branch.1, merged.2 || branch.2)) merged).1 ↔
        id ∈ merged.1 ∨ ∃ branch ∈ branches, id ∈ branch.1 := by
  induction branches with
  | nil => intro merged; simp
  | cons branch branches ih =>
    intro merged
    obtain ⟨hflag, hids⟩ := ih (merged.1 ∪ branch.1, merged.2 || branch.2)
    refine ⟨by rw [List.foldl_cons, hflag, List.any_cons, Bool.or_assoc], fun id => ?_⟩
    rw [List.foldl_cons, hids, Finset.mem_union, List.exists_mem_cons_iff, or_assoc]

theorem VectorTable.collectIds_all {table : VectorTable Columns Component} {query : TableQuery Component}
    {filter : Option (SafeFilter Columns)} {cap : Nat}
    (h : ¬ cap < (memoriesOf (seenRows table filter cap [query])).card) :
    table.collectIds query filter cap = (memoriesOf (seenRows table filter cap [query]), false) := by
  have hseen : memoriesOf (seenRows table filter cap [query]) =
      ∅ ∪ (table.memoryIds query filter (fetchLimitOf cap)).flatten.toFinset := by
    rw [table.memoryIds_flatten, Finset.empty_union]
    simp [memoriesOf, seenRows]
  rw [hseen] at h ⊢
  exact collectIdsCapped_all cap _ ∅ (by omega)

theorem VectorTable.collectIds_clipped {table : VectorTable Columns Component} {query : TableQuery Component}
    {filter : Option (SafeFilter Columns)} {cap : Nat}
    (h : cap < (memoriesOf (seenRows table filter cap [query])).card) :
    (table.collectIds query filter cap).2 = true := by
  refine collectIdsCapped_clipped cap _ ∅ (by simp) ?_
  rw [table.memoryIds_flatten, Finset.empty_union]
  simpa [memoriesOf, seenRows] using h

/-- **A union of branches under a cap is sound exactly when nothing stays hidden.** -/
theorem mergedCount_sound_iff (table : VectorTable Columns Component) (filter : Option (SafeFilter Columns))
    (branchCap hardCap : Nat) (queries : List (TableQuery Component)) :
    ((mergedCount hardCap (unionOf (queries.map fun q => table.collectIds q filter branchCap))).2 = false →
      (mergedCount hardCap (unionOf (queries.map fun q => table.collectIds q filter branchCap))).1 =
        (memoriesOf (queries.flatMap fun q => table.ranking q filter)).card) ↔
      Revealed table filter branchCap hardCap queries := by
  obtain ⟨hflag, hids⟩ := unionOf_eq (queries.map fun q => table.collectIds q filter branchCap) (∅, false)
  rw [Bool.false_or] at hflag
  change (unionOf _).2 = _ at hflag
  change ∀ id, id ∈ (unionOf _).1 ↔ _ at hids
  by_cases hclipped : ∃ query ∈ queries, branchCap < (memoriesOf (seenRows table filter branchCap [query])).card
  · -- a branch over its cap: truncated
    have htrue : (unionOf (queries.map fun q => table.collectIds q filter branchCap)).2 = true := by
      obtain ⟨query, hq, hcap⟩ := hclipped
      rw [hflag, List.any_map, List.any_eq_true]
      exact ⟨query, hq, table.collectIds_clipped hcap⟩
    refine ⟨fun _ => .inl hclipped, fun _ h => ?_⟩
    simp only [mergedCount, htrue, Bool.true_or] at h
    cases h
  · have hbranch : ∀ query ∈ queries, table.collectIds query filter branchCap =
        (memoriesOf (seenRows table filter branchCap [query]), false) := fun query hq =>
      VectorTable.collectIds_all fun hcap => hclipped ⟨query, hq, hcap⟩
    have hfalse : (unionOf (queries.map fun q => table.collectIds q filter branchCap)).2 = false := by
      rw [hflag, List.any_map, List.any_eq_false]
      intro query hq
      rw [Function.comp_apply, hbranch query hq]
      exact Bool.false_ne_true
    have hunion : (unionOf (queries.map fun q => table.collectIds q filter branchCap)).1 =
        memoriesOf (seenRows table filter branchCap queries) := by
      ext id
      rw [hids]
      simp only [Finset.notMem_empty, false_or, mem_memoriesOf, seenRows, List.mem_flatMap]
      constructor
      · rintro ⟨branch, hb, hid⟩
        obtain ⟨query, hq, rfl⟩ := List.mem_map.1 hb
        rw [hbranch query hq, mem_memoriesOf] at hid
        obtain ⟨row, hrow, rfl⟩ := hid
        exact ⟨row, ⟨query, hq, by simpa [seenRows] using hrow⟩, rfl⟩
      · rintro ⟨row, ⟨query, hq, hrow⟩, rfl⟩
        refine ⟨_, List.mem_map_of_mem hq, ?_⟩
        rw [hbranch query hq, mem_memoriesOf]
        exact ⟨row, by simpa [seenRows] using hrow, rfl⟩
    have hsub : memoriesOf (seenRows table filter branchCap queries) ⊆
        memoriesOf (queries.flatMap fun q => table.ranking q filter) := by
      intro id hid
      rw [mem_memoriesOf] at hid ⊢
      obtain ⟨row, hrow, rfl⟩ := hid
      obtain ⟨query, hq, hrow⟩ := List.mem_flatMap.1 hrow
      exact ⟨row, List.mem_flatMap.2 ⟨query, hq, List.mem_of_mem_take hrow⟩, rfl⟩
    have hcovers : (∀ query ∈ queries, ∀ row ∈ table.ranking query filter,
          row.memoryId ∈ memoriesOf (seenRows table filter branchCap queries)) ↔
        memoriesOf (queries.flatMap fun q => table.ranking q filter) ⊆
          memoriesOf (seenRows table filter branchCap queries) := by
      constructor
      · intro h id hid
        obtain ⟨row, hrow, rfl⟩ := mem_memoriesOf.1 hid
        obtain ⟨query, hq, hrow⟩ := List.mem_flatMap.1 hrow
        exact h query hq row hrow
      · exact fun h query hq row hrow =>
          h (mem_memoriesOf.2 ⟨row, List.mem_flatMap.2 ⟨query, hq, hrow⟩, rfl⟩)
    simp only [Revealed, mergedCount, hfalse, hunion, hcovers, Bool.false_or, decide_eq_false_iff_not]
    constructor
    · intro h
      by_cases hmany : hardCap < (memoriesOf (seenRows table filter branchCap queries)).card
      · exact .inr (.inl hmany)
      · refine .inr (.inr ?_)
        have hcard := h hmany
        rw [Nat.min_eq_left (by omega)] at hcard
        exact (Finset.eq_of_subset_of_card_le hsub (by omega)).symm.subset
    · rintro (h | h | h) hmany
      · exact absurd h hclipped
      · exact absurd h hmany
      · rw [Nat.min_eq_left (by omega), Finset.Subset.antisymm h hsub]

theorem mergedCount_le (hardCap : Nat) (union : Finset Int × Bool) : (mergedCount hardCap union).1 ≤ hardCap :=
  Nat.min_le_right _ _

/-! ## Counts under a filter alone -/

theorem countP_withMemoryIds_append (base : Option (SafeFilter Columns)) {ids chunk : List Int}
    (hn : (ids ++ chunk).Nodup) (rows : List (IndexRow Columns)) :
    rows.countP (withMemoryIds base (ids ++ chunk)) =
      rows.countP (withMemoryIds base ids) + rows.countP (withMemoryIds base chunk) := by
  have hdisjoint := (List.nodup_append.1 hn).2.2
  induction rows with
  | nil => rfl
  | cons row rows ih =>
    rw [List.countP_cons, List.countP_cons, List.countP_cons, ih]
    have hrow : (if withMemoryIds base (ids ++ chunk) row then 1 else 0) =
        (if withMemoryIds base ids row then 1 else 0) + (if withMemoryIds base chunk row then 1 else 0) := by
      unfold withMemoryIds
      by_cases hids : row.memoryId ∈ ids
      · have hchunk : row.memoryId ∉ chunk := fun hc => hdisjoint _ hids _ hc rfl
        simp [hids, hchunk]
      · simp [hids]
    omega

/-- The loop over the chunks: with the rows of the memories before, the rows of the memories so far. -/
theorem countChunks_ok (table : VectorTable Columns Component) (base : Option (SafeFilter Columns)) :
    ∀ (chunks : List (List Int)) (ids : List Int) (total : Nat), (ids ++ chunks.flatten).Nodup →
      chunks.foldlM (fun total chunk => do
        let combined ← inMemoryIds base chunk
        .ok (min (total + (table.countByFilter (some combined)).1) u64Max))
        (table.rows.countP (withMemoryIds base ids)) = .ok total →
      total = table.rows.countP (withMemoryIds base (ids ++ chunks.flatten))
  | [], ids, total, _, h => by
    rw [List.flatten_nil, List.append_nil]
    exact (Except.ok.inj h).symm
  | chunk :: chunks, ids, total, hn, h => by
    rw [List.flatten_cons, ← List.append_assoc] at hn ⊢
    rw [List.foldlM_cons, Except.bind_eq_ok] at h
    obtain ⟨next, hnext, h⟩ := h
    rw [Except.bind_eq_ok] at hnext
    obtain ⟨combined, hcombined, hnext⟩ := hnext
    have hfilter : combined = withMemoryIds base chunk := by
      unfold inMemoryIds at hcombined
      split at hcombined
      · cases hcombined
      · exact (Except.ok.inj hcombined).symm
    have hsum := countP_withMemoryIds_append base (List.nodup_append.1 hn).1 table.rows
    have hnext' : next = table.rows.countP (withMemoryIds base (ids ++ chunk)) := by
      have hle := (List.countP_le_length (p := withMemoryIds base (ids ++ chunk))).trans table.rows_length
      obtain rfl := Except.ok.inj hnext
      subst hfilter
      rw [hsum] at hle ⊢
      exact Nat.min_eq_left hle
    rw [hnext'] at h
    exact countChunks_ok table base chunks (ids ++ chunk) total hn h

/-- **A filter-only count is the number of matching rows.** -/
theorem countFilterOnly_ok {table : VectorTable Columns Component} {config : CountConfig}
    {base : Option (SafeFilter Columns)} {threadMemoryIds : Option ThreadMemoryIds} {result : Nat × Bool}
    (h : countFilterOnly table config base threadMemoryIds = .ok result) :
    result = (table.rows.countP (accepts (effectiveFilter base threadMemoryIds)), false) := by
  cases threadMemoryIds with
  | none => exact (Except.ok.inj h).symm
  | some threadMemoryIds =>
    have hnone : ∀ row : IndexRow Columns, withMemoryIds base [] row = false := fun row => by simp [withMemoryIds]
    unfold countFilterOnly at h
    dsimp only at h
    split at h
    next hempty =>
      obtain rfl := Except.ok.inj h
      have hzero : table.rows.countP (withMemoryIds base threadMemoryIds.ids) = 0 := by
        rw [List.isEmpty_iff.1 hempty, List.countP_eq_zero]
        exact fun row _ => by simp [hnone]
      exact Prod.ext hzero.symm rfl
    next =>
      split at h
      · cases h
      · rw [Except.bind_eq_ok] at h
        obtain ⟨total, htotal, h⟩ := h
        obtain rfl := Except.ok.inj h
        have hstart : table.rows.countP (withMemoryIds base []) = 0 :=
          List.countP_eq_zero.2 fun row _ => by simp [hnone]
        have hflatten := List.flatten_toChunks countFilterChunkSize threadMemoryIds.ids
        have htotal' := countChunks_ok table base (threadMemoryIds.ids.toChunks countFilterChunkSize) [] total
          (by rw [List.nil_append, hflatten]; exact threadMemoryIds.nodup) (by rw [hstart]; exact htotal)
        rw [List.nil_append, hflatten] at htotal'
        exact Prod.ext htotal' rfl

/-! ## The modes -/

/-- The filter a ranked count runs with; without one no row matches. -/
theorem combinedFilter_ok {base : Option (SafeFilter Columns)} {limit : Nat} {refusal : Nat → String}
    {threadMemoryIds : Option ThreadMemoryIds} {combined : Option (Option (SafeFilter Columns))}
    (h : combinedFilter base limit refusal threadMemoryIds = .ok combined) :
    combined = some (effectiveFilter base threadMemoryIds) ∨
      combined = none ∧ ∀ row, accepts (effectiveFilter base threadMemoryIds) row = false := by
  cases threadMemoryIds with
  | none => exact .inl (Except.ok.inj h).symm
  | some threadMemoryIds =>
    unfold combinedFilter at h
    dsimp only at h
    split at h
    next hempty =>
      refine .inr ⟨(Except.ok.inj h).symm, fun row => ?_⟩
      have hids := List.isEmpty_iff.1 hempty
      simp [effectiveFilter, accepts, withMemoryIds, hids]
    next =>
      split at h
      · cases h
      · rw [Except.bind_eq_ok] at h
        obtain ⟨inFilter, hfilter, h⟩ := h
        refine .inl ((Except.ok.inj h).symm.trans ?_)
        unfold inMemoryIds at hfilter
        split at hfilter
        · cases hfilter
        · obtain rfl := Except.ok.inj hfilter
          rfl

theorem ranking_eq_nil {table : VectorTable Columns Component} {filter : Option (SafeFilter Columns)}
    (h : ∀ row, accepts filter row = false) (query : TableQuery Component) : table.ranking query filter = [] := by
  refine List.eq_nil_iff_forall_not_mem.2 fun row hrow => ?_
  have haccepted := (table.ranking_matches query filter row hrow).2
  rw [h row] at haccepted
  cases haccepted

namespace CountSearchInput

variable (input : CountSearchInput Columns Component)

/-- **Where a count keeps its promise**: filter only, when no memory has two matching rows; several query
vectors and parallel hybrid, when nothing stays hidden behind the row limit; everywhere else, always. -/
def NothingHidden (table : VectorTable Columns Component) (config : CountConfig) : Prop :=
  let filter := effectiveFilter input.filter input.threadMemoryIds
  let hardCap := config.countVectorHardCap
  match input.mode with
  | .filterOnly => ((table.rows.filter (accepts filter)).map IndexRow.memoryId).Nodup
  | .text => True
  | .vector => 2 ≤ input.queryVectors.length → Revealed table filter (overfetchCap hardCap) hardCap input.queries
  | .hybrid =>
    input.options.strategy = .rrf ∨ input.options.strategy = .weighted →
      Revealed table filter hardCap hardCap input.queries

end CountSearchInput

/-- A count that gave up at its cap or read every match is sound. -/
theorem Sound.of_cases {table : VectorTable Columns Component} {config : CountConfig}
    {input : CountSearchInput Columns Component} {cap : Nat} {result : Nat × Bool} (hcap : input.cap config = some cap)
    (h : result = (cap, true) ∨ result = ((memoriesOf (input.matching table)).card, false)) :
    Sound table config input result.1 result.2 := by
  rcases h with rfl | rfl
  · exact ⟨(nomatch ·), fun _ => ⟨cap, hcap, Nat.le_refl _⟩⟩
  · exact ⟨fun _ => rfl, (nomatch ·)⟩

/-- Where no row matches, a count of nothing is sound. -/
theorem Sound.of_no_match {table : VectorTable Columns Component} {config : CountConfig}
    {input : CountSearchInput Columns Component} (hmode : input.mode ≠ .filterOnly)
    (h : ∀ row, accepts (effectiveFilter input.filter input.threadMemoryIds) row = false) :
    Sound table config input 0 false := by
  have hmatching : input.matching table = [] := by
    have hnone : input.queries.flatMap (fun query =>
        table.ranking query (effectiveFilter input.filter input.threadMemoryIds)) = [] :=
      List.flatMap_eq_nil_iff.2 fun query _ => ranking_eq_nil h query
    unfold CountSearchInput.matching
    split
    next hfilter => exact absurd hfilter hmode
    all_goals exact hnone
  exact ⟨fun _ => by rw [hmatching]; rfl, (nomatch ·)⟩

theorem Revealed.of_no_match {table : VectorTable Columns Component} {filter : Option (SafeFilter Columns)}
    (h : ∀ row, accepts filter row = false) (branchCap hardCap : Nat) (queries : List (TableQuery Component)) :
    Revealed table filter branchCap hardCap queries :=
  .inr (.inr fun query _ row hrow => by rw [ranking_eq_nil h] at hrow; cases hrow)

/-- A count of a union keeps its promise exactly when nothing stays hidden. -/
theorem union_sound_iff (table : VectorTable Columns Component) {config : CountConfig}
    {input : CountSearchInput Columns Component} (branchCap : Nat) {hardCap : Nat}
    (hcap : input.cap config = some hardCap) (hmode : input.mode ≠ .filterOnly) :
    let filter := effectiveFilter input.filter input.threadMemoryIds
    let result := mergedCount hardCap (unionOf (input.queries.map fun q => table.collectIds q filter branchCap))
    Sound table config input result.1 result.2 ↔ Revealed table filter branchCap hardCap input.queries := by
  dsimp only
  rw [← mergedCount_sound_iff]
  have hmatching : input.matching table = input.queries.flatMap fun query =>
      table.ranking query (effectiveFilter input.filter input.threadMemoryIds) := by
    unfold CountSearchInput.matching
    split
    next hfilter => exact absurd hfilter hmode
    all_goals rfl
  constructor
  · intro h hfalse
    rw [h.exact hfalse, hmatching]
  · intro h
    exact ⟨fun hfalse => by rw [h hfalse, hmatching], fun _ => ⟨hardCap, hcap, mergedCount_le _ _⟩⟩

theorem CountSearchInput.requiredText_ok {input : CountSearchInput Columns Component} {mode q : String}
    (h : input.requiredText mode = .ok q) : input.queryText.getD "" = q := by
  unfold CountSearchInput.requiredText at h
  split at h
  next text hfilter =>
    obtain rfl := Except.ok.inj h
    rw [(Option.filter_eq_some_iff.1 hfilter).1]
    rfl
  next => cases h

theorem countVector_sound_iff {table : VectorTable Columns Component} {config : CountConfig}
    {input : CountSearchInput Columns Component} {result : Nat × Bool} (hmode : input.mode = .vector)
    (h : countVector table config input.queryVectors input.filter input.threadMemoryIds = .ok result) :
    Sound table config input result.1 result.2 ↔ input.NothingHidden table config := by
  have hcap : input.cap config = some config.countVectorHardCap := by simp only [CountSearchInput.cap, hmode]
  have hne : input.mode ≠ .filterOnly := by simp [hmode]
  have hqueries : input.queries = input.queryVectors.map TableQuery.nearestTo := by
    simp only [CountSearchInput.queries, hmode]
  have hhidden : input.NothingHidden table config ↔ (2 ≤ input.queryVectors.length →
      Revealed table (effectiveFilter input.filter input.threadMemoryIds) (overfetchCap config.countVectorHardCap)
        config.countVectorHardCap input.queries) := by
    simp only [CountSearchInput.NothingHidden, hmode]
  rw [hhidden]
  match hvectors : input.queryVectors with
  | [] =>
    rw [hvectors] at h
    cases h
  | [queryVector] =>
    -- one query vector: the streaming count
    rw [hvectors] at h hqueries
    obtain ⟨combined, hcombined, h⟩ := Except.bind_eq_ok.1 h
    refine Iff.intro (fun _ htwo => absurd htwo (by simp)) fun _ => ?_
    rcases combinedFilter_ok hcombined with rfl | ⟨rfl, hnone⟩
    · obtain ⟨_, -, h⟩ := Except.bind_eq_ok.1 h
      obtain rfl := Except.ok.inj h
      have hmatching : input.matching table = table.ranking (.nearestTo queryVector)
          (effectiveFilter input.filter input.threadMemoryIds) := by
        simp [CountSearchInput.matching, hmode, hqueries]
      refine Sound.of_cases hcap ?_
      rw [hmatching]
      exact table.runCountQuery_cases _ _ _
    · obtain rfl := Except.ok.inj h
      exact Sound.of_no_match hne hnone
  | v :: w :: rest =>
    -- several: the union of their branches
    rw [hvectors] at h hqueries
    obtain ⟨combined, hcombined, h⟩ := Except.bind_eq_ok.1 h
    have htwo : 2 ≤ (v :: w :: rest).length := by simp
    rcases combinedFilter_ok hcombined with rfl | ⟨rfl, hnone⟩
    · obtain ⟨branches, hbranches, h⟩ := Except.bind_eq_ok.1 h
      obtain rfl := Except.ok.inj h
      have hmap := Except.mapM_eq_ok (g := fun v => table.collectIds (.nearestTo v)
        (effectiveFilter input.filter input.threadMemoryIds) (overfetchCap config.countVectorHardCap))
        (fun v b hb => by
          obtain ⟨_, -, hb⟩ := Except.bind_eq_ok.1 hb
          exact (Except.ok.inj hb).symm) hbranches
      have hunion := union_sound_iff table (overfetchCap config.countVectorHardCap) hcap hne
      dsimp only at hunion
      rw [hqueries, List.map_map] at hunion
      rw [hmap, hqueries]
      exact ⟨fun hs _ => hunion.1 hs, fun hr => hunion.2 (hr htwo)⟩
    · obtain rfl := Except.ok.inj h
      exact iff_of_true (Sound.of_no_match hne hnone) fun _ => Revealed.of_no_match hnone _ _ _

/-- A count by one query, in a mode that runs just that query. -/
theorem runCountQuery_sound {table : VectorTable Columns Component} {config : CountConfig}
    {input : CountSearchInput Columns Component} {query : TableQuery Component} {cap : Nat}
    (hcap : input.cap config = some cap) (hmode : input.mode ≠ .filterOnly) (hqueries : input.queries = [query]) :
    let result := table.runCountQuery query (effectiveFilter input.filter input.threadMemoryIds) cap
    Sound table config input result.1 result.2 := by
  refine Sound.of_cases hcap ?_
  have hmatching : input.matching table =
      table.ranking query (effectiveFilter input.filter input.threadMemoryIds) := by
    unfold CountSearchInput.matching
    split
    next hfilter => exact absurd hfilter hmode
    all_goals rw [hqueries, List.flatMap_singleton]
  rw [hmatching]
  exact table.runCountQuery_cases _ _ _

theorem countHybrid_sound_iff {table : VectorTable Columns Component} {config : CountConfig}
    {input : CountSearchInput Columns Component} {queryText : String} {result : Nat × Bool}
    (hmode : input.mode = .hybrid) (htext : input.queryText.getD "" = queryText)
    (h : countHybrid table config input.queryVectors queryText input.hybridOptions input.filter
      input.threadMemoryIds = .ok result) :
    Sound table config input result.1 result.2 ↔ input.NothingHidden table config := by
  have hne : input.mode ≠ .filterOnly := by simp [hmode]
  have hhidden : input.NothingHidden table config ↔
      (input.options.strategy = .rrf ∨ input.options.strategy = .weighted →
        Revealed table (effectiveFilter input.filter input.threadMemoryIds) config.countVectorHardCap
          config.countVectorHardCap input.queries) := by
    simp only [CountSearchInput.NothingHidden, hmode]
  rw [hhidden]
  match hvectors : input.queryVectors with
  | [] | _ :: _ :: _ =>
    rw [hvectors] at h
    cases h
  | [queryVector] =>
    rw [hvectors] at h
    obtain ⟨combined, hcombined, h⟩ := Except.bind_eq_ok.1 h
    rcases combinedFilter_ok hcombined with rfl | ⟨rfl, hnone⟩
    · obtain ⟨_, -, h⟩ := Except.bind_eq_ok.1 h
      change (match input.options.strategy with | .rrf | .weighted => _ | .vectorThenFts => _ | .ftsThenVector => _) =
        Except.ok result at h
      have hqueries : input.queries = match input.options.strategy with
          | .rrf | .weighted => [.nearestTo queryVector, .fullTextSearch queryText]
          | .vectorThenFts => [.nearestTo queryVector]
          | .ftsThenVector => [.fullTextSearch queryText] := by
        simp only [CountSearchInput.queries, hmode, hvectors, htext]
        cases input.options.strategy <;> rfl
      have hcap : input.cap config = match input.options.strategy with
          | .rrf | .weighted | .vectorThenFts => some config.countVectorHardCap
          | .ftsThenVector => some config.ftsCountHardCap := by
        simp only [CountSearchInput.cap, hmode]
      cases hstrategy : input.options.strategy <;> rw [hstrategy] at h hqueries hcap <;> dsimp only at h hqueries hcap
      case rrf | weighted =>
        obtain ⟨vecRes, hvec, h⟩ := Except.bind_eq_ok.1 h
        obtain ⟨_, -, hvec⟩ := Except.bind_eq_ok.1 hvec
        obtain rfl := Except.ok.inj hvec
        obtain rfl := Except.ok.inj h
        have hiff := union_sound_iff table config.countVectorHardCap hcap hne
        dsimp only at hiff
        rw [hqueries] at hiff ⊢
        exact ⟨fun hs _ => hiff.1 hs, fun hr => hiff.2 (hr (by simp))⟩
      case vectorThenFts =>
        obtain ⟨_, -, h⟩ := Except.bind_eq_ok.1 h
        obtain rfl := Except.ok.inj h
        exact iff_of_true (runCountQuery_sound hcap hne hqueries) fun hparallel => by simp at hparallel
      case ftsThenVector =>
        obtain rfl := Except.ok.inj h
        exact iff_of_true (runCountQuery_sound hcap hne hqueries) fun hparallel => by simp at hparallel
    · obtain rfl := Except.ok.inj h
      exact iff_of_true (Sound.of_no_match hne hnone) fun _ => Revealed.of_no_match hnone _ _ _

theorem countText_sound {table : VectorTable Columns Component} {config : CountConfig}
    {input : CountSearchInput Columns Component} {queryText : String} {result : Nat × Bool}
    (hmode : input.mode = .text) (htext : input.queryText.getD "" = queryText)
    (h : countText table config queryText input.filter input.threadMemoryIds = .ok result) :
    Sound table config input result.1 result.2 := by
  have hne : input.mode ≠ .filterOnly := by simp [hmode]
  obtain ⟨combined, hcombined, h⟩ := Except.bind_eq_ok.1 h
  rcases combinedFilter_ok hcombined with rfl | ⟨rfl, hnone⟩
  · obtain rfl := Except.ok.inj h
    exact runCountQuery_sound (by simp only [CountSearchInput.cap, hmode]) hne
      (by simp only [CountSearchInput.queries, hmode, htext])
  · obtain rfl := Except.ok.inj h
    exact Sound.of_no_match hne hnone

theorem countFilterOnly_sound_iff {table : VectorTable Columns Component} {config : CountConfig}
    {input : CountSearchInput Columns Component} {result : Nat × Bool} (hmode : input.mode = .filterOnly)
    (h : countFilterOnly table config input.filter input.threadMemoryIds = .ok result) :
    Sound table config input result.1 result.2 ↔ input.NothingHidden table config := by
  rw [countFilterOnly_ok h]
  simp only [CountSearchInput.NothingHidden, hmode]
  set rows := table.rows.filter (accepts (effectiveFilter input.filter input.threadMemoryIds)) with hrows
  have hmatching : input.matching table = rows := by simp only [CountSearchInput.matching, hmode, hrows]
  have hcount : table.rows.countP (accepts (effectiveFilter input.filter input.threadMemoryIds)) =
      (rows.map IndexRow.memoryId).length := by
    rw [List.length_map, hrows, List.countP_eq_length_filter]
  rw [hcount]
  constructor
  · intro hsound
    have hexact := hsound.exact rfl
    rw [hmatching] at hexact
    exact Multiset.coe_nodup.1 (Multiset.toFinset_card_eq_card_iff_nodup.1 hexact.symm)
  · intro hnodup
    exact ⟨fun _ => by rw [hmatching]; exact (List.toFinset_card_of_nodup hnodup).symm, (nomatch ·)⟩

/-- **When a count keeps its promise.** -/
theorem count_sound_iff {table : VectorTable Columns Component} {config : CountConfig}
    {input : CountSearchInput Columns Component} {output : CountSearchOutput}
    (h : countSearchMatches table config input = .ok output) :
    Sound table config input output.total output.isTruncated ↔ input.NothingHidden table config := by
  obtain ⟨result, hresult, h⟩ := Except.bind_eq_ok.1 h
  obtain rfl := Except.ok.inj h
  unfold countByMode at hresult
  cases hmode : input.mode <;> rw [hmode] at hresult <;> dsimp only at hresult
  case filterOnly => exact countFilterOnly_sound_iff hmode hresult
  case text =>
    obtain ⟨q, hq, hresult⟩ := Except.bind_eq_ok.1 hresult
    refine iff_of_true (countText_sound hmode (CountSearchInput.requiredText_ok hq) hresult) ?_
    simp only [CountSearchInput.NothingHidden, hmode]
  case vector => exact countVector_sound_iff hmode hresult
  case hybrid =>
    obtain ⟨q, hq, hresult⟩ := Except.bind_eq_ok.1 hresult
    exact countHybrid_sound_iff hmode (CountSearchInput.requiredText_ok hq) hresult

/-! ## Two memories, the first with two rows -/

/-- A table every query matches whole, answering in one batch. -/
def tableOf (rows : List (IndexRow Unit)) (h : rows.length ≤ u64Max) : VectorTable Unit ℚ where
  rows := rows
  rows_length := h
  ranking := fun _ filter => rows.filter (accepts filter)
  ranking_matches := fun _ _ _ hrow => List.mem_filter.1 hrow
  execute := fun _ filter limit => [(rows.filter (accepts filter)).take limit]
  execute_flatten := fun _ _ _ => by rw [List.flatten_singleton]
  vectorSize := 1

def twoMemories : VectorTable Unit ℚ := tableOf [⟨1, ()⟩, ⟨1, ()⟩, ⟨2, ()⟩] (by decide)

def hybridCount : CountSearchInput Unit ℚ := ⟨.hybrid, none, none, some "parser", [[1]], none⟩

def cappedAt (hardCap : Nat) : CountConfig := ⟨5000, 50000, 50000, hardCap⟩

/-- With a cap of two no memory is hidden, and the count is exact. -/
theorem hybridCount_exact :
    countSearchMatches twoMemories (cappedAt 2) hybridCount = .ok ⟨2, false, .hybrid⟩ ∧
      Sound twoMemories (cappedAt 2) hybridCount 2 false := by
  have hrun : countSearchMatches twoMemories (cappedAt 2) hybridCount = .ok ⟨2, false, .hybrid⟩ := by decide +kernel
  refine ⟨hrun, (count_sound_iff hrun).2 fun _ => .inr (.inr ?_)⟩
  decide +kernel

/-- **A clipped branch passes for a whole one.** With a cap of one, two rows are read, both of the first
memory; the count says there is one memory, and that it read everything. -/
theorem clipped_union_underreports :
    countSearchMatches twoMemories (cappedAt 1) hybridCount = .ok ⟨1, false, .hybrid⟩ ∧
      ¬ Sound twoMemories (cappedAt 1) hybridCount 1 false := by
  refine ⟨by decide +kernel, fun hsound => ?_⟩
  have hexact := hsound.exact rfl
  revert hexact
  decide +kernel

end MemoryStore.MemorySearch
