/-
The filter of reflection searches (`app/src/app/reflection/search.rs`,
`infra/src/infra/reflection/{rdb,failure_mode_convert}.rs`): how the one of a
request is resolved, and the rows of the sidecar that meet it. A `WHERE` clause
is the list of its conditions; a comparison with a column that is NULL fails.

Rows are kept with the columns filters read. Scores are of any type with a
comparison, in which a score that is not a number compares with none.
-/
import MemoryStore.Lib.PageWalk
import MemoryStore.Reflection.Repository

namespace MemoryStore.Reflection

/-- Rows of a side table are equal when they compare equal. -/
local instance lawfulSide : LawfulBEq (Int × String) := inferInstance

/-! ## The sidecar -/

/-- A row of `thread_reflection_index`: the columns filters read. -/
structure SidecarRow (α : Type) where
  memoryId : Int
  originThreadId : Int
  originUserId : Int
  originChannel : Option String
  outcome : Int
  score : α
  taskCategory : Int
  reflectionAspect : Int
  datasetQuality : Int
  summaryEmbeddingStatus : Int
  intentEmbeddingStatus : Int
  promptVersion : String
  targetModelVersion : Option String
  experimentId : Option String
  experimentVariant : Option String
  pinned : Bool
  isRecurrence : Bool
  createdAt : Int
  deriving DecidableEq, Repr

/-- The sidecar with the two child tables filters read, each row a memory and its mode or tool. -/
structure Sidecar (α : Type) where
  rows : List (SidecarRow α)
  failureModes : List (Int × String)
  tools : List (Int × String)
  /-- `memory_id` is the primary key. -/
  unique : (rows.map SidecarRow.memoryId).Nodup

/-! ## Filters -/

/-- `ReflectionSearchFilter`. -/
structure ReflectionSearchFilter (α : Type) where
  originUserId : Option Int := none
  originChannel : Option String := none
  outcomes : List Int := []
  scoreMin : Option α := none
  scoreMax : Option α := none
  taskCategories : List Int := []
  reflectionAspect : Option Int := none
  failureModes : List Int := []
  failureModesMatchAny : List Int := []
  toolsUsed : List String := []
  toolsUsedMatchAny : List String := []
  promptVersion : Option String := none
  targetModelVersion : Option String := none
  experimentId : Option String := none
  experimentVariant : Option String := none
  pinned : Option Bool := none
  datasetQuality : Option Int := none
  summaryEmbeddingStatus : Option Int := none
  intentEmbeddingStatus : Option Int := none
  createdAfter : Option Int := none
  createdBefore : Option Int := none
  originThreadId : Option Int := none

/-- `ResolvedReflectionSearchFilter`. -/
structure ResolvedFilter (α : Type) where
  originUserId : Option Int := none
  originChannel : Option String := none
  originThreadId : Option Int := none
  outcomes : List Int := []
  scoreMin : Option α := none
  scoreMax : Option α := none
  taskCategories : List Int := []
  reflectionAspect : Option Int := none
  failureModesAll : List String := []
  failureModesAny : List String := []
  toolsUsedAll : List String := []
  toolsUsedAny : List String := []
  promptVersion : Option String := none
  targetModelVersion : Option String := none
  experimentId : Option String := none
  experimentVariant : Option String := none
  pinned : Option Bool := none
  datasetQuality : Option Int := none
  summaryEmbeddingStatus : Option Int := none
  intentEmbeddingStatus : Option Int := none
  createdAfter : Option Int := none
  createdBefore : Option Int := none
  isRecurrence : Option Bool := none
  /-- The cursor of a keyset scan. -/
  memoryIdLt : Option Int := none

/-- `UNRESOLVABLE_MODE_SENTINEL`. -/
def unresolvableModeSentinel : String := "__failure_mode_sentinel_no_match__"

/-- `i32_slice_to_db_keys`: where no mode of a filter is known, one that no row has stands for them. -/
def i32SliceToDbKeys (modes : List Int) : List String :=
  if modes.isEmpty then []
  else
    let resolved := modes.filterMap failureModeName
    if resolved.isEmpty then [unresolvableModeSentinel] else resolved

/-- `resolve_filter`. The scores of a request are single floats, which double ones hold unchanged. -/
def resolveFilter {α : Type} (f : ReflectionSearchFilter α) : ResolvedFilter α :=
  { originUserId := f.originUserId
    originChannel := f.originChannel
    originThreadId := f.originThreadId
    outcomes := f.outcomes
    scoreMin := f.scoreMin
    scoreMax := f.scoreMax
    taskCategories := f.taskCategories
    reflectionAspect := f.reflectionAspect
    failureModesAll := i32SliceToDbKeys f.failureModes
    failureModesAny := i32SliceToDbKeys f.failureModesMatchAny
    toolsUsedAll := f.toolsUsed
    toolsUsedAny := f.toolsUsedMatchAny
    promptVersion := f.promptVersion
    targetModelVersion := f.targetModelVersion
    experimentId := f.experimentId
    experimentVariant := f.experimentVariant
    pinned := f.pinned
    datasetQuality := f.datasetQuality
    summaryEmbeddingStatus := f.summaryEmbeddingStatus
    intentEmbeddingStatus := f.intentEmbeddingStatus
    createdAfter := f.createdAfter
    createdBefore := f.createdBefore
    isRecurrence := none
    memoryIdLt := none }

/-- The filter `redispatch` works with: one that matches everything where the request has none. -/
def resolvedFilter {α : Type} (request : Option (ReflectionSearchFilter α)) : ResolvedFilter α :=
  (request.map resolveFilter).getD {}

/-- A resolved filter has no cursor. -/
theorem resolvedFilter_memoryIdLt {α : Type} (request : Option (ReflectionSearchFilter α)) :
    (resolvedFilter request).memoryIdLt = none := by
  cases request <;> rfl

/-! ## The `WHERE` clause -/

section

variable {α : Type} [LE α] [DecidableLE α]

/-- The conditions `build_filter_where` joins, in their order, at one row. -/
def ResolvedFilter.clauses (f : ResolvedFilter α) (t : Sidecar α) (tri : SidecarRow α) : List Bool :=
  [ f.originUserId.all (tri.originUserId = ·),
    f.originChannel.all fun v => tri.originChannel = some v,
    f.originThreadId.all (tri.originThreadId = ·),
    f.outcomes.isEmpty || tri.outcome ∈ f.outcomes,
    f.scoreMin.all (· ≤ tri.score),
    f.scoreMax.all (tri.score ≤ ·),
    f.taskCategories.isEmpty || tri.taskCategory ∈ f.taskCategories,
    f.reflectionAspect.all (tri.reflectionAspect = ·),
    f.promptVersion.all (tri.promptVersion = ·),
    f.targetModelVersion.all fun v => tri.targetModelVersion = some v,
    f.experimentId.all fun v => tri.experimentId = some v,
    f.experimentVariant.all fun v => tri.experimentVariant = some v,
    f.pinned.all (tri.pinned = ·),
    f.datasetQuality.all (tri.datasetQuality = ·),
    f.summaryEmbeddingStatus.all (tri.summaryEmbeddingStatus = ·),
    f.intentEmbeddingStatus.all (tri.intentEmbeddingStatus = ·),
    f.createdAfter.all (· ≤ tri.createdAt),
    f.createdBefore.all (tri.createdAt ≤ ·),
    f.isRecurrence.all (tri.isRecurrence = ·),
    f.memoryIdLt.all (tri.memoryId < ·) ] ++
  (f.failureModesAll.map fun mode => decide ((tri.memoryId, mode) ∈ t.failureModes)) ++
  [f.failureModesAny.isEmpty || t.failureModes.any fun rfm => rfm.1 = tri.memoryId && rfm.2 ∈ f.failureModesAny] ++
  (f.toolsUsedAll.map fun tool => decide ((tri.memoryId, tool) ∈ t.tools)) ++
  [f.toolsUsedAny.isEmpty || t.tools.any fun rt => rt.1 = tri.memoryId && rt.2 ∈ f.toolsUsedAny]

/-- A row meets the `WHERE` clause. -/
def ResolvedFilter.admits (f : ResolvedFilter α) (t : Sidecar α) (tri : SidecarRow α) : Bool := (f.clauses t tri).all id

/-- `search_index` in the order `MemoryIdDesc`, at offset 0. -/
def Sidecar.searchIndex (t : Sidecar α) (f : ResolvedFilter α) (limit : Nat) : List (SidecarRow α) :=
  (PageWalk.newest SidecarRow.memoryId (t.rows.filter (f.admits t))).take limit

/-- A cursor is one more condition. -/
theorem admits_memoryIdLt (f : ResolvedFilter α) (cursor : Option Int) (t : Sidecar α) (tri : SidecarRow α) :
    { f with memoryIdLt := cursor }.admits t tri =
      ({ f with memoryIdLt := none }.admits t tri && PageWalk.isBelow cursor tri.memoryId) := by
  unfold ResolvedFilter.admits ResolvedFilter.clauses PageWalk.isBelow
  simp only [List.all_append, List.all_cons, List.all_nil, id_eq, Option.all_none, Bool.true_and, Bool.and_true]
  ac_rfl

/-- So is the status of the intent's embedding, where the filter leaves it open. -/
theorem admits_intentEmbeddingStatus (f : ResolvedFilter α) (status : Int) (t : Sidecar α) (tri : SidecarRow α) :
    { f with intentEmbeddingStatus := some status }.admits t tri =
      ({ f with intentEmbeddingStatus := none }.admits t tri && decide (tri.intentEmbeddingStatus = status)) := by
  unfold ResolvedFilter.admits ResolvedFilter.clauses
  simp only [List.all_append, List.all_cons, List.all_nil, id_eq, Option.all_none, Option.all_some,
    Bool.and_true]
  ac_rfl

end

end MemoryStore.Reflection
