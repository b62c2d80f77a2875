/-
The tables of reflections (`infra/sql/sqlite/003_reflection_schema.sql`, the row
types of `infra/src/infra/reflection/rows.rs`) beside those of memories and
threads, and the request that finalizes a reflection.

A reflection is a memory with a sidecar row and rows in six child tables; no
foreign key ties them together. Scores, weights, embedding states and the
target and experiment fields are left out. The text and the metadata of the
memory come with the request as they are built from it.
-/
import MemoryStore.Lib.Upsert
import MemoryStore.Conversation.Rows

namespace MemoryStore.Reflection

/-! ## The sidecar and its child tables -/

/-- A row of `thread_reflection_index`. -/
structure IndexRow where
  memoryId : Nat
  /-- The aggregate thread the reflection is attached to. -/
  threadId : Nat
  /-- The thread the reflection is about. -/
  originThreadId : Nat
  originUserId : Int
  originChannel : Option String
  outcome : Int
  taskCategory : Int
  promptVersion : String
  previousReflectionId : Option Nat
  isRecurrence : Bool
  createdAt : Int
  updatedAt : Int
  deriving DecidableEq, Repr

structure FailureModeRow where
  memoryId : Nat
  mode : String
  deriving DecidableEq, Repr

structure ToolRow where
  memoryId : Nat
  tool : String
  deriving DecidableEq, Repr

/-- `error_kind` is `''` where none was reported. -/
structure ToolOutcomeRow where
  memoryId : Nat
  tool : String
  contribution : Int
  errorKind : String
  deriving DecidableEq, Repr

structure FactRow where
  memoryId : Nat
  factMemoryId : Nat
  factKind : Int
  turnIndex : Int
  note : Option String
  linksJson : Option String
  deriving DecidableEq, Repr

structure AppliedTargetRow where
  memoryId : Nat
  target : String
  mitigationFingerprint : Option String
  appliedAt : Int
  deriving DecidableEq, Repr

structure FewShotUsageRow where
  memoryId : Nat
  usedInThreadId : Nat
  usedAt : Int
  deriving DecidableEq, Repr

/-! ## Aggregates -/

/-- A row of `thread_aggregate_key`. -/
structure AggregateKeyRow where
  userId : Int
  labelsHash : String
  threadId : Nat
  createdAt : Int
  deriving DecidableEq, Repr

/-- The primary key of `tool_outcome_stats`. -/
structure ToolOutcomeKey where
  originUserId : Int
  tool : String
  outcome : Int
  deriving DecidableEq, Repr

/-- The primary key of `tool_contribution_stats`. -/
structure ToolContributionKey where
  originUserId : Int
  tool : String
  contribution : Int
  errorKind : String
  deriving DecidableEq, Repr

/-! ## The database -/

structure Store where
  conversation : Conversation.Store
  index : List IndexRow
  failureModes : List FailureModeRow
  tools : List ToolRow
  toolOutcomes : List ToolOutcomeRow
  facts : List FactRow
  appliedTargets : List AppliedTargetRow
  fewShotUsages : List FewShotUsageRow
  aggregateKeys : List AggregateKeyRow
  toolOutcomeStats : List (Counter ToolOutcomeKey)
  toolContributionStats : List (Counter ToolContributionKey)
  deriving DecidableEq, Repr

/-- A deployment without reflections yet. -/
def Store.fresh (conversation : Conversation.Store) : Store := ⟨conversation, [], [], [], [], [], [], [], [], [], []⟩

/-! ## The request -/

structure ToolOutcomeEntry where
  tool : String
  contribution : Int
  errorKind : Option String
  deriving DecidableEq, Repr

structure FactLink where
  field : Int
  index : Nat
  deriving DecidableEq, Repr

/-- `ReflectionFact`. The anchor is resolved when a finalize is to be accepted. -/
structure ReflectionFact where
  anchorMemoryId : Option Nat
  kind : Int
  turnIndex : Nat
  note : Option String
  links : List FactLink
  deriving DecidableEq, Repr

/-- `ReflectionLlmOutput`, with the search document and the metadata built from it. -/
structure ReflectionLlmOutput where
  outcome : Int
  taskCategory : Int
  failureModes : List Int
  toolsUsed : List String
  toolOutcomes : List ToolOutcomeEntry
  facts : List ReflectionFact
  searchDocument : String
  metadata : String
  deriving DecidableEq, Repr

structure FinalizeReflectionRequest where
  originThreadId : Option Nat
  parsedOutput : Option ReflectionLlmOutput
  reflectorId : String
  promptVersion : String
  deriving DecidableEq, Repr

/-- A fact with its anchor. -/
structure AnchoredFact where
  anchorMemoryId : Nat
  kind : Int
  turnIndex : Nat
  note : Option String
  links : List FactLink
  deriving DecidableEq, Repr

/-- A request that has passed `validate_request`: what it may lack is there. -/
structure ValidRequest where
  originThreadId : Nat
  outcome : Int
  taskCategory : Int
  failureModes : List Int
  toolsUsed : List String
  toolOutcomes : List ToolOutcomeEntry
  facts : List AnchoredFact
  searchDocument : String
  metadata : String
  reflectorId : String
  promptVersion : String
  named : reflectorId ≠ "" ∧ promptVersion ≠ ""
  deriving DecidableEq, Repr

end MemoryStore.Reflection
