/-
The repositories of reflections (`infra/src/infra/reflection/*.rs`): one
definition per SQL statement.
-/
import MemoryStore.Reflection.Rows
import MemoryStore.Conversation.Repository

namespace MemoryStore.Reflection

open Table
open Conversation (AppError StoreTx)

/-- A transaction on the database. -/
abbrev ReflectionTx := Tx AppError Store

/-- A transaction on the tables of memories and threads, as one on all tables. -/
def onConversation {α : Type} (m : StoreTx α) : ReflectionTx α := fun s =>
  match m s.conversation with
  | .ok (a, conversation) => .ok (a, { s with conversation })
  | .error e => .error e

/-! ## The sidecar -/

/-- `find_by_memory_id`. -/
def Store.findByMemoryId (s : Store) (memoryId : Nat) : Option IndexRow :=
  s.index.find? fun row => row.memoryId = memoryId

/-- `ORDER BY created_at DESC, memory_id DESC`. -/
def IndexRow.notBefore (a b : IndexRow) : Prop :=
  b.createdAt < a.createdAt ∨ (b.createdAt = a.createdAt ∧ b.memoryId ≤ a.memoryId)

instance IndexRow.decidableNotBefore : DecidableRel IndexRow.notBefore := fun _ _ => inferInstanceAs (Decidable (_ ∨ _))

/-- `list_history_by_thread_id`. -/
def Store.listHistoryByThreadId (s : Store) (originThreadId : Nat) : List IndexRow :=
  (s.index.filter fun row => row.originThreadId = originThreadId).insertionSort IndexRow.notBefore

/-- `find_active_by_thread_id(…, require_intent_ok = false)`: the same order, `LIMIT 1`. -/
def Store.findActiveByThreadId (s : Store) (originThreadId : Nat) : Option IndexRow :=
  (s.listHistoryByThreadId originThreadId).head?

/-- `db_name_from_i32` of a failure mode: unknown values and `UNSPECIFIED` have none. -/
def failureModeName : Int → Option String
  | 1 => some "tool_misuse"
  | 2 => some "loop"
  | 3 => some "scope_drift"
  | 4 => some "hallucination"
  | 5 => some "context_overflow"
  | 6 => some "data_loss"
  | 7 => some "permission_issue"
  | 8 => some "ambiguous_instruction"
  | 9 => some "conflicting_requirements"
  | 10 => some "missing_context"
  | 11 => some "misleading_premise"
  | 12 => some "goal_drift_by_user"
  | 13 => some "tool_unavailable"
  | 14 => some "external_service_failure"
  | 15 => some "rate_limit"
  | 16 => some "OTHER"
  | _ => none

/-- `detect_recurrence`, with no memory excluded. -/
def Store.detectRecurrence (s : Store) (originUserId taskCategory : Int) (failureModes : List Int)
    (windowMillis now : Int) : Bool :=
  let modes := failureModes.filterMap failureModeName
  s.index.any fun tri =>
    tri.originUserId = originUserId && tri.taskCategory = taskCategory && now - windowMillis ≤ tri.createdAt &&
      s.failureModes.any fun rfm => rfm.memoryId = tri.memoryId && rfm.mode ∈ modes

/-- `insert_index_tx`, of a memory that has no row yet. -/
def Store.insertIndex (s : Store) (row : IndexRow) : Store := { s with index := s.index ++ [row] }

/-- `delete_by_memory_id_tx` of the sidecar. -/
def Store.deleteIndex (s : Store) (memoryId : Nat) : Store :=
  { s with index := s.index.filter fun row => row.memoryId ≠ memoryId }

/-! ## The child tables -/

/-- `insert_mode_tx`. -/
def Store.insertMode (s : Store) (memoryId : Nat) (mode : String) : Store :=
  { s with failureModes := insertIgnore id ⟨memoryId, mode⟩ s.failureModes }

/-- `insert_tool_tx`. -/
def Store.insertTool (s : Store) (memoryId : Nat) (tool : String) : Store :=
  { s with tools := insertIgnore id ⟨memoryId, tool⟩ s.tools }

/-- `insert_outcome_tx`: no error kind is stored as the empty one. -/
def Store.insertOutcome (s : Store) (memoryId : Nat) (tool : String) (contribution : Int)
    (errorKind : Option String) : Store :=
  { s with toolOutcomes := insertIgnore id ⟨memoryId, tool, contribution, errorKind.getD ""⟩ s.toolOutcomes }

/-- The primary key of `reflection_fact`. -/
def FactRow.key (row : FactRow) : Nat × Nat × Int := (row.memoryId, row.factMemoryId, row.factKind)

/-- `insert_fact_tx`. -/
def Store.insertFact (s : Store) (row : FactRow) : Store :=
  { s with facts := insertIgnore FactRow.key row s.facts }

/-- `delete_by_memory_id_tx` of the six child tables. -/
def Store.deleteChildren (s : Store) (memoryId : Nat) : Store :=
  { s with
      failureModes := s.failureModes.filter fun row => row.memoryId ≠ memoryId
      tools := s.tools.filter fun row => row.memoryId ≠ memoryId
      toolOutcomes := s.toolOutcomes.filter fun row => row.memoryId ≠ memoryId
      facts := s.facts.filter fun row => row.memoryId ≠ memoryId
      appliedTargets := s.appliedTargets.filter fun row => row.memoryId ≠ memoryId
      fewShotUsages := s.fewShotUsages.filter fun row => row.memoryId ≠ memoryId }

/-! ## Aggregate threads -/

/-- `find` of the aggregate keys. -/
def Store.findAggregateKey (s : Store) (userId : Int) (labelsHash : String) : Option AggregateKeyRow :=
  s.aggregateKeys.find? fun row => (row.userId, row.labelsHash) = (userId, labelsHash)

/-- `insert_tx` of an aggregate key, under its primary key. -/
def insertAggregateKey (userId : Int) (labelsHash : String) (threadId : Nat) (now : Int) : ReflectionTx Unit := do
  let s ← Tx.get
  Tx.ensure (s.findAggregateKey userId labelsHash).isNone (.alreadyExists "UNIQUE constraint failed: thread_aggregate_key")
  Tx.writes fun s => { s with aggregateKeys := s.aggregateKeys ++ [⟨userId, labelsHash, threadId, now⟩] }

/-! ## Derived statistics -/

/-- `upsert_tool_outcome_tx` with a delta of 1. -/
def Store.upsertToolOutcome (s : Store) (key : ToolOutcomeKey) (now : Int) : Store :=
  { s with toolOutcomeStats := Counter.upsert key 1 now s.toolOutcomeStats }

/-- `upsert_tool_contribution_tx` with a delta of 1. -/
def Store.upsertToolContribution (s : Store) (key : ToolContributionKey) (now : Int) : Store :=
  { s with toolContributionStats := Counter.upsert key 1 now s.toolContributionStats }

/-- `thread_reflection_index tri JOIN child ON child.memory_id = tri.memory_id`,
with a key of the two rows and `tri.created_at`. -/
def joined {ρ κ : Type} (memoryId : ρ → Nat) (key : IndexRow → ρ → κ) (index : List IndexRow) (child : List ρ) :
    List (κ × Int) :=
  index.flatMap fun tri => (child.filter fun r => memoryId r = tri.memoryId).map fun r => (key tri r, tri.createdAt)

/-- The columns `REBUILD_TOS_INSERT_*_SQL` groups by. -/
def toolOutcomeKey (tri : IndexRow) (rt : ToolRow) : ToolOutcomeKey := ⟨tri.originUserId, rt.tool, tri.outcome⟩

/-- The columns `REBUILD_TCS_INSERT_*_SQL` groups by. -/
def toolContributionKey (tri : IndexRow) (rto : ToolOutcomeRow) : ToolContributionKey :=
  ⟨tri.originUserId, rto.tool, rto.contribution, rto.errorKind⟩

/-- The rows `rebuild_tool_outcome_stats` counts. -/
def Store.toolOutcomeEntries (s : Store) : List (ToolOutcomeKey × Int) :=
  joined ToolRow.memoryId toolOutcomeKey s.index s.tools

/-- The rows `rebuild_tool_contribution_stats` counts. -/
def Store.toolContributionEntries (s : Store) : List (ToolContributionKey × Int) :=
  joined ToolOutcomeRow.memoryId toolContributionKey s.index s.toolOutcomes

/-- The users a rebuild is for: one, or all. -/
def inScope : Option Int → Int → Bool
  | none, _ => true
  | some userId, originUserId => originUserId = userId

/-- `rebuild_tool_outcome_stats`. -/
def Store.rebuildToolOutcomeStats (s : Store) (originUserId : Option Int) : Store :=
  { s with
      toolOutcomeStats :=
        Counter.rebuild (fun k => inScope originUserId k.originUserId) s.toolOutcomeEntries s.toolOutcomeStats }

/-- `rebuild_tool_contribution_stats`. -/
def Store.rebuildToolContributionStats (s : Store) (originUserId : Option Int) : Store :=
  { s with
      toolContributionStats :=
        Counter.rebuild (fun k => inScope originUserId k.originUserId) s.toolContributionEntries
          s.toolContributionStats }

end MemoryStore.Reflection
