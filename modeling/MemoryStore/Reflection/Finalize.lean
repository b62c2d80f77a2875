/-
Finalizing a reflection (`app/src/app/reflection/{validate,finalize,
build_memory_data}.rs`).

A call reads the origin thread and the history of its reflections, finds or
creates the thread that collects the reflections of the user under the labels
of the origin thread, and then inserts everything in one transaction, which it
repeats when a unique index rejects it. Between these steps other calls run, so
a call is a record of what it has read so far, and `Call.advance` takes it one
step further: a read of the pool or a whole transaction.
-/
import MemoryStore.Lib.Sha
import MemoryStore.Lib.NumberText
import MemoryStore.Reflection.Repository

namespace MemoryStore.Reflection

open Conversation (AppError MemoryData ThreadData)

/-- The backend compiled in, and `REFLECTION_RECURRENCE_WINDOW_DAYS`, if it is a number. -/
class Settings where
  postgres : Bool
  recurrenceWindowDays : Option Int

/-! ## Validation -/

/-- `validate_fact`, from the index of the fact on. -/
def validateFacts : Nat → List ReflectionFact → Except AppError (List AnchoredFact)
  | _, [] => .ok []
  | i, fact :: facts =>
    match fact.anchorMemoryId with
    | none =>
      .error (.invalidArgument (s!"facts[{i}].anchor_memory_id must be set (workflow must resolve turn_index " ++
        "to memory_id before calling FinalizeReflection)"))
    | some anchorMemoryId =>
      (validateFacts (i + 1) facts).map
        (⟨anchorMemoryId, fact.kind, fact.turnIndex, fact.note, fact.links⟩ :: ·)

/-- `validate_request`. -/
def validateRequest (req : FinalizeReflectionRequest) : Except AppError ValidRequest :=
  match req.originThreadId, req.parsedOutput with
  | none, _ => .error (.invalidArgument "origin_thread_id is required")
  | some _, none => .error (.invalidArgument "parsed_output is required")
  | some originThreadId, some parsed =>
    if hr : req.reflectorId = "" then .error (.invalidArgument "reflector_id must not be empty")
    else if hp : req.promptVersion = "" then .error (.invalidArgument "prompt_version must not be empty")
    else
      (validateFacts 0 parsed.facts).map fun facts =>
        { originThreadId, outcome := parsed.outcome, taskCategory := parsed.taskCategory
          failureModes := parsed.failureModes, toolsUsed := parsed.toolsUsed, toolOutcomes := parsed.toolOutcomes
          facts, searchDocument := parsed.searchDocument, metadata := parsed.metadata
          reflectorId := req.reflectorId, promptVersion := req.promptVersion, named := ⟨hr, hp⟩ }

/-! ## Phase 1: the reads -/

/-- `DAY_MILLIS`. -/
def dayMillis : Int := 86400000

/-- `recurrence_window_millis`: 30 days unless a positive number is set, and at most `i64::MAX`. -/
def recurrenceWindowMillis [Settings] : Int :=
  min (((Settings.recurrenceWindowDays.filter (0 < ·)).getD 30) * dayMillis) (2 ^ 63 - 1)

/-- What phase 1 has read. -/
structure PhaseOne where
  originUserId : Int
  originChannel : Option String
  originLabels : List String
  isRecurrence : Bool
  previousReflectionId : Option Nat
  deriving DecidableEq, Repr

/-- The reads of phase 1, for a call made at `now`. -/
def phaseOne [Settings] (req : ValidRequest) (now : Int) (s : Store) : Except AppError PhaseOne :=
  match s.conversation.findThread req.originThreadId with
  | none => .error (.notFound s!"origin thread {req.originThreadId} not found")
  | some origin =>
    .ok { originUserId := origin.userId
          originChannel := origin.channel
          originLabels := s.conversation.labelsByThread req.originThreadId
          isRecurrence :=
            s.detectRecurrence origin.userId req.taskCategory req.failureModes recurrenceWindowMillis now
          previousReflectionId := (s.findActiveByThreadId req.originThreadId).map IndexRow.memoryId }

/-! ## Phase 2: the aggregate thread -/

/-- `REFLECTION_LABEL`. -/
def reflectionLabel : String := "reflection"

/-- `compose_aggregate_labels`. -/
def composeAggregateLabels (originLabels : List String) : List String :=
  ((if reflectionLabel ∈ originLabels then originLabels else originLabels ++ [reflectionLabel]).insertionSort
    (· ≤ ·)).dedup

/-- `sha256_join_pipe`. -/
def sha256JoinPipe (labels : List String) : String := Sha256.sha256Hex ("|".intercalate labels)

/-- `MEMORY_KIND_REFLECTION`. -/
def kindReflection : Int := 7

/-- `ROLE_REFLECTION`. -/
def roleReflection : Int := 6

/-- The labels of the aggregate thread of a call. -/
def PhaseOne.targetLabels (p : PhaseOne) : List String := composeAggregateLabels p.originLabels

/-- `labels_hash` of a call. -/
def PhaseOne.labelsHash (p : PhaseOne) : String := sha256JoinPipe p.targetLabels

/-- The aggregate thread to create. -/
def PhaseOne.threadData (p : PhaseOne) : ThreadData :=
  { defaultSystemMemoryId := none
    userId := some p.originUserId
    description := some "aggregate reflection thread"
    channel := none
    embedding := none
    embeddingDim := none
    labels := p.targetLabels
    metadata := none
    memoryKind := kindReflection }

/-- The transaction of `resolve_or_create_aggregate_thread`. -/
def createAggregateThread (p : PhaseOne) (now : Int) : ReflectionTx Nat := do
  let threadId ← onConversation (Conversation.insertThread now p.threadData)
  Tx.forEach p.targetLabels fun label => onConversation (Conversation.addLabel now threadId label)
  insertAggregateKey p.originUserId p.labelsHash threadId now
  pure threadId

/-! ## Phase 3: the main transaction -/

/-- `external_id_for`. -/
def externalIdFor (threadId : Nat) (promptVersion reflectorId : String) : String :=
  s!"reflection:{threadId}:{promptVersion}:{reflectorId}"

/-- The external id of the reflection a request asks for. -/
def ValidRequest.externalId (req : ValidRequest) : String :=
  externalIdFor req.originThreadId req.promptVersion req.reflectorId

/-- `memory_data` of `build_parts`. -/
def ValidRequest.memoryData (req : ValidRequest) (p : PhaseOne) (now : Int) : MemoryData :=
  { parentIds := []
    userId := some p.originUserId
    content := req.searchDocument
    contentType := 0
    params := none
    metadata := some req.metadata
    createdAt := now
    updatedAt := now
    role := roleReflection
    externalId := some req.externalId
    mediaObjectId := none
    memoryKind := kindReflection }

/-- `build_index_row`. -/
def ValidRequest.indexRow (req : ValidRequest) (p : PhaseOne) (aggregateThreadId memoryId : Nat) (now : Int) :
    IndexRow :=
  { memoryId
    threadId := aggregateThreadId
    originThreadId := req.originThreadId
    originUserId := p.originUserId
    originChannel := p.originChannel
    outcome := req.outcome
    taskCategory := req.taskCategory
    promptVersion := req.promptVersion
    previousReflectionId := p.previousReflectionId
    isRecurrence := p.isRecurrence
    createdAt := now
    updatedAt := now }

/-- `FactLinkField::as_str_name`, of any other value that of `UNSPECIFIED`. -/
def factLinkFieldName : Int → String
  | 1 => "FACT_LINK_FIELD_LESSON"
  | 2 => "FACT_LINK_FIELD_FAILURE_MODE"
  | 3 => "FACT_LINK_FIELD_KEY_DECISION"
  | 4 => "FACT_LINK_FIELD_SUCCESS_FACTOR"
  | _ => "FACT_LINK_FIELD_UNSPECIFIED"

/-- One entry of `serialize_fact_links`. -/
def FactLink.json (link : FactLink) : String :=
  "\x7b\"field\":\"" ++ factLinkFieldName link.field ++ "\",\"index\":" ++ toString link.index ++ "\x7d"

/-- `links_json`: none without links, else `serialize_fact_links`. -/
def linksJson (links : List FactLink) : Option String :=
  if links.isEmpty then none else some ("[" ++ ",".intercalate (links.map FactLink.json) ++ "]")

/-- The row of a fact. The turn is cast to `i32`. -/
def AnchoredFact.row (fact : AnchoredFact) (memoryId : Nat) : FactRow :=
  { memoryId
    factMemoryId := fact.anchorMemoryId
    factKind := fact.kind
    turnIndex := (fact.turnIndex : Int).bmod (2 ^ 32)
    note := fact.note
    linksJson := linksJson fact.links }

/-- The failure modes as they are stored, each once. -/
def ValidRequest.modes (req : ValidRequest) : List String := (req.failureModes.filterMap failureModeName).eraseDups

/-- The tools that are stored: those with a name. -/
def ValidRequest.namedTools (req : ValidRequest) : List String := req.toolsUsed.filter (· ≠ "")

/-- The key `tool_contribution_stats` counts an entry under. -/
def ToolOutcomeEntry.contributionKey (userId : Int) (entry : ToolOutcomeEntry) : ToolContributionKey :=
  ⟨userId, entry.tool, entry.contribution, entry.errorKind.getD ""⟩

/-- The child rows and the statistics of a reflection. -/
def insertChildren (req : ValidRequest) (originUserId : Int) (memoryId : Nat) (now : Int) : ReflectionTx Unit := do
  Tx.forEach req.modes fun mode => Tx.writes (·.insertMode memoryId mode)
  Tx.forEach req.namedTools fun tool => Tx.writes (·.insertTool memoryId tool)
  Tx.forEach req.namedTools.eraseDups fun tool =>
    Tx.writes (·.upsertToolOutcome ⟨originUserId, tool, req.outcome⟩ now)
  Tx.forEach req.toolOutcomes fun entry => do
    Tx.writes (·.insertOutcome memoryId entry.tool entry.contribution entry.errorKind)
    Tx.writes (·.upsertToolContribution (entry.contributionKey originUserId) now)
  Tx.forEach req.facts fun fact => Tx.writes (·.insertFact (fact.row memoryId))

/-- `run_phase3`, of a call made at `calledAt`, tried at `now`. That the external
id is taken is `alreadyExists`. -/
def runPhase3 [Settings] (req : ValidRequest) (p : PhaseOne) (aggregateThreadId : Nat) (calledAt now : Int) :
    ReflectionTx Nat := do
  let s ← Tx.get
  Tx.ensure (!Settings.postgres || (s.conversation.findThread aggregateThreadId).isSome)
    (.notFound s!"aggregate thread {aggregateThreadId} not found")
  let memoryId ← onConversation (Conversation.insertMemory now (req.memoryData p calledAt))
  onConversation (Conversation.insertAutoPosition now aggregateThreadId memoryId)
  let _ ← onConversation (Conversation.refreshMessageBounds now aggregateThreadId)
  Tx.writes (·.insertIndex (req.indexRow p aggregateThreadId memoryId now))
  insertChildren req p.originUserId memoryId now
  pure memoryId

/-! ## A call -/

/-- `MAX_PHASE3_RETRIES`. -/
def maxPhase3Retries : Nat := 3

/-- How far a call has come. -/
inductive Stage where
  /-- The request is valid; nothing is read yet. -/
  | validated
  /-- Phase 1 is done, and the aggregate thread is to be looked up. -/
  | read (p : PhaseOne)
  /-- There was no aggregate thread, and one is to be created. -/
  | missed (p : PhaseOne)
  /-- Another call created it first, and it is to be looked up again. -/
  | lost (p : PhaseOne)
  /-- The aggregate thread is known; so many attempts of phase 3 have been made. -/
  | ready (p : PhaseOne) (aggregateThreadId attempts : Nat)
  /-- The external id was taken, and its memory is to be looked up. -/
  | refused
  | returned (result : Except AppError Nat)

structure Call where
  request : ValidRequest
  calledAt : Int
  stage : Stage

/-- The next step of a call, at `now`. -/
def Call.advance [Settings] (call : Call) (now : Int) (s : Store) : Store × Stage :=
  match call.stage with
  | .validated =>
    match phaseOne call.request call.calledAt s with
    | .ok p => (s, .read p)
    | .error e => (s, .returned (.error e))
  | .read p =>
    match s.findAggregateKey p.originUserId p.labelsHash with
    | some row => (s, .ready p row.threadId 0)
    | none => (s, .missed p)
  | .missed p =>
    match createAggregateThread p call.calledAt s with
    | .ok (threadId, s') => (s', .ready p threadId 0)
    | .error (.alreadyExists _) => (s, .lost p)
    | .error e => (s, .returned (.error e))
  | .lost p =>
    match s.findAggregateKey p.originUserId p.labelsHash with
    | some row => (s, .ready p row.threadId 0)
    | none =>
      (s, .returned (.error (.bail (s!"aggregate_key UNIQUE violation but no row visible to fallback select " ++
        s!"(user_id={p.originUserId})"))))
  | .ready p aggregateThreadId _ =>
    match runPhase3 call.request p aggregateThreadId call.calledAt now s with
    | .ok (memoryId, s') => (s', .returned (.ok memoryId))
    | .error (.alreadyExists _) => (s, .refused)
    | .error e => (s, .returned (.error e))
  | .refused =>
    match s.conversation.findByExternalId call.request.externalId with
    | some row => (s, .returned (.ok row.id))
    | none =>
      (s, .returned (.error (.bail (s!"external_id {call.request.externalId} reported UNIQUE violation " ++
        "but row not found in fallback select"))))
  | .returned result => (s, .returned result)

/-- An attempt of phase 3 whose position another transaction took first: it is
rolled back, and made again while there are attempts left. -/
def Call.collide (call : Call) : Stage :=
  match call.stage with
  | .ready p aggregateThreadId attempts =>
    if attempts + 1 < maxPhase3Retries then .ready p aggregateThreadId (attempts + 1)
    else .returned (.error (.alreadyExists "UNIQUE constraint failed: thread_memory.thread_id, thread_memory.position"))
  | stage => stage

end MemoryStore.Reflection
