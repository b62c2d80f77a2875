/-
The search-index maintenance coordinator
(`infra/src/infra/search_index_maintenance.rs`): starting a task, and the
completion step that ends it.

Both run under the state lock, so each is one step here. A task id `sim-n` is
kept as its number `n`, and the hash maps of the state as a list of running
tasks and as functions from targets. Clock readings are arguments, in
milliseconds. `i64` sums wrap and `as i32`, `as i64` cut off, as a release
build has them.
-/
import MemoryStore.Maintenance.Config

namespace MemoryStore.Maintenance

/-! ## Targets, actions and records -/

inductive MaintenanceTarget where
  | memoryFts | memoryVector | memoryTable | threadFts | threadVector | threadTable
  deriving DecidableEq, Repr

def MaintenanceTarget.physicalTable : MaintenanceTarget → MaintenanceTarget
  | .memoryFts | .memoryVector | .memoryTable => .memoryTable
  | .threadFts | .threadVector | .threadTable => .threadTable

def MaintenanceTarget.isComponent : MaintenanceTarget → Bool
  | .memoryFts | .memoryVector | .threadFts | .threadVector => true
  | .memoryTable | .threadTable => false

inductive MaintenanceAction where
  | check | build | optimize
  deriving DecidableEq, Repr

inductive OptimizeAction where
  | index | compact | prune
  deriving DecidableEq, Repr

def normalizeOptimizeActions (actions : List OptimizeAction) : List OptimizeAction :=
  let compact := decide (.compact ∈ actions)
  let index := compact || decide (.index ∈ actions)
  let prune := decide (.prune ∈ actions)
  (if compact then [.compact] else []) ++ (if index then [.index] else []) ++ (if prune then [.prune] else [])

inductive TaskStatus where
  | running | succeeded | failed | skipped | skippedDisabled | deferred
  deriving DecidableEq, Repr

inductive ObservationStatus where
  | observed | unavailable
  deriving DecidableEq, Repr

structure IndexObservation where
  target : MaintenanceTarget
  observedAtUnixMs : Nat
  status : ObservationStatus
  indexPresent : Option Bool
  unindexedRows : Option Nat
  errorSummary : String
  deriving DecidableEq, Repr

structure MaintenanceWarning where
  category : String
  recordedAtUnixMs : Nat
  summary : String
  deriving DecidableEq, Repr

structure SubActionResult where
  action : OptimizeAction
  status : TaskStatus
  errorSummary : String
  deriving DecidableEq, Repr

structure TaskCompletion where
  status : TaskStatus
  errorSummary : String
  observations : List IndexObservation
  warnings : List MaintenanceWarning
  subActions : List SubActionResult
  deriving DecidableEq, Repr

structure MaintenanceTask where
  taskId : Nat
  requestedTarget : MaintenanceTarget
  physicalTable : MaintenanceTarget
  action : MaintenanceAction
  status : TaskStatus
  startedAtUnixMs : Nat
  finishedAtUnixMs : Option Nat
  errorSummary : String
  observations : List IndexObservation
  warnings : List MaintenanceWarning
  subActions : List SubActionResult
  deriving DecidableEq, Repr

def TaskCompletion.failed (errorSummary : String) : TaskCompletion := ⟨.failed, errorSummary, [], [], []⟩

def unavailableObservation (target : MaintenanceTarget) (summary : String) (now : Nat) : IndexObservation :=
  ⟨target, now, .unavailable, none, none, summary⟩

def checkTimeoutCompletion (target : MaintenanceTarget) (now : Nat) : TaskCompletion :=
  let targets : List MaintenanceTarget := match target with
    | .memoryTable => [.memoryFts, .memoryVector]
    | .threadTable => [.threadFts, .threadVector]
    | component => [component]
  let summary := "check deadline exceeded"
  ⟨.succeeded, "", targets.map fun component => unavailableObservation component summary now,
    [⟨"CHECK_TIMEOUT", now, summary⟩], []⟩

/-- The formatted error names a passing fault. -/
def isRetryableError (error : String) : Bool :=
  let error := error.toList.map Char.toLower
  decide ("conflict".toList <:+: error) || decide ("temporar".toList <:+: error) ||
    decide ("unavailable".toList <:+: error) || decide ("timeout".toList <:+: error)

/-! ## The coordinator -/

structure CandidateState where
  lastIndexAtUnixMs : Option Nat
  lastCompactAtUnixMs : Option Nat
  lastPruneAtUnixMs : Option Nat
  retryAfterUnixMs : Option Int
  nonRetryable : Bool
  deriving DecidableEq, Repr

def CandidateState.default : CandidateState := ⟨none, none, none, none, false⟩

/-- What `with_policy` fixes. -/
structure Policy where
  historyLimit : Nat
  checkDeadline : Duration
  backoffInitial : Duration
  backoffMultiplier : ℚ
  backoffMax : Duration
  tableConfig : Option (TableMaintenanceConfig × TableMaintenanceConfig)
  startedAtUnixMs : Nat

/-- `with_config` -/
def Policy.withConfig (config : SearchIndexMaintenanceConfig) (now : Nat) : Policy :=
  ⟨config.taskHistoryLimit, config.checkDeadline, config.backoffInitial, config.backoffMultiplier,
    config.backoffMax, some (config.memory, config.thread), now⟩

/-- `CoordinatorState`, the permits of the DDL semaphore and the task counter. -/
structure Coordinator where
  running : List MaintenanceTask
  /-- Oldest first. -/
  history : List MaintenanceTask
  lastResults : MaintenanceTarget → Option MaintenanceTask
  reconcileRunning : Bool
  reconcileCursor : Nat
  internalChecks : List MaintenanceTarget
  candidates : MaintenanceTarget → Option CandidateState
  ddlPermits : Nat
  taskCounter : Nat

def Coordinator.new : Coordinator := ⟨[], [], fun _ => none, false, 0, [], fun _ => none, 1, 1⟩

inductive StartError where
  | alreadyRunning (tasks : List MaintenanceTask)
  | invalidRequest (message : String)
  deriving DecidableEq, Repr

/-- What a spawned task holds on to. -/
structure SpawnedTask where
  taskId : Nat
  target : MaintenanceTarget
  action : MaintenanceAction
  force : Bool
  optimizeActions : List OptimizeAction
  pruneOlderThanSecs : Nat
  ddlPermit : Bool
  deriving DecidableEq, Repr

def Policy.tableMaintenanceConfig (p : Policy) (target : MaintenanceTarget) : Option TableMaintenanceConfig :=
  p.tableConfig.bind fun (memory, thread) =>
    match target with
    | .memoryTable => some memory
    | .threadTable => some thread
    | _ => none

def Policy.pruneOlderThanSecsFor (p : Policy) (target : MaintenanceTarget) : Nat :=
  ((p.tableMaintenanceConfig target).map fun config => config.pruneOlderThan.asSecs).getD 0

/-- A check runs beside a build or optimize of its table, but not beside another check of it. -/
def MaintenanceTask.blocks (task : MaintenanceTask) (physical : MaintenanceTarget) (action : MaintenanceAction) : Bool :=
  decide (task.physicalTable = physical) &&
    match action with
    | .check => decide (task.action = .check)
    | .build | .optimize => decide (task.action ≠ .check)

/-- The record of a task just accepted. -/
def acceptedTask (taskId : Nat) (target : MaintenanceTarget) (action : MaintenanceAction) (now : Nat) :
    MaintenanceTask :=
  ⟨taskId, target, target.physicalTable, action, .running, now, none, "", [], [], []⟩

/-- `start`: the requests it rejects before it looks at the state. -/
def invalidRequest (target : MaintenanceTarget) (action : MaintenanceAction) (optimizeActions : List OptimizeAction) :
    Option String :=
  match action with
  | .build => if target.isComponent then none else some "build requires a component target"
  | .optimize =>
    if target.isComponent then some "optimize requires a table target"
    else if optimizeActions = [] then some "optimize requires actions"
    else none
  | .check => none

/-- `start`: the accepted task and the coordinator that runs it. -/
def Coordinator.start (p : Policy) (c : Coordinator) (target : MaintenanceTarget) (action : MaintenanceAction)
    (force : Bool) (optimizeActions : List OptimizeAction) (now : Nat) :
    Except StartError (MaintenanceTask × SpawnedTask × Coordinator) :=
  match invalidRequest target action optimizeActions with
  | some message => .error (.invalidRequest message)
  | none =>
    let blocked := c.running.filter fun task => task.blocks target.physicalTable action
    if blocked ≠ [] then .error (.alreadyRunning blocked)
    else if action ≠ .check ∧ c.ddlPermits = 0 then
      .error (.alreadyRunning (c.running.filter fun task => task.action ≠ .check))
    else
      let ddlPermit := decide (action ≠ .check)
      let task := acceptedTask c.taskCounter target action now
      let spawned : SpawnedTask := {
        taskId := c.taskCounter
        target := target
        action := action
        force := force
        optimizeActions := if action = .optimize then normalizeOptimizeActions optimizeActions else optimizeActions
        pruneOlderThanSecs := p.pruneOlderThanSecsFor target
        ddlPermit := ddlPermit }
      .ok (task, spawned, { c with
        running := c.running ++ [task]
        ddlPermits := if ddlPermit then c.ddlPermits - 1 else c.ddlPermits
        taskCounter := c.taskCounter + 1 })

/-! ## Completion -/

/-- How the execution of a task ends. -/
inductive Outcome where
  | returned (completion : TaskCompletion)
  | error (message : String)
  | panicked
  /-- Only a check has a deadline. -/
  | deadline
  deriving DecidableEq, Repr

def SpawnedTask.completion (f : SpawnedTask) (outcome : Outcome) (now : Nat) : Option TaskCompletion :=
  match outcome with
  | .returned completion => some completion
  | .error message => some (.failed message)
  | .panicked => some (.failed "TASK_PANIC")
  | .deadline => if f.action = .check then some (checkTimeoutCompletion f.target now) else none

/-- The cast of a count to `i32`. -/
def toI32 (n : Nat) : Int := (n : Int).bmod (2 ^ 32)

/-- The value an `i64` holds for a number. -/
def toI64 (n : Int) : Int := n.bmod (2 ^ 64)

def MaintenanceTask.retryableFailure (task : MaintenanceTask) : Bool :=
  decide (task.status = .failed) && isRetryableError task.errorSummary

/-- The retryable failures of the target that end the history. -/
def retryableFailures (history : List MaintenanceTask) (target : MaintenanceTarget) : Nat :=
  (history.reverse.takeWhile fun previous =>
    decide (previous.requestedTarget = target) && previous.retryableFailure).length

/-- `backoff_initial.mul_f64(backoff_multiplier.powi(failures)).min(backoff_max)`; `none` where it panics. -/
def Policy.retryDelay (p : Policy) (failures : Nat) : Option Duration :=
  (p.backoffInitial.mulF64 (p.backoffMultiplier ^ toI32 failures)).map fun delay => min delay p.backoffMax

/-- The success of an optimize is noted for each of its parts that succeeded. -/
def CandidateState.optimized (candidate : CandidateState) (completedAt : Nat) (sub : SubActionResult) : CandidateState :=
  if sub.status = .succeeded then
    match sub.action with
    | .index => { candidate with lastIndexAtUnixMs := some completedAt }
    | .compact => { candidate with lastCompactAtUnixMs := some completedAt }
    | .prune => { candidate with lastPruneAtUnixMs := some completedAt }
  else candidate

/-- What the end of a task changes in its candidate; `none` where it panics. -/
def Policy.settle (p : Policy) (candidate : CandidateState) (task : MaintenanceTask) (failures now : Nat) :
    Option CandidateState :=
  match task.status with
  | .succeeded =>
    let candidate := { candidate with retryAfterUnixMs := none, nonRetryable := false }
    let completedAt := task.finishedAtUnixMs.getD 0
    match task.action with
    | .build => some { candidate with lastIndexAtUnixMs := some completedAt }
    | .optimize => some (task.subActions.foldl (fun candidate sub => candidate.optimized completedAt sub) candidate)
    | .check => some candidate
  | .failed =>
    if isRetryableError task.errorSummary then
      (p.retryDelay failures).map fun delay =>
        { candidate with retryAfterUnixMs := some (toI64 (now + toI64 delay.asMillis)) }
    else some { candidate with nonRetryable := true }
  | _ => some candidate

/-- The completion step: `closed` with the terminal record, or `aborted` by a panic in it. -/
inductive Completed where
  | closed (record : MaintenanceTask) (c : Coordinator)
  | aborted (c : Coordinator)

/-- Dropping the permit a spawned task holds. -/
def Coordinator.release (c : Coordinator) (f : SpawnedTask) : Coordinator :=
  { c with ddlPermits := if f.ddlPermit then c.ddlPermits + 1 else c.ddlPermits }

def setEntry {α β : Type} [DecidableEq α] (m : α → Option β) (key : α) (value : β) : α → Option β :=
  fun k => if k = key then some value else m k

/-- The record of a running task at its end. -/
def MaintenanceTask.finished (task : MaintenanceTask) (completion : TaskCompletion) (finishedAt : Nat) :
    MaintenanceTask :=
  { task with
    status := completion.status
    errorSummary := completion.errorSummary
    observations := completion.observations
    warnings := completion.warnings
    subActions := completion.subActions
    finishedAtUnixMs := some finishedAt }

/-- Dropping the oldest records beyond the limit. -/
def trim (limit : Nat) (history : List MaintenanceTask) : List MaintenanceTask :=
  history.drop (history.length - limit)

/-- The end of a spawned task, under the state lock. A panic drops the task from
`running` with nothing recorded; the permit is dropped either way. -/
def Coordinator.complete (p : Policy) (c : Coordinator) (f : SpawnedTask) (completion : TaskCompletion)
    (finishedAt now : Nat) : Option Completed :=
  (c.running.find? fun task => task.taskId = f.taskId).map fun task =>
    let record := task.finished completion finishedAt
    let failures := retryableFailures c.history record.requestedTarget
    let candidate := (c.candidates record.requestedTarget).getD .default
    let c := { c with running := c.running.filter fun task => task.taskId ≠ f.taskId }
    match p.settle candidate record failures now with
    | none => .aborted ({ c with candidates := setEntry c.candidates record.requestedTarget candidate }.release f)
    | some candidate => .closed record ({ c with
        candidates := setEntry c.candidates record.requestedTarget candidate
        lastResults := setEntry c.lastResults record.requestedTarget record
        history := trim p.historyLimit (c.history ++ [record]) }.release f)

end MemoryStore.Maintenance
