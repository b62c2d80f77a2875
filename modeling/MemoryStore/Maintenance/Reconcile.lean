/-
Reconcile rounds (`reconcile_once`, `reconcile_check`), one step for each
stretch between two awaits.

A round is a future. Its value here is the await it is suspended at, with the
locals that live across it. Several may exist at once; what they share is the
coordinator.
-/
import MemoryStore.Maintenance.Coordinator

namespace MemoryStore.Maintenance

inductive SkipReason where
  | candidateNone | running | checkRunning | reconcileRunning | backoff | nonRetryable | deferred | disabled
  | observationUnavailable
  deriving DecidableEq, Repr

structure SkippedTarget where
  target : MaintenanceTarget
  reason : SkipReason
  deriving DecidableEq, Repr

structure ReconcileResult where
  started : Option MaintenanceTask
  skippedTargets : List SkippedTarget
  deriving DecidableEq, Repr

def reconcileTargets : List MaintenanceTarget :=
  [.memoryFts, .memoryVector, .memoryTable, .threadFts, .threadVector, .threadTable]

/-- `targets[(start + offset) % targets.len()]` -/
def reconcileTarget (start offset : Nat) : MaintenanceTarget :=
  reconcileTargets.getD ((start + offset) % reconcileTargets.length) .memoryFts

/-- Where a scan stands: the start and the offset of the loop, and what it has skipped. -/
structure Scan where
  start : Nat
  offset : Nat
  skippedTargets : List SkippedTarget
  deriving DecidableEq, Repr

def Scan.target (scan : Scan) : MaintenanceTarget := reconcileTarget scan.start scan.offset

inductive Round where
  /-- Before the lock at the top: the flag is not set yet. -/
  | waiting
  | dueActions (scan : Scan)
  | skipReason (scan : Scan) (actions : List OptimizeAction)
  /-- Before the first lock of `reconcile_check`. -/
  | checkEntry (scan : Scan) (actions : List OptimizeAction)
  /-- From `executor.check` to the second lock of `reconcile_check`. -/
  | checking (scan : Scan) (actions : List OptimizeAction)
  | forceBuild (scan : Scan) (completion : TaskCompletion)
  | eligibility (scan : Scan) (force : Bool)
  | starting (scan : Scan) (action : MaintenanceAction) (force : Bool) (actions : List OptimizeAction)
  /-- Before the lock at the bottom. -/
  | finishing (start : Nat) (result : Except StartError ReconcileResult)

/-- The round is past the lock at the top. -/
def Round.executing : Round → Bool
  | .waiting => false
  | _ => true

/-- How the check of a round ends: `tokio::time::timeout` around `executor.check`. -/
inductive CheckOutcome where
  | completed (completion : TaskCompletion)
  | failed
  | timedOut
  deriving DecidableEq, Repr

/-- What a step of a round reads from outside: the clock, whether the deadline has passed, and the answers
of the executor (`none` for an error). -/
structure RoundInputs where
  now : Nat
  deadlinePassed : Bool
  check : CheckOutcome
  forceBuildRequired : Option Bool
  buildEligibility : Option (Option TaskStatus)
  deriving DecidableEq, Repr

def Scan.skip (scan : Scan) (reason : SkipReason) : Scan :=
  { scan with skippedTargets := scan.skippedTargets ++ [⟨scan.target, reason⟩] }

/-- The top of the loop body. -/
def Scan.visit (scan : Scan) : Round :=
  if scan.offset < reconcileTargets.length then
    if scan.target.isComponent then .skipReason scan [] else .dueActions scan
  else .finishing scan.start (.ok ⟨none, scan.skippedTargets⟩)

/-- `continue` -/
def Scan.next (scan : Scan) (reason : SkipReason) : Round :=
  Scan.visit { scan.skip reason with offset := scan.offset + 1 }

/-- `return Ok(..)` with nothing started. -/
def Scan.stop (scan : Scan) (reason : SkipReason) : Round :=
  .finishing scan.start (.ok ⟨none, (scan.skip reason).skippedTargets⟩)

/-- The interval is on, and over since the last run. -/
def dueInterval (p : Policy) (now : Nat) (interval : Duration) (last : Option Nat) : Bool :=
  decide (interval ≠ 0) &&
    decide (toI64 (last.getD p.startedAtUnixMs + min interval.asMillis (2 ^ 63 - 1)) ≤ now)

def Coordinator.dueOptimizeActions (p : Policy) (c : Coordinator) (target : MaintenanceTarget) (now : Nat) :
    List OptimizeAction :=
  match p.tableMaintenanceConfig target with
  | none => []
  | some config =>
    let candidate := (c.candidates target).getD .default
    let compactDue := dueInterval p now config.compactionInterval candidate.lastCompactAtUnixMs
    let indexDue := dueInterval p now config.indexUpdateInterval candidate.lastIndexAtUnixMs
    let pruneDue := dueInterval p now config.pruneInterval candidate.lastPruneAtUnixMs
    (if compactDue then [.compact] else []) ++ (if compactDue || indexDue then [.index] else []) ++
      (if pruneDue then [.prune] else [])

def Coordinator.candidateSkipReason (c : Coordinator) (target : MaintenanceTarget) (now : Nat) : Option SkipReason :=
  (c.candidates target).bind fun candidate =>
    if candidate.nonRetryable then some .nonRetryable
    else if candidate.retryAfterUnixMs.any fun retryAfter => decide ((now : Int) < retryAfter) then some .backoff
    else none

def Policy.tableIndexRowThresholdDue (p : Policy) (target : MaintenanceTarget) (completion : TaskCompletion) : Bool :=
  match p.tableMaintenanceConfig target with
  | none => false
  | some config =>
    decide (0 < config.indexUpdateUnindexedRows) && completion.observations.any fun observation =>
      decide (observation.status = .observed) && decide (observation.indexPresent = some true) &&
        observation.unindexedRows.any fun rows => decide (config.indexUpdateUnindexedRows ≤ rows)

/-- `reconcile_check` may not observe the table beside another check of it. -/
def Coordinator.checkRunning (c : Coordinator) (physical : MaintenanceTarget) : Bool :=
  (c.running.any fun task => task.blocks physical .check) || decide (physical ∈ c.internalChecks)

/-- Starting the optimize actions that are left, if any. -/
def Scan.optimize (scan : Scan) (actions : List OptimizeAction) : Round :=
  let actions := normalizeOptimizeActions actions
  if actions = [] then scan.next .candidateNone else .starting scan .optimize false actions

/-- What follows the check of a table. -/
def Scan.tableChecked (p : Policy) (scan : Scan) (actions : List OptimizeAction) (completion : TaskCompletion) : Round :=
  if p.tableIndexRowThresholdDue scan.target completion then scan.optimize (actions ++ [.index])
  else if actions = [] ∧ (completion.observations.any fun o => decide (o.status = .unavailable)) then
    scan.next .observationUnavailable
  else scan.optimize actions

/-- What follows the check of a table or a component. -/
def Scan.checked (p : Policy) (scan : Scan) (actions : List OptimizeAction) (completion : TaskCompletion) : Round :=
  if scan.target.isComponent then .forceBuild scan completion else scan.tableChecked p actions completion

/-- The first observation misses the index. -/
def TaskCompletion.indexMissing (completion : TaskCompletion) : Bool :=
  completion.observations.head?.any fun o => decide (o.status = .observed) && decide (o.indexPresent = some false)

/-- The cursor after a round: behind the target that won, or behind the start. -/
def nextCursor (start : Nat) (result : Except StartError ReconcileResult) : Nat :=
  let started := match result with
    | .ok result => result.started
    | .error _ => none
  match started with
  | some task => (reconcileTargets.idxOf task.requestedTarget + 1) % reconcileTargets.length
  | none => (start + 1) % reconcileTargets.length

/-- Where a step leads: to another await, or to the result. -/
inductive Advance where
  | awaiting (round : Round)
  | returned (result : Except StartError ReconcileResult)

/-- One step of a round, from its await to the next: what it leaves, where it stands, and the task it spawned. -/
def Round.step (p : Policy) (i : RoundInputs) (c : Coordinator) : Round → Coordinator × Advance × Option SpawnedTask
  | .waiting =>
    if c.reconcileRunning then
      (c, .returned (.ok ⟨none, [⟨.memoryFts, .reconcileRunning⟩]⟩), none)
    else
      ({ c with reconcileRunning := true },
        .awaiting (Scan.visit ⟨c.reconcileCursor % reconcileTargets.length, 0, []⟩), none)
  | .dueActions scan => (c, .awaiting (.skipReason scan (c.dueOptimizeActions p scan.target i.now)), none)
  | .skipReason scan actions =>
    match c.candidateSkipReason scan.target i.now with
    | some reason => (c, .awaiting (scan.next reason), none)
    | none =>
      if i.deadlinePassed then
        -- A table whose interval is over is optimized without the observation.
        if actions = [] then (c, .awaiting (scan.stop .observationUnavailable), none)
        else (c, .awaiting (scan.optimize actions), none)
      else (c, .awaiting (.checkEntry scan actions), none)
  | .checkEntry scan actions =>
    let physical := scan.target.physicalTable
    if c.checkRunning physical then (c, .awaiting (scan.next .checkRunning), none)
    else ({ c with internalChecks := physical :: c.internalChecks }, .awaiting (.checking scan actions), none)
  | .checking scan actions =>
    let c := { c with internalChecks := c.internalChecks.filter fun t => t ≠ scan.target.physicalTable }
    match i.check with
    | .completed completion => (c, .awaiting (scan.checked p actions completion), none)
    | .failed => (c, .awaiting (scan.next .observationUnavailable), none)
    | .timedOut => (c, .awaiting (scan.checked p actions (checkTimeoutCompletion scan.target i.now)), none)
  | .forceBuild scan completion =>
    match i.forceBuildRequired with
    | none => (c, .awaiting (scan.next .observationUnavailable), none)
    | some force =>
      if completion.indexMissing || force then (c, .awaiting (.eligibility scan force), none)
      else (c, .awaiting (scan.next .candidateNone), none)
  | .eligibility scan force =>
    match i.buildEligibility with
    | none => (c, .awaiting (scan.next .observationUnavailable), none)
    | some (some .deferred) => (c, .awaiting (scan.next .deferred), none)
    | some (some .skippedDisabled) => (c, .awaiting (scan.next .disabled), none)
    | some _ => (c, .awaiting (.starting scan .build force []), none)
  | .starting scan action force actions =>
    match c.start p scan.target action force actions i.now with
    | .ok (task, spawned, c) => (c, .awaiting (.finishing scan.start (.ok ⟨some task, scan.skippedTargets⟩)), some spawned)
    | .error (.alreadyRunning _) => (c, .awaiting (scan.stop .running), none)
    | .error error => (c, .awaiting (.finishing scan.start (.error error)), none)
  | .finishing start result =>
    ({ c with reconcileCursor := nextCursor start result, reconcileRunning := false }, .returned result, none)

end MemoryStore.Maintenance
