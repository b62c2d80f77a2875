/-
The message times task (`grpc-admin/src/db_migrate/thread_message_times_v1.rs`): the
bounds of every thread are recomputed, then the vector table is replaced by a copy
that carries them. Each transaction and each operation on a vector table is one step.
-/
import MemoryStore.DataMigration.TaskState
import MemoryStore.DataMigration.ThreadVectors
import MemoryStore.Lib.Program

namespace MemoryStore.DataMigration

/-! ## The checkpoint -/

inductive RdbPhase where
  | pending | backfilling | verified
  deriving DecidableEq

inductive VectorPhase where
  | pending | notRequired | staged | switching | canonicalReady | indexesVerified | completed
  deriving DecidableEq

inductive IndexOutcome where
  | rebuilt | skippedDisabled | deferred
  deriving DecidableEq

structure IndexOutcomes where
  fts : IndexOutcome
  ann : IndexOutcome
  deriving DecidableEq

structure Checkpoint where
  rdbPhase : RdbPhase := .pending
  rdbLastThreadId : Option ℤ := none
  vectorPhase : VectorPhase := .pending
  canonicalTableName : Option String := none
  stagingTableName : Option String := none
  stagingOrigin : Option String := none
  stagingCleanupStarted : Bool := false
  indexOutcomes : Option IndexOutcomes := none
  vectorOutcome : Option String := none
  deriving DecidableEq

/-- The phases between staging and completion. -/
def VectorPhase.needsStaging : VectorPhase → Bool
  | staged | switching | canonicalReady | indexesVerified => true
  | _ => false

def Checkpoint.validate (cp : Checkpoint) : Except String Unit := do
  check (cp.rdbPhase = .backfilling || cp.rdbLastThreadId.isNone)
    "rdb_last_thread_id is valid only while RDB backfilling"
  check (!cp.vectorPhase.needsStaging ||
    (cp.canonicalTableName.isSome && cp.stagingTableName.isSome && cp.stagingOrigin.isSome))
    "intermediate vector phase requires canonical and staging table identities"
  check (cp.vectorPhase ≠ .completed || (cp.stagingTableName.isNone && cp.stagingOrigin.isNone))
    "completed vector phase must not retain a staging table"
  check (cp.vectorPhase ≠ .notRequired || cp.vectorOutcome.isNone)
    "not_required is an intermediate vector phase, not an outcome"
  check (cp.vectorPhase ≠ .completed || cp.vectorOutcome ≠ some "migrated" ||
    (cp.canonicalTableName.isSome && cp.indexOutcomes.isSome))
    "migrated vector checkpoint requires canonical table identity and index outcomes"
  check (cp.vectorPhase ≠ .indexesVerified || cp.indexOutcomes.isSome)
    "indexes_verified vector checkpoint requires index outcomes"
  check (!cp.stagingCleanupStarted || cp.vectorPhase = .indexesVerified)
    "staging_cleanup_started is valid only while indexes are verified"

/-- What `validate` accepts. -/
structure Checkpoint.Valid (cp : Checkpoint) : Prop where
  last : cp.rdbPhase = .backfilling ∨ cp.rdbLastThreadId = none
  staging : cp.vectorPhase.needsStaging = true →
    cp.canonicalTableName ≠ none ∧ cp.stagingTableName ≠ none ∧ cp.stagingOrigin ≠ none
  ended : cp.vectorPhase = .completed → cp.stagingTableName = none ∧ cp.stagingOrigin = none
  outcome : cp.vectorPhase = .notRequired → cp.vectorOutcome = none
  migrated : cp.vectorPhase = .completed → cp.vectorOutcome = some "migrated" →
    cp.canonicalTableName ≠ none ∧ cp.indexOutcomes ≠ none
  indexes : cp.vectorPhase = .indexesVerified → cp.indexOutcomes ≠ none
  cleanup : cp.stagingCleanupStarted = true → cp.vectorPhase = .indexesVerified

theorem Checkpoint.validate_ok {cp : Checkpoint} : cp.validate = .ok () ↔ cp.Valid := by
  simp only [Checkpoint.validate, check_bind_ok, check_ok, Bool.or_eq_true, decide_eq_true_eq, Bool.and_eq_true,
    Option.isNone_iff_eq_none, Option.isSome_iff_ne_none, Bool.not_eq_true', ne_eq, ← imp_iff_not_or,
    ← Bool.not_eq_true, and_assoc]
  constructor
  · rintro ⟨hlast, hstaging, hended, houtcome, hmigrated, hindexes, hcleanup⟩
    exact ⟨hlast, hstaging, hended, houtcome, fun hc ho => hmigrated.resolve_left fun h => h hc ho, hindexes, hcleanup⟩
  · rintro ⟨hlast, hstaging, hended, houtcome, hmigrated, hindexes, hcleanup⟩
    refine ⟨hlast, hstaging, hended, houtcome, ?_, hindexes, hcleanup⟩
    by_cases h : cp.vectorPhase = .completed ∧ cp.vectorOutcome = some "migrated"
    · exact .inr (hmigrated h.1 h.2)
    · exact .inl fun hc ho => h ⟨hc, ho⟩

/-! ## The world of a run -/

/-- The part of the database the task reads. -/
structure Database where
  threadIds : List ℤ
  /-- Thread and memory of each membership. -/
  threadMemory : List (ℤ × ℤ)
  /-- Id and creation time of each memory. -/
  memories : List (ℤ × ℤ)
  sorted : threadIds.Pairwise (· < ·)

namespace Database

def createdAt (db : Database) (memoryId : ℤ) : Option ℤ := (db.memories.find? (·.1 = memoryId)).map Prod.snd

/-- When the memories of a thread were created. -/
def messageTimes (db : Database) (threadId : ℤ) : List ℤ :=
  db.threadMemory.filterMap fun tm => if tm.1 = threadId then db.createdAt tm.2 else none

/-- `message_bounds`. -/
def messageBounds (db : Database) (threadId : ℤ) : MessageBounds :=
  ((db.messageTimes threadId).min?, (db.messageTimes threadId).max?)

/-- `message_bounds_for_existing_thread`. -/
def boundsForExisting (db : Database) (threadId : ℤ) : Option MessageBounds :=
  if threadId ∈ db.threadIds then some (db.messageBounds threadId) else none

/-- `fetch_thread_ids`. -/
def fetchThreadIds (db : Database) (after : Option ℤ) (batchSize : ℕ) : List ℤ :=
  (db.threadIds.filter fun id => after.all (· < id)).take batchSize

def invalidMemberships (db : Database) : ℕ := db.threadMemory.countP fun tm => (db.createdAt tm.2).isNone

def invalidTimestamps (db : Database) : ℕ := db.threadMemory.countP fun tm => (db.createdAt tm.2).any (· ≤ 0)

def preflight (db : Database) : Except String Unit :=
  check (db.invalidMemberships = 0 && db.invalidTimestamps = 0) "thread-message-times-v1 preflight failed"

end Database

/-- The vector tables by name. -/
abbrev VectorTables := String → Option VectorTable

structure World where
  /-- `first_message_at` and `last_message_at` of each thread. -/
  columns : ℤ → MessageBounds
  row : Option (TaskStateRow Checkpoint)
  /-- The executor whose open transaction keeps the task row locked. -/
  lock : Option ℕ
  tables : VectorTables

def defaultLeaseMs : ℤ := 120000

/-- A reading of the clock, in milliseconds. -/
structure Clock where
  now : ℤ
  fits : -2 ^ 63 ≤ now + defaultLeaseMs ∧ now + defaultLeaseMs < 2 ^ 63

/-- The row of `thread_time_migration_state`. -/
structure LegacyMigrationState where
  vectorState : String
  stagingTableName : Option String
  deriving DecidableEq

structure MessageTimesTask where
  identity : String
  digest : String
  db : Database
  legacy : Option LegacyMigrationState
  /-- The canonical vector table, when thread vectors are configured. -/
  vectorConfig : Option String
  batchSize : ℕ
  batchSize_pos : 0 < batchSize
  /-- How a scan of a table comes in batches. -/
  batches : VectorTable → List VectorTable
  batches_flatten : ∀ rows, (batches rows).flatten = rows
  annOutcome : IndexOutcome
  /-- A bound on the rounds of each loop; running out is an error. -/
  rounds : ℕ

/-- What a step is, for who may take it and where a run may be cut: an operation on the vector tables outside
the transactions that lock the row, under the token of its executor, or the commit that ends the clean-up. -/
inductive StepLabel where
  | plain
  | vector (token : ℤ)
  | cleanupCommit
  deriving DecidableEq

abbrev TaskProgram (α : Type) : Type 1 := Program StepLabel Clock String World α

/-! ## Steps -/

/-- A read. -/
def readWorld {α : Type} (f : World → Except String α) : TaskProgram α :=
  .attempt .plain fun _ w => some (f w, w)

/-- A transaction on the task row; it waits while the row is locked. -/
def rowTx {α : Type} (f : ℤ → TaskTx Checkpoint α) : TaskProgram α :=
  .attempt .plain fun c w =>
    if w.lock = none then
      match f c.now w.row with
      | .ok (a, row) => some (.ok a, { w with row })
      | .error e => some (.error e, w)
    else none

def runTables (f : VectorTables → Except String VectorTables) (w : World) : Except String Unit × World :=
  match f w.tables with
  | .ok tables => (.ok (), { w with tables })
  | .error e => (.error e, w)

/-- An operation on the vector tables outside any transaction. -/
def vectorStep (lease : TaskLease) (f : VectorTables → Except String VectorTables) : TaskProgram Unit :=
  .attempt (.vector lease.fencingToken) fun _ w => some (runTables f w)

def renew (lease : TaskLease) : TaskProgram Unit := rowTx fun now => renewLease lease now defaultLeaseMs

/-- `renew_lease_tx`, at the beginning of a transaction that keeps the row locked. -/
def lockRow (self : ℕ) (lease : TaskLease) : TaskProgram Unit :=
  .attempt .plain fun c w =>
    if w.lock = none then
      match renewLease lease c.now defaultLeaseMs w.row with
      | .ok _ => some (.ok (), { w with lock := some self })
      | .error e => some (.error e, w)
    else none

/-- An operation on the vector tables inside the transaction. -/
def fencedStep (self : ℕ) (f : VectorTables → Except String VectorTables) : TaskProgram Unit :=
  .attempt .plain fun _ w => if w.lock = some self then some (runTables f w) else none

def rollback (self : ℕ) : TaskProgram Unit :=
  .act .plain fun _ w => some ((), if w.lock = some self then { w with lock := none } else w)

namespace VectorTables

def set (tables : VectorTables) (name : String) (table : Option VectorTable) : VectorTables :=
  fun n => if n = name then table else tables n

def dropIfExists (name : String) (tables : VectorTables) : Except String VectorTables := .ok (tables.set name none)

/-- `ThreadVectorRepositoryImpl::new`. -/
def openOrCreate (name : String) (tables : VectorTables) : Except String VectorTables :=
  .ok (if (tables name).isSome then tables else tables.set name (some []))

def upsert (name : String) (records : List ThreadVectorRecord) (tables : VectorTables) : Except String VectorTables :=
  match tables name with
  | none => .error "LanceDB batch upsert failed"
  | some rows => .ok (tables.set name (some (rows.mergeInsert records)))

def append (name : String) (batch : VectorTable) (tables : VectorTables) : Except String VectorTables :=
  match tables name with
  | none => .error "LanceDB append canonical batch failed"
  | some rows => .ok (tables.set name (some (rows ++ batch)))

end VectorTables

/-- The rows of a table that is open. -/
def World.rows (w : World) (name : String) : Except String VectorTable :=
  match w.tables name with
  | some rows => .ok rows
  | none => .error "LanceDB open table failed"

namespace MessageTimesTask

variable (T : MessageTimesTask)

/-! ## Checkpoints -/

def checkpointFormat : String := "thread-message-times-v1@1/checkpoint-v1"

def envelope (cp : Checkpoint) : TaskCheckpointEnvelope Checkpoint :=
  { format := checkpointFormat, taskIdentity := T.identity, canonicalDefinitionDigest := T.digest, payload := cp }

def loadCheckpoint (w : World) : Except String Checkpoint :=
  match w.row with
  | none => .ok {}
  | some row => do
    check (row.canonicalDefinitionDigest = T.digest) "task state definition digest does not match the fixed registry"
    match row.checkpoint with
    | none => .ok {}
    | some envelope => do
      check (envelope.format = checkpointFormat && envelope.taskIdentity = T.identity &&
        envelope.canonicalDefinitionDigest = T.digest) "thread message times checkpoint identity is invalid"
      envelope.payload.validate
      .ok envelope.payload

/-- `save_checkpoint_tx`, after the validation. -/
def saveTx (lease : TaskLease) (cp : Checkpoint) (now : ℤ) : TaskTx Checkpoint Unit :=
  saveCheckpointTx lease (T.envelope cp) now defaultLeaseMs

/-- `persist_non_rdb_checkpoint`. -/
def persist (lease : TaskLease) (cp : Checkpoint) : TaskProgram Unit := do
  Program.lift cp.validate
  rowTx (T.saveTx lease cp)

/-- The end of a transaction that kept the row locked: the renewal and the checkpoint become visible. -/
def commitFenced (self : ℕ) (lease : TaskLease) (label : StepLabel) (cp : Checkpoint) : TaskProgram Unit :=
  .attempt label fun c w =>
    if w.lock = some self then
      match (do renewLease lease c.now defaultLeaseMs; T.saveTx lease cp c.now : TaskTx Checkpoint Unit) w.row with
      | .ok (_, row) => some (.ok (), { w with row, lock := none })
      | .error e => some (.error e, { w with lock := none })
    else none

/-- A transaction that renews the lease, works on the vector tables and saves the checkpoint. -/
def fenced (self : ℕ) (lease : TaskLease) (label : StepLabel) (body : TaskProgram Unit) (cp : Checkpoint) :
    TaskProgram Unit := do
  lockRow self lease
  Program.orElse (do body; Program.lift cp.validate) fun e => do
    rollback self
    Program.fail e
  T.commitFenced self lease label cp

/-! ## Verification -/

def readBounds (threadId : ℤ) : TaskProgram (Option MessageBounds) :=
  readWorld fun _ => .ok (T.db.boundsForExisting threadId)

def renewIf : Option TaskLease → TaskProgram Unit
  | some lease => renew lease
  | none => pure ()

def verifyPages (lease : Option TaskLease) : ℕ → Option ℤ → TaskProgram Unit
  | 0, _ => Program.fail "out of rounds"
  | rounds + 1, after => do
    renewIf lease
    let ids ← readWorld fun _ => .ok (T.db.fetchThreadIds after T.batchSize)
    if ids = [] then pure ()
    else do
      readWorld fun w => checkEach ids fun id =>
        check (w.columns id = T.db.messageBounds id) "thread message bounds verification failed"
      verifyPages lease rounds ids.getLast?

/-- `verify_vector`: only a migrated table is looked at. -/
def verifyVector (lease : Option TaskLease) : TaskProgram Unit := do
  let checkpoint ← readWorld fun w => .ok (w.row.bind TaskStateRow.checkpoint)
  match checkpoint with
  | none => pure ()
  | some envelope =>
    if envelope.payload.vectorOutcome ≠ some "migrated" then pure ()
    else do
      Program.lift envelope.payload.validate
      match T.vectorConfig with
      | none => Program.fail "migrated vector checkpoint requires ThreadVector configuration"
      | some table => do
        readWorld fun w => check (w.tables table).isSome "migrated vector checkpoint canonical table is missing"
        Program.attempt (match lease with
          | some lease => .vector lease.fencingToken
          | none => .plain) fun _ w => some (runTables (VectorTables.openOrCreate table) w)
        renewIf lease
        readWorld fun w => do
          let rows ← w.rows table
          verifyVectorTableAgainstRdb T.db.boundsForExisting rows
        Program.lift (check envelope.payload.indexOutcomes.isSome
          "migrated vector checkpoint is missing index outcomes")

def verifyInner (lease : Option TaskLease) : TaskProgram Unit := do
  readWorld fun _ => T.db.preflight
  T.verifyPages lease T.rounds none
  T.verifyVector lease

/-! ## The database part -/

/-- The columns after a batch of threads. -/
def updateBounds (ids : List ℤ) (columns : ℤ → MessageBounds) : ℤ → MessageBounds :=
  fun id => if id ∈ ids then T.db.messageBounds id else columns id

/-- A batch, in one transaction with its checkpoint. -/
def batchTx (lease : TaskLease) (ids : List ℤ) (cp : Checkpoint) : TaskProgram Unit := do
  Program.lift cp.validate
  .attempt .plain fun c w =>
    if w.lock = none then
      match T.saveTx lease cp c.now w.row with
      | .ok (_, row) => some (.ok (), { w with row, columns := T.updateBounds ids w.columns })
      | .error e => some (.error e, w)
    else none

def backfillPages (lease : TaskLease) : ℕ → Checkpoint → TaskProgram Checkpoint
  | 0, _ => Program.fail "out of rounds"
  | rounds + 1, cp => do
    renew lease
    let ids ← readWorld fun _ => .ok (T.db.fetchThreadIds cp.rdbLastThreadId T.batchSize)
    if ids = [] then pure cp
    else do
      let cp := { cp with rdbLastThreadId := ids.getLast? }
      T.batchTx lease ids cp
      backfillPages lease rounds cp

def beginBackfill (lease : TaskLease) (cp : Checkpoint) : TaskProgram Checkpoint :=
  if cp.rdbPhase = .pending then do
    let cp := { cp with rdbPhase := .backfilling, rdbLastThreadId := none }
    T.persist lease cp
    pure cp
  else pure cp

def backfillRdb (lease : TaskLease) (cp : Checkpoint) : TaskProgram Checkpoint :=
  if cp.rdbPhase = .verified then pure cp
  else do
    let cp ← T.beginBackfill lease cp
    let cp ← T.backfillPages lease T.rounds cp
    let cp := { cp with rdbPhase := .verified, rdbLastThreadId := none }
    T.persist lease cp
    T.verifyInner (some lease)
    pure cp

/-! ## The vector part -/

def legacyStagingName (table : String) : String := table ++ "__thread_time_fields_v1_staging"

def currentStagingName (table : String) : String := table ++ "__thread_message_times_v1_g1_staging"

inductive LegacyVectorState where
  | pending | staged | switching | completed | notRequired
  deriving DecidableEq

def LegacyVectorState.parse : String → Except String LegacyVectorState
  | "PENDING" => .ok .pending
  | "STAGED" => .ok .staged
  | "SWITCHING" => .ok .switching
  | "COMPLETED" => .ok .completed
  | "NOT_REQUIRED" => .ok .notRequired
  | _ => .error "unknown legacy thread time vector state"

def legacyVectorState : Except String (Option (LegacyVectorState × Option String)) :=
  match T.legacy with
  | none => .ok none
  | some state => do
    let vectorState ← LegacyVectorState.parse state.vectorState
    .ok (some (vectorState, state.stagingTableName))

/-- There is no table to migrate. -/
def notRequired (lease : TaskLease) (cp : Checkpoint) : TaskProgram String := do
  let cp := { cp with vectorPhase := .notRequired, vectorOutcome := none }
  T.persist lease cp
  let cp := { cp with vectorPhase := .completed, vectorOutcome := some "not_required" }
  T.persist lease cp
  pure "not_required"

/-- A cut-over that the legacy migration had begun is taken over. -/
def adoptLegacy (lease : TaskLease) (table : String) (canonicalExists : Bool)
    (legacy : Option (LegacyVectorState × Option String)) (cp : Checkpoint) : TaskProgram Checkpoint :=
  if cp.vectorPhase ≠ .pending then pure cp
  else match legacy with
    | some (state, stagingTableName) =>
      if state = .staged ∨ state = .switching then do
        let stagingName := legacyStagingName table
        Program.lift (check (stagingTableName = some stagingName)
          "legacy vector checkpoint has an unexpected staging table name")
        readWorld fun w => check (w.tables stagingName).isSome
          "legacy vector checkpoint requires its fixed staging table"
        let cp := { cp with
          vectorPhase := if state = .staged then .staged else .switching
          canonicalTableName := some table, stagingTableName := some stagingName
          stagingOrigin := some "legacy_thread_time_fields_v1" }
        T.persist lease cp
        pure cp
      else if state = .completed ∧ !canonicalExists then
        Program.fail "legacy completed vector state has no canonical table"
      else pure cp
    | none => pure cp

def stagingNameOf (table : String) (cp : Checkpoint) : Except String String :=
  match cp.stagingOrigin with
  | some "legacy_thread_time_fields_v1" => .ok (legacyStagingName table)
  | some "current_task" | none => .ok (currentStagingName table)
  | some _ => .error "vector checkpoint has an unsupported staging origin"

/-- `slice::chunks`. -/
def chunks (size : ℕ) : ℕ → List ThreadVectorRecord → List (List ThreadVectorRecord)
  | 0, _ | _, [] => []
  | fuel + 1, r :: rs => (r :: rs).take size :: chunks size fuel ((r :: rs).drop size)

/-- `batch_upsert`. -/
def batchUpsert (lease : TaskLease) (staging : String) (records : List ThreadVectorRecord) : TaskProgram Unit :=
  Program.forEach (chunks 1000 records.length records) fun chunk => vectorStep lease (VectorTables.upsert staging chunk)

def stageThread (lease : TaskLease) (table staging : String) (threadId : ℤ) : TaskProgram Unit := do
  let bounds ← T.readBounds threadId
  match bounds with
  | none => pure ()
  | some b => do
    let source ← readWorld fun w => w.rows table
    batchUpsert lease staging
      (normalizeVectorRecords ((source.findRecordsByThreadId threadId).map (·.withBounds b))).1
    renew lease

def stagePages (lease : TaskLease) (table staging : String) : ℕ → Option ℤ → TaskProgram Unit
  | 0, _ => Program.fail "out of rounds"
  | rounds + 1, after => do
    renew lease
    let ids ← readWorld fun w => do
      let rows ← w.rows table
      .ok (rows.threadIdKeysetPage after T.batchSize)
    if ids = [] then pure ()
    else do
      Program.forEach ids (T.stageThread lease table staging)
      stagePages lease table staging rounds ids.getLast?

/-- `VectorPhase::Pending`. -/
def stage (lease : TaskLease) (table staging : String) (cp : Checkpoint) : TaskProgram Checkpoint :=
  if cp.vectorPhase ≠ .pending then pure cp
  else do
    vectorStep lease (VectorTables.dropIfExists staging)
    vectorStep lease (VectorTables.openOrCreate table)
    vectorStep lease (VectorTables.openOrCreate staging)
    T.stagePages lease table staging T.rounds none
    readWorld fun w => do
      let source ← w.rows table
      let rows ← w.rows staging
      verifyStagingAgainstCanonical T.db.boundsForExisting source rows
    let cp := { cp with
      vectorPhase := .staged, canonicalTableName := some table, stagingTableName := some staging
      stagingOrigin := some "current_task" }
    T.persist lease cp
    pure cp

/-- The staging table is compared with the canonical one, if there is one. -/
def verifyBeforeSwitch (lease : TaskLease) (table staging : String) : TaskProgram Unit := do
  let canonicalExists ← readWorld fun w => .ok (w.tables table).isSome
  if canonicalExists then do
    vectorStep lease (VectorTables.openOrCreate table)
    readWorld fun w => do
      let source ← w.rows table
      let rows ← w.rows staging
      verifyStagingAgainstCanonical T.db.boundsForExisting source rows
  else pure ()

/-- `VectorPhase::Staged`. -/
def beginSwitch (lease : TaskLease) (table staging : String) (cp : Checkpoint) : TaskProgram Checkpoint :=
  if cp.vectorPhase ≠ .staged then pure cp
  else do
    vectorStep lease (VectorTables.openOrCreate staging)
    readWorld fun w => do
      let rows ← w.rows staging
      verifyVectorTableAgainstRdb T.db.boundsForExisting rows
    T.verifyBeforeSwitch lease table staging
    let cp := { cp with vectorPhase := .switching }
    T.persist lease cp
    pure cp

/-- `replace_table_from_staging`. -/
def replaceTableFromStaging (self : ℕ) (table staging : String) : TaskProgram Unit := do
  let rows ← readWorld fun w => w.rows staging
  fencedStep self (VectorTables.dropIfExists table)
  fencedStep self (VectorTables.openOrCreate table)
  Program.forEach (T.batches rows) fun batch => fencedStep self (VectorTables.append table batch)

/-- `VectorPhase::Switching`. -/
def cutover (self : ℕ) (lease : TaskLease) (table staging : String) (cp : Checkpoint) : TaskProgram Checkpoint :=
  if cp.vectorPhase ≠ .switching then pure cp
  else do
    vectorStep lease (VectorTables.openOrCreate staging)
    readWorld fun w => do
      let rows ← w.rows staging
      verifyVectorTableAgainstRdb T.db.boundsForExisting rows
    let cp := { cp with vectorPhase := .canonicalReady }
    T.fenced self lease .plain (do
      T.replaceTableFromStaging self table staging
      fencedStep self (VectorTables.openOrCreate table)
      fencedStep self (VectorTables.openOrCreate staging)
      readWorld fun w => do
        let expected ← w.rows staging
        let actual ← w.rows table
        verifyIdenticalVectorTables expected actual) cp
    pure cp

/-- `VectorPhase::CanonicalReady`; the index builds leave the rows alone. -/
def buildIndexes (self : ℕ) (lease : TaskLease) (table staging : String) (cp : Checkpoint) : TaskProgram Checkpoint :=
  if cp.vectorPhase ≠ .canonicalReady then pure cp
  else do
    vectorStep lease (VectorTables.openOrCreate table)
    vectorStep lease (VectorTables.openOrCreate staging)
    readWorld fun w => do
      let expected ← w.rows staging
      let actual ← w.rows table
      verifyEquivalentVectorTables T.db.boundsForExisting expected actual
    let cp := { cp with
      indexOutcomes := some { fts := .rebuilt, ann := T.annOutcome }, vectorPhase := .indexesVerified }
    T.fenced self lease .plain (fencedStep self (VectorTables.openOrCreate table)) cp
    pure cp

/-- The staging table is compared with the canonical one for the last time, unless it is gone already. -/
def verifyBeforeCleanup (lease : TaskLease) (table staging : String) (cp : Checkpoint) : TaskProgram Unit := do
  let stagingExists ← readWorld fun w => .ok (w.tables staging).isSome
  if stagingExists then do
    vectorStep lease (VectorTables.openOrCreate staging)
    readWorld fun w => do
      let expected ← w.rows staging
      let actual ← w.rows table
      verifyEquivalentVectorTables T.db.boundsForExisting expected actual
  else Program.lift (check cp.stagingCleanupStarted
    "indexes_verified checkpoint lost its staging table before cleanup")

/-- `VectorPhase::IndexesVerified`. -/
def cleanupStaging (self : ℕ) (lease : TaskLease) (table staging : String) (cp : Checkpoint) : TaskProgram Checkpoint :=
  if cp.vectorPhase ≠ .indexesVerified then pure cp
  else do
    vectorStep lease (VectorTables.openOrCreate table)
    T.verifyBeforeCleanup lease table staging cp
    let cp := { cp with stagingCleanupStarted := true }
    T.persist lease cp
    let cp := { cp with
      vectorPhase := .completed, stagingTableName := none, stagingOrigin := none, stagingCleanupStarted := false
      vectorOutcome := some "migrated" }
    T.fenced self lease .cleanupCommit (fencedStep self (VectorTables.dropIfExists staging)) cp
    pure cp

def orError (message : String) : Option String → Except String String
  | some text => .ok text
  | none => .error message

/-- The answer of a vector part that has ended. -/
def completedOutcome (cp : Checkpoint) : TaskProgram String := do
  let outcome ← Program.lift (orError "completed vector checkpoint is missing its outcome" cp.vectorOutcome)
  if outcome = "migrated" then
    match T.vectorConfig with
    | none => Program.fail "migrated vector checkpoint requires ThreadVector configuration"
    | some table => do
      readWorld fun w => check (w.tables table).isSome "migrated vector checkpoint canonical table is missing"
      pure outcome
  else pure outcome

/-- The phases of a migration of the vector table. -/
def migrateVector (self : ℕ) (lease : TaskLease) (table : String) (cp : Checkpoint) : TaskProgram String := do
  let staging ← Program.lift (stagingNameOf table cp)
  let cp ← T.stage lease table staging cp
  Program.lift (check (cp.stagingTableName = some staging)
    "vector checkpoint staging table name does not match this task")
  readWorld fun w => check (w.tables staging).isSome "vector checkpoint staging table is missing"
  let cp ← T.beginSwitch lease table staging cp
  let cp ← T.cutover self lease table staging cp
  let cp ← T.buildIndexes self lease table staging cp
  let cp ← T.cleanupStaging self lease table staging cp
  Program.lift (orError "completed vector migration is missing its outcome" cp.vectorOutcome)

def syncVector (self : ℕ) (lease : TaskLease) (cp : Checkpoint) : TaskProgram String := do
  Program.lift (check (cp.rdbPhase = .verified) "vector migration requires verified RDB message bounds")
  if cp.vectorPhase = .completed then T.completedOutcome cp
  else do
    let legacy ← Program.lift T.legacyVectorState
    match T.vectorConfig with
    | none => do
      Program.lift (check (!cp.vectorPhase.needsStaging)
        "intermediate vector checkpoint requires ThreadVector configuration")
      Program.lift (check (legacy.all fun l => l.1 ≠ .staged && l.1 ≠ .switching)
        "legacy vector cutover is in progress and requires ThreadVector configuration")
      T.notRequired lease cp
    | some table => do
      let canonicalExists ← readWorld fun w => .ok (w.tables table).isSome
      let cp ← T.adoptLegacy lease table canonicalExists legacy cp
      if !canonicalExists && !cp.vectorPhase.needsStaging then T.notRequired lease cp
      else T.migrateVector self lease table cp

/-! ## The task -/

def applyWithLease (self : ℕ) (lease : TaskLease) : TaskProgram String := do
  let cp ← readWorld T.loadCheckpoint
  let cp ← T.backfillRdb lease cp
  T.syncVector self lease cp

/-- What follows a claim. -/
def runClaimed (self : ℕ) (lease : TaskLease) : TaskProgram String := do
  let outcome ← Program.orElse (do
      let outcome ← T.applyWithLease self lease
      T.verifyInner (some lease)
      pure outcome) fun e => do
    Program.orElse (rowTx fun now => DataMigration.fail lease "task_execution_failed" now) fun _ => pure ()
    Program.fail e
  rowTx fun now => complete lease now
  pure outcome

def claimAndRun (self : ℕ) (executionId holderId : String) : TaskProgram String := do
  let lease ← rowTx fun now => claimTx T.identity T.digest executionId holderId now defaultLeaseMs
  T.runClaimed self lease

def lookAndRun (self : ℕ) (executionId holderId : String) : TaskProgram String := do
  let existing ← readWorld fun w => .ok w.row
  if existing.any (·.state = .completed) then do
    T.verifyInner none
    pure "already_completed"
  else T.claimAndRun self executionId holderId

/-- `ThreadMessageTimesV1Task::apply`, by the executor `self`. -/
def apply (self : ℕ) (executionId holderId : String) : TaskProgram String := do
  readWorld fun _ => T.db.preflight
  T.lookAndRun self executionId holderId

end MessageTimesTask

end MemoryStore.DataMigration
