/-
The durable state of a data migration task, and the lease on it
(`grpc-admin/src/db_migrate/state.rs`). Every write is one conditional `UPDATE`
of the row: the fencing token in its `WHERE` is what keeps out an executor that
has been overtaken.
-/
import MemoryStore.Lib.Run
import MemoryStore.Lib.Tx

namespace MemoryStore.DataMigration

/-- `TaskStateKind`. -/
inductive TaskStateKind where
  | pending | running | completed | failed
  deriving DecidableEq, Repr

/-- `TaskCheckpointEnvelope<T>`, which the row keeps as JSON. -/
structure TaskCheckpointEnvelope (T : Type) where
  format : String
  taskIdentity : String
  canonicalDefinitionDigest : String
  payload : T
  deriving DecidableEq, Repr

/-- `TaskStateRow`. -/
structure TaskStateRow (T : Type) where
  taskIdentity : String
  canonicalDefinitionDigest : String
  state : TaskStateKind
  executionId : Option String
  holderId : Option String
  fencingToken : Int
  heartbeatAt : Option Int
  leaseExpiresAt : Option Int
  attemptCount : Int
  checkpoint : Option (TaskCheckpointEnvelope T)
  failureClassification : Option String
  startedAt : Option Int
  updatedAt : Int
  completedAt : Option Int
  deriving DecidableEq, Repr

/-- `TaskLease`. -/
structure TaskLease where
  taskIdentity : String
  canonicalDefinitionDigest : String
  executionId : String
  holderId : String
  fencingToken : Int
  deriving DecidableEq, Repr

/-- A transaction on the row of one task, which may be absent; an error has its message. -/
abbrev TaskTx (T α : Type) : Type := Tx String (Option (TaskStateRow T)) α

/-- `i64::checked_add`. -/
def checkedAdd (a b : Int) : Option Int := if -2 ^ 63 ≤ a + b ∧ a + b < 2 ^ 63 then some (a + b) else none

variable {T : Type}

/-- `is_active_lease`. -/
def TaskStateRow.isActiveLease (row : TaskStateRow T) (now : Int) : Bool :=
  row.state = .running && row.leaseExpiresAt.any fun expiry => expiry > now

/-! ## Statements -/

/-- `INSERT_IF_ABSENT_SQL`. -/
def insertIfAbsent (taskIdentity digest : String) (now : Int) : TaskTx T Unit :=
  Tx.writes fun
    | some row => some row
    | none => some {
        taskIdentity, canonicalDefinitionDigest := digest, state := .pending, executionId := none, holderId := none
        fencingToken := 0, heartbeatAt := none, leaseExpiresAt := none, attemptCount := 0, checkpoint := none
        failureClassification := none, startedAt := none, updatedAt := now, completedAt := none }

/-- An `UPDATE` of the row under a condition; the answer is whether it hit the row. -/
def updateWhere (guard : TaskStateRow T → Bool) (f : TaskStateRow T → TaskStateRow T) : TaskTx T Bool := do
  let hit ← Tx.reads fun row => row.any guard
  Tx.writes fun row => row.map fun row => if guard row then f row else row
  pure hit

/-- The condition of every statement that needs the lease: a running row, with its token. -/
def TaskLease.holds (lease : TaskLease) (row : TaskStateRow T) : Bool :=
  row.taskIdentity = lease.taskIdentity && row.canonicalDefinitionDigest = lease.canonicalDefinitionDigest &&
    row.state = .running && row.fencingToken = lease.fencingToken

/-- A statement under the lease; one that misses the row is an error. -/
def updateHeld (lease : TaskLease) (f : TaskStateRow T → TaskStateRow T) (lost : String) : TaskTx T Unit := do
  let hit ← updateWhere lease.holds f
  Tx.ensure hit lost

/-! ## Operations -/

/-- `claim_tx`. -/
def claimTx (taskIdentity digest executionId holderId : String) (now leaseDurationMs : Int) : TaskTx T TaskLease := do
  Tx.ensure (0 < leaseDurationMs) "task lease duration must be positive"
  insertIfAbsent taskIdentity digest now
  let current ← Tx.get
  match current with
  | none => Tx.fail "locking data migration task state"
  | some current => do
    Tx.ensure (current.canonicalDefinitionDigest = digest)
      "task state definition digest does not match the fixed registry"
    Tx.ensure (current.state ≠ .completed) "task is already completed"
    Tx.ensure (!current.isActiveLease now) "task is owned by an active executor"
    match checkedAdd current.fencingToken 1, checkedAdd now leaseDurationMs with
    | none, _ => Tx.fail "task fencing token overflow"
    | _, none => Tx.fail "task lease expiry overflow"
    | some token, some expiresAt => do
      let changed ← updateWhere
        (fun row => row.taskIdentity = taskIdentity && row.canonicalDefinitionDigest = digest &&
          row.fencingToken = current.fencingToken)
        (fun row => { row with
          state := .running, executionId := some executionId, holderId := some holderId, fencingToken := token
          heartbeatAt := some now, leaseExpiresAt := some expiresAt, attemptCount := row.attemptCount + 1
          failureClassification := none, startedAt := some now, updatedAt := now })
      Tx.ensure changed "task lease was lost before it could be claimed"
      pure ⟨taskIdentity, digest, executionId, holderId, token⟩

/-- `save_checkpoint_tx`. -/
def saveCheckpointTx (lease : TaskLease) (checkpoint : TaskCheckpointEnvelope T) (now leaseDurationMs : Int) :
    TaskTx T Unit := do
  Tx.ensure (checkpoint.taskIdentity = lease.taskIdentity &&
    checkpoint.canonicalDefinitionDigest = lease.canonicalDefinitionDigest)
    "checkpoint identity does not match task lease"
  match checkedAdd now leaseDurationMs with
  | none => Tx.fail "task lease expiry overflow"
  | some expiresAt =>
    updateHeld lease (fun row => { row with
      checkpoint := some checkpoint, heartbeatAt := some now, leaseExpiresAt := some expiresAt, updatedAt := now })
      "task checkpoint write lost its lease"

/-- `renew_lease`, and `renew_lease_tx`. -/
def renewLease (lease : TaskLease) (now leaseDurationMs : Int) : TaskTx T Unit :=
  match checkedAdd now leaseDurationMs with
  | none => Tx.fail "task lease expiry overflow"
  | some expiresAt =>
    updateHeld lease (fun row => { row with
      heartbeatAt := some now, leaseExpiresAt := some expiresAt, updatedAt := now })
      "task lease heartbeat lost its lease"

/-- `complete`, and `complete_tx`. -/
def complete (lease : TaskLease) (now : Int) : TaskTx T Unit :=
  updateHeld lease (fun row => { row with
    state := .completed, heartbeatAt := none, leaseExpiresAt := none, completedAt := some now, updatedAt := now })
    "task completion lost its lease"

/-- `fail`, and `fail_tx`. -/
def fail (lease : TaskLease) (classification : String) (now : Int) : TaskTx T Unit :=
  updateHeld lease (fun row => { row with
    state := .failed, heartbeatAt := none, leaseExpiresAt := none, failureClassification := some classification
    updatedAt := now })
    "task failure write lost its lease"

/-! ## What an operation does -/

/-- The row that a first claim inserts. -/
def freshRow (taskIdentity digest : String) (now : Int) : TaskStateRow T where
  taskIdentity := taskIdentity
  canonicalDefinitionDigest := digest
  state := .pending
  executionId := none
  holderId := none
  fencingToken := 0
  heartbeatAt := none
  leaseExpiresAt := none
  attemptCount := 0
  checkpoint := none
  failureClassification := none
  startedAt := none
  updatedAt := now
  completedAt := none

/-- The row after a claim. -/
def claimedRow (executionId holderId : String) (now expiresAt token : Int) (row : TaskStateRow T) : TaskStateRow T :=
  { row with
    state := .running, executionId := some executionId, holderId := some holderId, fencingToken := token
    heartbeatAt := some now, leaseExpiresAt := some expiresAt, attemptCount := row.attemptCount + 1
    failureClassification := none, startedAt := some now, updatedAt := now }

/-- **A claim that succeeds** finds the row with no live lease, raises its token, and leaves its checkpoint. -/
theorem claimTx_row {taskIdentity digest executionId holderId : String} {now leaseDurationMs : Int}
    {s s' : Option (TaskStateRow T)} {lease : TaskLease}
    (h : claimTx taskIdentity digest executionId holderId now leaseDurationMs s = .ok (lease, s')) :
    ∃ row expiresAt, row = s.getD (freshRow taskIdentity digest now) ∧ row.taskIdentity = taskIdentity ∧
      row.canonicalDefinitionDigest = digest ∧ row.state ≠ .completed ∧ row.isActiveLease now = false ∧
      lease = ⟨taskIdentity, digest, executionId, holderId, row.fencingToken + 1⟩ ∧
      s' = some (claimedRow executionId holderId now expiresAt (row.fencingToken + 1) row) := by
  have hwp : Tx.wp (claimTx (T := T) taskIdentity digest executionId holderId now leaseDurationMs)
      (fun lease s' => ∃ row expiresAt, row = s.getD (freshRow taskIdentity digest now) ∧ row.taskIdentity = taskIdentity ∧
        row.canonicalDefinitionDigest = digest ∧ row.state ≠ .completed ∧ row.isActiveLease now = false ∧
        lease = ⟨taskIdentity, digest, executionId, holderId, row.fencingToken + 1⟩ ∧
        s' = some (claimedRow executionId holderId now expiresAt (row.fencingToken + 1) row)) (fun _ => True) s := by
    unfold claimTx insertIfAbsent
    simp only [Tx.wp_bind, Tx.wp_ensure, Tx.wp_writes, Tx.wp_get]
    refine ⟨fun _ => ?_, fun _ => trivial⟩
    split
    · exact trivial
    · next current hcurrent =>
      have hfrom : current = s.getD (freshRow taskIdentity digest now) := by
        cases s with
        | none => exact (Option.some.inj hcurrent).symm
        | some row => exact (Option.some.inj hcurrent).symm
      simp only [Tx.wp_bind, Tx.wp_ensure, decide_eq_true_eq, Bool.not_eq_true', decide_eq_false_iff_not]
      refine ⟨fun hdigest => ⟨fun hstate => ⟨fun hactive => ?_, fun _ => trivial⟩, fun _ => trivial⟩, fun _ => trivial⟩
      split
      · exact trivial
      · exact trivial
      · next token expiresAt htoken hexpires =>
        unfold updateWhere
        simp only [Tx.wp_bind, Tx.wp_reads, Tx.wp_writes, Tx.wp_pure, Tx.wp_ensure]
        refine ⟨fun hhit => ?_, fun _ => trivial⟩
        rw [hcurrent] at hhit ⊢
        have hguard := hhit
        simp only [Option.any_some, Bool.and_eq_true, decide_eq_true_eq] at hguard
        simp only [Option.any_some] at hhit
        have htoken' : token = current.fencingToken + 1 := by
          unfold checkedAdd at htoken
          split at htoken
          · exact (Option.some.inj htoken).symm
          · cases htoken
        subst htoken'
        refine ⟨current, expiresAt, hfrom, hguard.1.1, hdigest, hstate, hactive, rfl, ?_⟩
        simp only [Option.map_some, if_pos hhit]
        rfl
  exact hwp.ok h

/-- A claim of a task that is not completed, with no live lease, succeeds while there are tokens. -/
theorem claimTx_run {taskIdentity digest executionId holderId : String} {now leaseDurationMs expiresAt : Int}
    {s : Option (TaskStateRow T)} {row : TaskStateRow T} (hrow : row = s.getD (freshRow taskIdentity digest now))
    (hpositive : 0 < leaseDurationMs) (hidentity : row.taskIdentity = taskIdentity)
    (hdigest : row.canonicalDefinitionDigest = digest) (hstate : row.state ≠ .completed)
    (hactive : row.isActiveLease now = false)
    (htoken : checkedAdd row.fencingToken 1 = some (row.fencingToken + 1))
    (hexpires : checkedAdd now leaseDurationMs = some expiresAt) :
    claimTx taskIdentity digest executionId holderId now leaseDurationMs s =
      .ok (⟨taskIdentity, digest, executionId, holderId, row.fencingToken + 1⟩,
        some (claimedRow executionId holderId now expiresAt (row.fencingToken + 1) row)) := by
  have hsame : claimTx taskIdentity digest executionId holderId now leaseDurationMs s =
      claimTx taskIdentity digest executionId holderId now leaseDurationMs (some row) := by
    rw [hrow]
    cases s with
    | none =>
      simp only [claimTx, Tx.bind_run, Tx.ensure, hpositive, decide_true, if_true]
      rfl
    | some r => rfl
  have hwp : Tx.wp (claimTx (T := T) taskIdentity digest executionId holderId now leaseDurationMs)
      (fun lease s' => lease = ⟨taskIdentity, digest, executionId, holderId, row.fencingToken + 1⟩ ∧
        s' = some (claimedRow executionId holderId now expiresAt (row.fencingToken + 1) row)) (fun _ => False)
      (some row) := by
    unfold claimTx insertIfAbsent updateWhere
    simp only [Tx.wp_bind, Tx.wp_ensure, Tx.wp_writes, Tx.wp_get, hpositive, hdigest, hactive, htoken, hexpires,
      Tx.wp_reads, Tx.wp_pure, Option.any_some, Option.map_some, hidentity]
    simp only [decide_true, ne_eq, decide_not, Bool.not_eq_eq_eq_not, Bool.not_true, decide_eq_false_iff_not,
      Bool.not_false, Bool.and_self, if_true, Option.some.injEq, true_and, forall_const, Bool.true_eq_false, imp_self,
      and_true, decide_eq_true_eq, imp_false]
    exact ⟨fun _ => by simp only [claimedRow, hidentity, hdigest], hstate⟩
  obtain ⟨lease, s', hrun, rfl, rfl⟩ := hwp.total
  exact hsame.trans hrun

/-- A claim that succeeds finds the row with no live lease, and raises its token. -/
theorem claimTx_ok {taskIdentity digest executionId holderId : String} {now leaseDurationMs : Int}
    {s s' : Option (TaskStateRow T)} {lease : TaskLease}
    (h : claimTx taskIdentity digest executionId holderId now leaseDurationMs s = .ok (lease, s')) :
    ∃ row row' expiresAt, (s = some row ∨ s = none ∧ row.fencingToken = 0 ∧ row.state = .pending) ∧
      row.state ≠ .completed ∧ row.isActiveLease now = false ∧ s' = some row' ∧ row'.state = .running ∧
      row'.leaseExpiresAt = some expiresAt ∧ row'.fencingToken = row.fencingToken + 1 ∧
      lease.fencingToken = row'.fencingToken := by
  obtain ⟨row, expiresAt, hrow, -, -, hstate, hactive, rfl, hs'⟩ := claimTx_row h
  refine ⟨row, _, expiresAt, ?_, hstate, hactive, hs', rfl, rfl, rfl, rfl⟩
  cases s with
  | none => exact .inr ⟨rfl, by rw [hrow]; rfl, by rw [hrow]; rfl⟩
  | some r => exact .inl (by rw [hrow]; rfl)

/-- A statement under the lease finds the running row with its token. -/
theorem updateHeld_spec (lease : TaskLease) (f : TaskStateRow T → TaskStateRow T) (lost : String)
    (s : Option (TaskStateRow T)) :
    Tx.wp (updateHeld lease f lost) (fun _ s' => ∃ row, s = some row ∧ lease.holds row = true ∧ s' = some (f row))
      (fun _ => True) s := by
  unfold updateHeld updateWhere
  simp only [Tx.wp_bind, Tx.wp_reads, Tx.wp_writes, Tx.wp_pure, Tx.wp_ensure]
  refine ⟨fun hhit => ?_, fun _ => trivial⟩
  cases s with
  | none => simp at hhit
  | some row =>
    have hguard : lease.holds row = true := by simpa using hhit
    exact ⟨row, rfl, hguard, by simp [hguard]⟩

/-- A statement under a lease that is held succeeds. -/
theorem updateHeld_run {lease : TaskLease} {row : TaskStateRow T} (h : lease.holds row = true)
    (f : TaskStateRow T → TaskStateRow T) (lost : String) :
    updateHeld lease f lost (some row) = .ok ((), some (f row)) := by
  simp only [updateHeld, updateWhere, Tx.bind_run, Tx.reads, Tx.writes, Option.any_some, Option.map_some, h, if_true]
  rfl

end MemoryStore.DataMigration
