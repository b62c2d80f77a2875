/-
What a lease is worth: any number of executors claim, save checkpoints, renew,
complete and fail on one task, in any order and with any clocks.
-/
import MemoryStore.DataMigration.TaskState

namespace MemoryStore.DataMigration

variable {T : Type}

/-! ## Runs -/

/-- A call of one executor. -/
inductive LeaseCall (T : Type) where
  | claim (digest executionId holderId : String) (now leaseDurationMs : Int)
  | saveCheckpoint (lease : TaskLease) (checkpoint : TaskCheckpointEnvelope T) (now leaseDurationMs : Int)
  | renew (lease : TaskLease) (now leaseDurationMs : Int)
  | complete (lease : TaskLease) (now : Int)
  | fail (lease : TaskLease) (classification : String) (now : Int)

/-- The lease a call carries. -/
def LeaseCall.lease : LeaseCall T → Option TaskLease
  | claim .. => none
  | saveCheckpoint lease .. | renew lease .. | complete lease .. | fail lease .. => some lease

/-- The transaction of a call, on one task; a claim answers with its lease. -/
def LeaseCall.tx (taskIdentity : String) : LeaseCall T → TaskTx T (Option TaskLease)
  | claim digest executionId holderId now leaseDurationMs => do
    let lease ← claimTx taskIdentity digest executionId holderId now leaseDurationMs
    pure (some lease)
  | saveCheckpoint lease checkpoint now leaseDurationMs => do
    saveCheckpointTx lease checkpoint now leaseDurationMs
    pure none
  | renew lease now leaseDurationMs => do
    renewLease lease now leaseDurationMs
    pure none
  | complete lease now => do
    DataMigration.complete lease now
    pure none
  | fail lease classification now => do
    DataMigration.fail lease classification now
    pure none

/-- The row after a call. -/
def LeaseCall.exec (taskIdentity : String) (call : LeaseCall T) (s : Option (TaskStateRow T)) : Option (TaskStateRow T) :=
  (call.tx taskIdentity).commit s

/-- The row after the first calls of a run, which begins before the task has one. -/
def rowAt (taskIdentity : String) (calls : List (LeaseCall T)) (n : Nat) : Option (TaskStateRow T) :=
  Run.execAll (LeaseCall.exec taskIdentity) (calls.take n) none

/-- A call of a run claims the task, at some clock. -/
def ClaimsAt (taskIdentity : String) (calls : List (LeaseCall T)) (n : Nat) (lease : TaskLease) (now : Int) : Prop :=
  ∃ digest executionId holderId leaseDurationMs s',
    calls[n]? = some (.claim digest executionId holderId now leaseDurationMs) ∧
      LeaseCall.tx taskIdentity (.claim digest executionId holderId now leaseDurationMs) (rowAt taskIdentity calls n) =
        .ok (some lease, s')

/-- The fencing token of the row. -/
def tokenOf (s : Option (TaskStateRow T)) : Int := (s.map TaskStateRow.fencingToken).getD 0

/-- A task has ended, or its lease has expired at some clock. -/
def TaskStateRow.over (row : TaskStateRow T) (now : Int) : Prop :=
  row.state ≠ .running ∨ ∃ expiry, row.leaseExpiresAt = some expiry ∧ expiry ≤ now

/-! ## One call -/

/-- What a write under a lease does: it keeps the token, and a running row its expiry. -/
def WritesHeld (lease : TaskLease) (s s' : Option (TaskStateRow T)) : Prop :=
  ∃ row row', s = some row ∧ lease.holds row = true ∧ s' = some row' ∧ row'.fencingToken = row.fencingToken ∧
    (row'.state = .running → row'.leaseExpiresAt.isSome)

theorem updateHeld_writes {lease : TaskLease} {f : TaskStateRow T → TaskStateRow T} (lost : String)
    (htoken : ∀ row, (f row).fencingToken = row.fencingToken)
    (hexpires : ∀ row, (f row).state = .running → (f row).leaseExpiresAt.isSome) (s : Option (TaskStateRow T)) :
    Tx.wp (updateHeld lease f lost) (fun _ s' => WritesHeld lease s s') (fun _ => True) s := by
  refine (updateHeld_spec lease f lost s).imp fun _ s' h => ?_
  obtain ⟨row, hs, hholds, hs'⟩ := h
  exact ⟨row, f row, hs, hholds, hs', htoken row, hexpires row⟩

theorem LeaseCall.writes {taskIdentity : String} {call : LeaseCall T} {lease : TaskLease} (hl : call.lease = some lease)
    (s : Option (TaskStateRow T)) :
    Tx.wp (call.tx taskIdentity) (fun _ s' => WritesHeld lease s s') (fun _ => True) s := by
  cases call with
  | claim => cases hl
  | saveCheckpoint lease checkpoint now leaseDurationMs =>
    cases hl
    unfold tx saveCheckpointTx
    simp only [Tx.wp_bind, Tx.wp_ensure, Tx.wp_pure]
    refine ⟨fun _ => ?_, fun _ => trivial⟩
    split
    · exact trivial
    · apply updateHeld_writes
      · exact fun _ => rfl
      · exact fun _ _ => rfl
  | renew lease now leaseDurationMs =>
    cases hl
    unfold tx renewLease
    simp only [Tx.wp_bind, Tx.wp_pure]
    split
    · exact trivial
    · apply updateHeld_writes
      · exact fun _ => rfl
      · exact fun _ _ => rfl
  | complete lease now =>
    cases hl
    unfold tx DataMigration.complete
    simp only [Tx.wp_bind, Tx.wp_pure]
    apply updateHeld_writes
    · exact fun _ => rfl
    · exact fun _ h => by cases h
  | fail lease classification now =>
    cases hl
    unfold tx DataMigration.fail
    simp only [Tx.wp_bind, Tx.wp_pure]
    apply updateHeld_writes
    · exact fun _ => rfl
    · exact fun _ h => by cases h

/-- What a call that succeeds does: it claims the task, or writes under the lease it carries. -/
theorem LeaseCall.tx_ok {taskIdentity : String} {call : LeaseCall T} {s s' : Option (TaskStateRow T)}
    {answer : Option TaskLease} (h : call.tx taskIdentity s = .ok (answer, s')) :
    (∃ digest executionId holderId now leaseDurationMs lease row row' expiresAt,
      call = .claim digest executionId holderId now leaseDurationMs ∧ answer = some lease ∧
        (s = some row ∨ s = none ∧ row.fencingToken = 0 ∧ row.state = .pending) ∧ row.state ≠ .completed ∧
        row.isActiveLease now = false ∧ s' = some row' ∧ row'.state = .running ∧
        row'.leaseExpiresAt = some expiresAt ∧ row'.fencingToken = row.fencingToken + 1 ∧
        lease.fencingToken = row'.fencingToken) ∨
    ∃ lease, call.lease = some lease ∧ WritesHeld lease s s' := by
  cases hl : call.lease with
  | some lease => exact .inr ⟨lease, rfl, (LeaseCall.writes hl s).ok h⟩
  | none =>
    cases call with
    | claim digest executionId holderId now leaseDurationMs =>
      simp only [tx, Tx.bind_run] at h
      split at h
      · next lease s₁ hclaim =>
        cases h
        obtain ⟨row, row', expiresAt, hfacts⟩ := claimTx_ok hclaim
        exact .inl ⟨_, _, _, _, _, lease, row, row', expiresAt, rfl, rfl, hfacts⟩
      · cases h
    | _ => cases hl

/-- A call that fails leaves the row. -/
theorem LeaseCall.exec_refused {taskIdentity : String} {call : LeaseCall T} {s : Option (TaskStateRow T)} {e : String}
    (h : call.tx taskIdentity s = .error e) : call.exec taskIdentity s = s := by
  simp [exec, Tx.commit, h]

/-- Whether a call succeeds or not, the token does not fall. -/
theorem LeaseCall.tokenOf_le (taskIdentity : String) (call : LeaseCall T) (s : Option (TaskStateRow T)) :
    tokenOf s ≤ tokenOf (call.exec taskIdentity s) := by
  cases hrun : call.tx taskIdentity s with
  | error e => rw [exec_refused hrun]
  | ok r =>
    rw [show call.exec taskIdentity s = r.2 from Tx.commit_ok hrun]
    rcases tx_ok hrun with ⟨_, _, _, _, _, lease, row, row', _, _, _, hs, _, _, hs', _, _, htoken, _⟩ |
      ⟨lease, _, row, row', rfl, _, hs', htoken, _⟩
    · rw [hs']
      rcases hs with rfl | ⟨rfl, hzero, -⟩
      · simp only [tokenOf, Option.map_some, Option.getD_some]
        omega
      · simp only [tokenOf, Option.map_some, Option.map_none, Option.getD_some, Option.getD_none]
        omega
    · rw [hs']
      simp only [tokenOf, Option.map_some, Option.getD_some]
      omega

/-- A call with a token that is not the row's is refused. -/
theorem LeaseCall.exec_stale {taskIdentity : String} {call : LeaseCall T} {s : Option (TaskStateRow T)}
    {lease : TaskLease} (hl : call.lease = some lease) (hne : lease.fencingToken ≠ tokenOf s ∨ s = none) :
    call.exec taskIdentity s = s := by
  cases hrun : call.tx taskIdentity s with
  | error e => exact exec_refused hrun
  | ok r =>
    exfalso
    rcases tx_ok hrun with ⟨_, _, _, _, _, _, _, _, _, rfl, _⟩ | ⟨lease', hl', row, row', rfl, hholds, _⟩
    · simp [LeaseCall.lease] at hl
    · rw [hl] at hl'
      cases hl'
      simp only [TaskLease.holds, Bool.and_eq_true, decide_eq_true_eq] at hholds
      rcases hne with hne | hnone
      · exact hne (by simp [tokenOf, hholds.2])
      · cases hnone

/-- A completed row is changed by no call. -/
theorem LeaseCall.exec_completed {taskIdentity : String} {call : LeaseCall T} {row : TaskStateRow T}
    (hrow : row.state = .completed) : call.exec taskIdentity (some row) = some row := by
  cases hrun : call.tx taskIdentity (some row) with
  | error e => exact exec_refused hrun
  | ok r =>
    exfalso
    rcases tx_ok hrun with ⟨_, _, _, _, _, _, row₁, _, _, _, _, hs, hstate, _⟩ | ⟨lease, _, row₁, _, hs, hholds, _⟩
    · rcases hs with hs | ⟨hnone, -⟩
      · cases hs
        exact hstate hrow
      · cases hnone
    · cases hs
      simp only [TaskLease.holds, Bool.and_eq_true, decide_eq_true_eq] at hholds
      simp [hrow] at hholds

/-- A running row has an expiry. -/
def Expires (s : Option (TaskStateRow T)) : Prop := ∀ row, s = some row → row.state = .running → row.leaseExpiresAt.isSome

theorem LeaseCall.exec_expires {taskIdentity : String} {call : LeaseCall T} {s : Option (TaskStateRow T)}
    (hs : Expires s) : Expires (call.exec taskIdentity s) := by
  cases hrun : call.tx taskIdentity s with
  | error e => rwa [exec_refused hrun]
  | ok r =>
    rw [show call.exec taskIdentity s = r.2 from Tx.commit_ok hrun]
    intro row hrow hrunning
    rcases tx_ok hrun with ⟨_, _, _, _, _, _, _, row', _, _, _, _, _, _, hs', _, hexpires, _⟩ |
      ⟨_, _, _, row', _, _, hs', _, hexpires⟩
    · rw [hs'] at hrow
      cases hrow
      simp [hexpires]
    · rw [hs'] at hrow
      cases hrow
      exact hexpires hrunning

/-! ## Every run -/

variable (taskIdentity : String) (calls : List (LeaseCall T))

theorem rowAt_succ (n : Nat) : rowAt taskIdentity calls (n + 1) =
    match calls[n]? with
    | none => rowAt taskIdentity calls n
    | some call => call.exec taskIdentity (rowAt taskIdentity calls n) := by
  unfold rowAt Run.execAll
  cases h : calls[n]? with
  | none =>
    rw [List.getElem?_eq_none_iff] at h
    rw [List.take_of_length_le h, List.take_of_length_le (Nat.le_succ_of_le h)]
  | some call => rw [List.take_add_one, h, Option.toList_some, List.foldl_append, List.foldl_cons, List.foldl_nil]

theorem tokenOf_rowAt_mono {n m : Nat} (h : n ≤ m) :
    tokenOf (rowAt taskIdentity calls n) ≤ tokenOf (rowAt taskIdentity calls m) := by
  induction h with
  | refl => exact Int.le_refl _
  | step _ ih =>
    refine Int.le_trans ih ?_
    rw [rowAt_succ]
    split
    · exact Int.le_refl _
    · exact LeaseCall.tokenOf_le _ _ _

theorem expires_rowAt (n : Nat) : Expires (rowAt taskIdentity calls n) := by
  induction n with
  | zero =>
    intro row hrow
    cases hrow
  | succ n ih =>
    rw [rowAt_succ]
    split
    · exact ih
    · exact LeaseCall.exec_expires ih

variable {taskIdentity calls}

/-- The row a claim leaves. -/
theorem ClaimsAt.row {n : Nat} {lease : TaskLease} {now : Int} (h : ClaimsAt taskIdentity calls n lease now) :
    ∃ row', rowAt taskIdentity calls (n + 1) = some row' ∧ row'.fencingToken = lease.fencingToken ∧
      tokenOf (rowAt taskIdentity calls n) < lease.fencingToken ∧
      ∀ row, rowAt taskIdentity calls n = some row → row.over now := by
  obtain ⟨digest, executionId, holderId, leaseDurationMs, s', hget, hrun⟩ := h
  have hnext : rowAt taskIdentity calls (n + 1) = s' := by
    rw [rowAt_succ, hget]
    exact Tx.commit_ok hrun
  rcases LeaseCall.tx_ok hrun with ⟨_, _, _, now', _, lease', row, row', _, hcall, hlease, hs, -, hactive, hs', -, -,
      htoken, htoken'⟩ | ⟨_, hl, _⟩
  · cases hcall
    cases hlease
    refine ⟨row', hnext.trans hs', htoken'.symm, ?_, fun row₁ hrow₁ => ?_⟩
    · rw [htoken', htoken]
      rcases hs with hs | ⟨hs, hzero, -⟩
      · rw [hs]
        simp only [tokenOf, Option.map_some, Option.getD_some]
        omega
      · rw [hs]
        simp only [tokenOf, Option.map_none, Option.getD_none]
        omega
    · rcases hs with hs | ⟨hs, -⟩
      · rw [hs] at hrow₁
        cases hrow₁
        by_cases hr : row.state = .running
        · obtain ⟨expiry, hexpiry⟩ := Option.isSome_iff_exists.1 (expires_rowAt taskIdentity calls n row hs hr)
          refine .inr ⟨expiry, hexpiry, ?_⟩
          simpa [TaskStateRow.isActiveLease, hr, hexpiry] using hactive
        · exact .inl hr
      · rw [hs] at hrow₁
        cases hrow₁
  · simp [LeaseCall.lease] at hl

/-- Between a claim and a later one, some claim takes the task over from the first. -/
theorem ClaimsAt.takenOver {i j : Nat} {earlier later : TaskLease} {now now' : Int}
    (hi : ClaimsAt taskIdentity calls i earlier now) (hj : ClaimsAt taskIdentity calls j later now') (hij : i < j) :
    ∃ k lease t row, i < k ∧ k ≤ j ∧ ClaimsAt taskIdentity calls k lease t ∧ rowAt taskIdentity calls k = some row ∧
      row.fencingToken = earlier.fencingToken ∧ row.over t := by
  obtain ⟨row, hrow, htoken, -, -⟩ := hi.row
  -- The first call after the claim that raises the token.
  have hfirst : ∀ n, i + 1 ≤ n → n ≤ j → (∃ row, rowAt taskIdentity calls n = some row ∧
      row.fencingToken = earlier.fencingToken) ∨ ∃ k lease t row, i < k ∧ k ≤ j ∧ ClaimsAt taskIdentity calls k lease t ∧
      rowAt taskIdentity calls k = some row ∧ row.fencingToken = earlier.fencingToken ∧ row.over t := by
    intro n hn
    induction hn with
    | refl => exact fun _ => .inl ⟨row, hrow, htoken⟩
    | @step n hn ih =>
      intro hnj
      have hin : i + 1 ≤ n := hn
      rcases ih (by omega) with ⟨row, hrow, htoken⟩ | hdone
      · rw [rowAt_succ]
        cases hget : calls[n]? with
        | none => exact .inl ⟨row, hrow, htoken⟩
        | some call =>
          show (∃ row', call.exec taskIdentity (rowAt taskIdentity calls n) = some row' ∧ _) ∨ _
          cases hrun : call.tx taskIdentity (rowAt taskIdentity calls n) with
          | error e =>
            rw [LeaseCall.exec_refused hrun]
            exact .inl ⟨row, hrow, htoken⟩
          | ok r =>
            rw [show call.exec taskIdentity (rowAt taskIdentity calls n) = r.2 from Tx.commit_ok hrun]
            rcases LeaseCall.tx_ok hrun with ⟨_, _, _, t, _, lease, _, _, _, rfl, hanswer, _⟩ |
              ⟨_, _, row₁, row', hs, _, hs', hsame, _⟩
            · have hclaim : ClaimsAt taskIdentity calls n lease t := ⟨_, _, _, _, r.2, hget, by rw [hrun, ← hanswer]⟩
              obtain ⟨-, -, -, -, hover⟩ := hclaim.row
              exact .inr ⟨n, lease, t, row, by omega, by omega, hclaim, hrow, htoken, hover row hrow⟩
            · rw [hs] at hrow
              cases hrow
              exact .inl ⟨row', hs', hsame.trans htoken⟩
      · exact .inr hdone
  rcases hfirst j hij (Nat.le_refl j) with ⟨row, hrow, htoken⟩ | hdone
  · obtain ⟨-, -, -, -, hover⟩ := hj.row
    exact ⟨j, later, now', row, hij, Nat.le_refl j, hj, hrow, htoken, hover row hrow⟩
  · exact hdone

/-- What the leases of a run are worth. -/
structure Fenced (taskIdentity : String) (calls : List (LeaseCall T)) : Prop where
  /-- The token of the row never decreases. -/
  monotone : ∀ n m, n ≤ m → tokenOf (rowAt taskIdentity calls n) ≤ tokenOf (rowAt taskIdentity calls m)
  /-- Each claim raises it, and carries it. -/
  raised : ∀ n lease now, ClaimsAt taskIdentity calls n lease now →
    tokenOf (rowAt taskIdentity calls n) < tokenOf (rowAt taskIdentity calls (n + 1)) ∧
      lease.fencingToken = tokenOf (rowAt taskIdentity calls (n + 1))
  /-- Once a claim has committed, no call with an older token changes the row. -/
  stale : ∀ n lease now, ClaimsAt taskIdentity calls n lease now → ∀ m > n, ∀ (call : LeaseCall T) older,
    call.lease = some older → older.fencingToken < lease.fencingToken →
      call.exec taskIdentity (rowAt taskIdentity calls m) = rowAt taskIdentity calls m
  /-- A claim is followed by another only once its task has ended or, at the
  clock of the claim that takes the task over from it, its lease has expired. -/
  takenOver : ∀ i j earlier later now now', ClaimsAt taskIdentity calls i earlier now →
    ClaimsAt taskIdentity calls j later now' → i < j →
      ∃ k lease t row, i < k ∧ k ≤ j ∧ ClaimsAt taskIdentity calls k lease t ∧ rowAt taskIdentity calls k = some row ∧
        row.fencingToken = earlier.fencingToken ∧ row.over t
  /-- No call changes a completed row. -/
  completed : ∀ n row, rowAt taskIdentity calls n = some row → row.state = .completed →
    (∀ m ≥ n, rowAt taskIdentity calls m = some row) ∧ ∀ call : LeaseCall T, call.exec taskIdentity (some row) = some row
  /-- A call that is refused leaves the row. -/
  refused : ∀ n (call : LeaseCall T) e, call.tx taskIdentity (rowAt taskIdentity calls n) = .error e →
    call.exec taskIdentity (rowAt taskIdentity calls n) = rowAt taskIdentity calls n

/-- **Leases fence off stale executors**, in every run of calls on a task. -/
theorem leases_fence (taskIdentity : String) (calls : List (LeaseCall T)) : Fenced taskIdentity calls where
  monotone _ _ h := tokenOf_rowAt_mono taskIdentity calls h
  raised n lease now h := by
    obtain ⟨row', hrow', htoken, hlt, -⟩ := h.row
    have hnext : tokenOf (rowAt taskIdentity calls (n + 1)) = lease.fencingToken := by simp [tokenOf, hrow', htoken]
    exact ⟨hnext ▸ hlt, hnext.symm⟩
  stale n lease now h m hm call older hl hlt := by
    refine LeaseCall.exec_stale hl (.inl ?_)
    obtain ⟨row', hrow', htoken, -, -⟩ := h.row
    have hle := tokenOf_rowAt_mono taskIdentity calls (show n + 1 ≤ m by omega)
    have hnext : tokenOf (rowAt taskIdentity calls (n + 1)) = lease.fencingToken := by simp [tokenOf, hrow', htoken]
    omega
  takenOver _ _ _ _ _ _ hi hj hij := hi.takenOver hj hij
  completed n row hrow hstate := by
    refine ⟨fun m hm => ?_, fun call => LeaseCall.exec_completed hstate⟩
    induction hm with
    | refl => exact hrow
    | step _ ih =>
      rw [rowAt_succ]
      split
      · exact ih
      · rw [ih]
        exact LeaseCall.exec_completed hstate
  refused _ _ _ h := LeaseCall.exec_refused h

/-- A lease is taken over after it has expired; the second holder renews by a
clock that has gone back, and a third claims by that clock. -/
def regressingClock : List (LeaseCall Unit) :=
  [.claim "digest" "a" "a" 0 100, .claim "digest" "b" "b" 100 1, .renew ⟨"task", "digest", "b", "b", 2⟩ (-1000) 1,
    .claim "digest" "c" "c" (-999) 1]

/-- At the clock of a later claim, the lease of an earlier one need not have expired. -/
theorem unexpired_at_later_claim :
    ¬∀ (taskIdentity : String) (calls : List (LeaseCall Unit)) (i j : Nat) (earlier later : TaskLease) (now now' : Int),
      ClaimsAt taskIdentity calls i earlier now → ClaimsAt taskIdentity calls j later now' → i < j →
        ∃ k row, i < k ∧ k ≤ j ∧ rowAt taskIdentity calls k = some row ∧ row.fencingToken = earlier.fencingToken ∧
          row.over now' := by
  intro h
  obtain ⟨k, row, hik, hkj, hrow, htoken, hover⟩ := h "task" regressingClock 0 3 ⟨"task", "digest", "a", "a", 1⟩
    ⟨"task", "digest", "c", "c", 3⟩ 0 (-999) ⟨_, _, _, _, _, rfl, rfl⟩ ⟨_, _, _, _, _, rfl, rfl⟩ (by decide)
  have hk : k = 1 ∨ k = 2 ∨ k = 3 := by omega
  rcases hk with rfl | rfl | rfl
  · cases hrow
    rcases hover with hs | ⟨expiry, he, hle⟩
    · exact hs rfl
    · cases he
      omega
  · cases hrow
    exact absurd htoken (by decide)
  · cases hrow
    exact absurd htoken (by decide)

end MemoryStore.DataMigration
