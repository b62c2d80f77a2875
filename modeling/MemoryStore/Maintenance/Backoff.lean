/-
The completion of a task under backoff: what the retry delay comes to, and when
the completion step closes its task.

The delay is an exponential of the failure streak, and only the product is
clamped. A streak long enough takes the product out of the range of durations
before the clamp sees it, and the panic there loses the task.
-/
import MemoryStore.Maintenance.Accounting

namespace MemoryStore.Maintenance

variable {p : Policy} {c c' : Coordinator} {s : System}

/-! ## The delay -/

/-- The bounds of an accepted configuration. -/
structure Policy.Valid (p : Policy) : Prop where
  initialPos : 0 < p.backoffInitial
  maxInRange : p.backoffMax < Duration.limit
  initialLeMax : p.backoffInitial ≤ p.backoffMax
  oneLeMultiplier : 1 ≤ p.backoffMultiplier
  historyPos : 0 < p.historyLimit

theorem Policy.withConfig_valid {env : Environment} {config : SearchIndexMaintenanceConfig}
    (h : SearchIndexMaintenanceConfig.fromEnv env = .ok config) (now : Nat) : (Policy.withConfig config now).Valid := by
  obtain ⟨h₁, h₂, h₃, h₄, h₅⟩ := fromEnv_accepted h
  exact ⟨h₁, h₂, h₃, h₄, h₅⟩

/-- The exact backoff after this many failures, in nanoseconds. -/
def Policy.backoff (p : Policy) (failures : Nat) : ℚ := p.backoffMultiplier ^ failures * p.backoffInitial

/-- The streak is an `i32`, the backoff rounds into the range of durations, and the delay does not reach the
end of the clock. -/
structure Policy.BackoffFits (p : Policy) (failures now : Nat) : Prop where
  streak : failures < 2 ^ 31
  inRange : p.backoff failures < Duration.limit - 1 / 2
  clock : now + min (p.backoff failures) p.backoffMax / 10 ^ 6 < 2 ^ 63 - 1

theorem toI32_of_lt {n : Nat} (h : n < 2 ^ 31) : toI32 n = n := by
  unfold toI32
  rw [Int.bmod_eq_of_le] <;> omega

theorem toI64_of_lt {n : Int} (h₀ : 0 ≤ n) (h : n < 2 ^ 63) : toI64 n = n := by
  unfold toI64
  rw [Int.bmod_eq_of_le] <;> omega

/-- Where the backoff leaves the range of durations, the delay panics. -/
theorem Policy.retryDelay_eq_none (hp : p.Valid) {failures : Nat} (h : failures < 2 ^ 31) :
    p.retryDelay failures = none ↔ (Duration.limit : ℚ) - 1 / 2 ≤ p.backoff failures := by
  have hone : (0 : ℚ) ≤ p.backoffMultiplier ^ failures := by
    have := hp.oneLeMultiplier
    positivity
  unfold Policy.retryDelay Policy.backoff
  rw [toI32_of_lt h, zpow_natCast, Option.map_eq_none_iff, Duration.mulF64_eq_none hone]

/-- **A backoff that fits** gives a delay between the initial and the maximum one. -/
theorem Policy.retryDelay_of_fits (hp : p.Valid) {failures now : Nat} (h : p.BackoffFits failures now) :
    ∃ delay, p.retryDelay failures = some delay ∧ p.backoffInitial ≤ delay ∧ delay ≤ p.backoffMax ∧
      now + delay.asMillis < 2 ^ 63 := by
  have hnot : p.retryDelay failures ≠ none := by
    rw [ne_eq, p.retryDelay_eq_none hp h.streak, not_le]
    exact h.inRange
  obtain ⟨delay, hdelay⟩ := Option.ne_none_iff_exists'.1 hnot
  refine ⟨delay, hdelay, ?_⟩
  unfold Policy.retryDelay at hdelay
  rw [toI32_of_lt h.streak, zpow_natCast, Option.map_eq_some_iff] at hdelay
  obtain ⟨product, hproduct, rfl⟩ := hdelay
  have hge : p.backoffInitial ≤ product :=
    Duration.le_of_mulF64 (one_le_pow₀ hp.oneLeMultiplier) hproduct
  have hle : (product : ℚ) ≤ p.backoff failures + 1 / 2 := Duration.mulF64_le hproduct
  refine ⟨le_min hge hp.initialLeMax, min_le_right _ _, ?_⟩
  have hmin : ((min product p.backoffMax : ℕ) : ℚ) ≤ min (p.backoff failures) p.backoffMax + 1 / 2 := by
    rw [Nat.cast_min, ← min_add_add_right]
    exact min_le_min hle (by linarith)
  have hmillis : ((Duration.asMillis (min product p.backoffMax) : ℕ) : ℚ) ≤ (min product p.backoffMax : ℕ) / 10 ^ 6 := by
    have := @Nat.cast_div_le ℚ _ _ _ (min product p.backoffMax) (10 ^ 6)
    push_cast at this ⊢
    exact this
  have hclock := h.clock
  have : (now : ℚ) + (Duration.asMillis (min product p.backoffMax) : ℕ) < 2 ^ 63 := by
    linarith
  exact_mod_cast this

/-! ## The completion step -/

/-- A completion that is no retryable failure, or one whose backoff fits. -/
def Policy.Fits (p : Policy) (c : Coordinator) (target : MaintenanceTarget) (completion : TaskCompletion) (now : Nat) :
    Prop :=
  completion.status = .failed → isRetryableError completion.errorSummary = true →
    p.BackoffFits (retryableFailures c.history target) now

/-- **The completion closes its task**: the task leaves `running`, one terminal record of it enters the history,
its permit is released, and after a retryable failure the retry is due between the initial and the maximum backoff. -/
def Closes (p : Policy) (c : Coordinator) (f : SpawnedTask) (completion : TaskCompletion) (finishedAt now : Nat) : Prop :=
  ∃ record c', c.complete p f completion finishedAt now = some (.closed record c') ∧
    record.taskId = f.taskId ∧ record.status = completion.status ∧
    (∀ t ∈ c'.running, t.taskId ≠ f.taskId) ∧
    c'.history = trim p.historyLimit (c.history ++ [record]) ∧
    c'.ddlPermits = c.ddlPermits + (if f.ddlPermit then 1 else 0) ∧
    (record.retryableFailure = true → ∃ candidate retryAfter, c'.candidates f.target = some candidate ∧
      candidate.retryAfterUnixMs = some retryAfter ∧ now + p.backoffInitial.asMillis ≤ retryAfter ∧
      retryAfter ≤ now + p.backoffMax.asMillis)

/-- The completion panics only over the delay of a retryable failure. -/
theorem Policy.settle_eq_none {candidate : CandidateState} {record : MaintenanceTask} {failures now : Nat} :
    p.settle candidate record failures now = none ↔
      record.status = .failed ∧ isRetryableError record.errorSummary = true ∧ p.retryDelay failures = none := by
  unfold Policy.settle
  cases record.status with
  | failed =>
    cases hr : isRetryableError record.errorSummary with
    | true => simp
    | false => simp
  | succeeded => cases record.action <;> simp
  | running => simp
  | skipped => simp
  | skippedDisabled => simp
  | deferred => simp

/-- The retry a retryable failure sets. -/
theorem Policy.settle_retry (hp : p.Valid) {candidate settled : CandidateState} {record : MaintenanceTask}
    {failures now : Nat} (h : p.settle candidate record failures now = some settled)
    (hr : record.retryableFailure = true) (hfits : p.BackoffFits failures now) :
    ∃ retryAfter, settled.retryAfterUnixMs = some retryAfter ∧ (now + p.backoffInitial.asMillis : Int) ≤ retryAfter ∧
      retryAfter ≤ now + p.backoffMax.asMillis := by
  simp only [MaintenanceTask.retryableFailure, Bool.and_eq_true, decide_eq_true_eq] at hr
  obtain ⟨delay, hdelay, hinitial, hmax, hclock⟩ := p.retryDelay_of_fits hp hfits
  unfold Policy.settle at h
  simp only [hr.1, hr.2, if_true, hdelay, Option.map_some, Option.some.injEq] at h
  subst h
  refine ⟨_, rfl, ?_⟩
  have hi : p.backoffInitial.asMillis ≤ delay.asMillis := Nat.div_le_div_right hinitial
  have hm : delay.asMillis ≤ p.backoffMax.asMillis := Nat.div_le_div_right hmax
  have hmillis : toI64 delay.asMillis = delay.asMillis := toI64_of_lt (by omega) (by omega)
  rw [hmillis, toI64_of_lt (by omega) (by omega)]
  constructor <;> omega

theorem retryableFailure_finished (task : MaintenanceTask) (completion : TaskCompletion) (finishedAt : Nat) :
    (task.finished completion finishedAt).retryableFailure = true ↔
      completion.status = .failed ∧ isRetryableError completion.errorSummary = true := by
  rw [MaintenanceTask.retryableFailure, Bool.and_eq_true, decide_eq_true_eq]
  exact Iff.rfl

theorem completion_closes_of_fits (hp : p.Valid) (hs : s.Sound p) {f : SpawnedTask} {k : Nat}
    (hf : s.spawned k = some f) {completion : TaskCompletion} {finishedAt now : Nat}
    (hfits : p.Fits s.coordinator f.target completion now) :
    Closes p s.coordinator f completion finishedAt now := by
  obtain ⟨task, htask, hid, htk, htarget, hpermit, hfind⟩ := hs.find_running hf
  obtain ⟨out, hout, hends⟩ := Coordinator.complete_ends p completion finishedAt now hfind
  cases hends with
  | closed candidate c' hsettle hrunning hhistory hpermits hcounter hcandidate =>
    refine ⟨_, c', hout, htk.trans hid.symm, rfl, ?_, hhistory, ?_, ?_⟩
    · intro t ht
      rw [hrunning] at ht
      simpa using (List.mem_filter.1 ht).2
    · rw [hpermits]
      split <;> rfl
    · intro hr
      have hfail := (retryableFailure_finished _ _ _).1 hr
      obtain ⟨retryAfter, h⟩ := p.settle_retry hp hsettle hr (htarget ▸ hfits hfail.1 hfail.2)
      exact ⟨candidate, retryAfter, htarget ▸ hcandidate, h⟩
  | aborted c' hsettle =>
    obtain ⟨hfail, hretry, hnone⟩ := p.settle_eq_none.1 hsettle
    obtain ⟨delay, hdelay, -⟩ := p.retryDelay_of_fits hp (htarget ▸ hfits hfail hretry)
    rw [hnone] at hdelay
    cases hdelay

theorem inRange_of_closes (hp : p.Valid) (hs : s.Sound p) {f : SpawnedTask} {k : Nat} (hf : s.spawned k = some f)
    {completion : TaskCompletion} {finishedAt now : Nat} (hclose : Closes p s.coordinator f completion finishedAt now)
    (hfail : completion.status = .failed) (hretry : isRetryableError completion.errorSummary = true)
    (hstreak : retryableFailures s.coordinator.history f.target < 2 ^ 31) :
    p.backoff (retryableFailures s.coordinator.history f.target) < Duration.limit - 1 / 2 := by
  obtain ⟨task, htask, hid, htk, htarget, hpermit, hfind⟩ := hs.find_running hf
  obtain ⟨out, hout, hends⟩ := Coordinator.complete_ends p completion finishedAt now hfind
  obtain ⟨record, c', hclosed, -⟩ := hclose
  rw [hout] at hclosed
  obtain rfl := Option.some.inj hclosed
  cases hends with
  | closed candidate c' hsettle =>
    by_contra hge
    rw [not_lt, ← p.retryDelay_eq_none hp hstreak, htarget] at hge
    have hnone : p.settle ((s.coordinator.candidates task.requestedTarget).getD .default)
        (task.finished completion finishedAt) (retryableFailures s.coordinator.history task.requestedTarget) now =
        none := p.settle_eq_none.2 ⟨hfail, hretry, hge⟩
    rw [hsettle] at hnone
    cases hnone

/-- **Completion closes its task when the backoff fits.** Under every accepted
configuration, in every reachable state, the completion of a spawned task
closes it whenever it is no retryable failure, or one whose backoff fits.
Conversely, while a streak is an `i32`, a completion that closes a retryable
failure has a backoff in the range of durations. -/
theorem completion_closes {env : Environment} {config : SearchIndexMaintenanceConfig} {startedAt : Nat}
    (hconfig : SearchIndexMaintenanceConfig.fromEnv env = .ok config)
    (hs : Reachable (Policy.withConfig config startedAt) s) {f : SpawnedTask} {k : Nat} (hf : s.spawned k = some f)
    {completion : TaskCompletion} {finishedAt now : Nat} :
    ((Policy.withConfig config startedAt).Fits s.coordinator f.target completion now →
      Closes (Policy.withConfig config startedAt) s.coordinator f completion finishedAt now) ∧
    (Closes (Policy.withConfig config startedAt) s.coordinator f completion finishedAt now →
      completion.status = .failed → isRetryableError completion.errorSummary = true →
      retryableFailures s.coordinator.history f.target < 2 ^ 31 →
      (Policy.withConfig config startedAt).backoff (retryableFailures s.coordinator.history f.target) <
        Duration.limit - 1 / 2) :=
  have hp := Policy.withConfig_valid hconfig startedAt
  ⟨completion_closes_of_fits hp hs.sound hf, inRange_of_closes hp hs.sound hf⟩

/-! ## Failures under the configuration of `dot.env` -/

/-- The environment of `dot.env`, as far as maintenance reads it. -/
def dotEnv : Environment := fun name =>
  match name with
  | "SEARCH_INDEX_MAINTENANCE_CHECK_DEADLINE_SECS" => .value "30"
  | "SEARCH_INDEX_MAINTENANCE_BACKOFF_INITIAL_SECS" => .value "5"
  | "SEARCH_INDEX_MAINTENANCE_BACKOFF_MULTIPLIER" => .value "2"
  | "SEARCH_INDEX_MAINTENANCE_BACKOFF_MAX_SECS" => .value "300"
  | "MEMORY_INDEX_UPDATE_INTERVAL_SECS" => .value "3600"
  | "MEMORY_COMPACTION_INTERVAL_SECS" => .value "86400"
  | "MEMORY_PRUNE_INTERVAL_SECS" => .value "3600"
  | "MEMORY_PRUNE_OLDER_THAN_SECS" => .value "300"
  | "MEMORY_INDEX_UPDATE_UNINDEXED_ROWS" => .value "1000"
  | "THREAD_INDEX_UPDATE_INTERVAL_SECS" => .value "3600"
  | "THREAD_COMPACTION_INTERVAL_SECS" => .value "86400"
  | "THREAD_PRUNE_INTERVAL_SECS" => .value "3600"
  | "THREAD_PRUNE_OLDER_THAN_SECS" => .value "300"
  | "THREAD_INDEX_UPDATE_UNINDEXED_ROWS" => .value "1000"
  | _ => .notPresent

def dotEnvTable : TableMaintenanceConfig :=
  ⟨.fromSecs 3600, .fromSecs 86400, .fromSecs 3600, .fromSecs 300, 1000⟩

def dotEnvConfig : SearchIndexMaintenanceConfig :=
  ⟨dotEnvTable, dotEnvTable, .fromSecs 30, .fromSecs 5, 2, .fromSecs 300, 256⟩

theorem fromEnv_dotEnv : SearchIndexMaintenanceConfig.fromEnv dotEnv = .ok dotEnvConfig := by decide +kernel

def dotEnvPolicy : Policy := .withConfig dotEnvConfig 0

/-- Builds that each fail over a commit conflict, one after the other. -/
def failingBuilds : Nat → List Action
  | 0 => []
  | n + 1 => failingBuilds n ++
    [.start .memoryFts .build false [] 0, .complete (n + 1) (.error "commit conflict") 0 0]

/-- The system where one more build is running after the failed ones. -/
def afterFailingBuilds (n : Nat) : System :=
  Run.execAll (Action.exec dotEnvPolicy) (failingBuilds n ++ [.start .memoryFts .build false [] 0]) .new

theorem reachable_afterFailingBuilds (n : Nat) : Reachable dotEnvPolicy (afterFailingBuilds n) :=
  Run.reaches_execAll (fun _ _ _ => trivial) _

/-- The task of the last build. -/
def lastBuild (n : Nat) : SpawnedTask := ⟨n + 1, .memoryFts, .build, false, [], 0, true⟩

theorem completion_closes_dotEnv : Closes dotEnvPolicy (afterFailingBuilds 3).coordinator (lastBuild 3)
    (.failed "commit conflict") 0 0 :=
  (completion_closes fromEnv_dotEnv (reachable_afterFailingBuilds 3)
    (show (afterFailingBuilds 3).spawned 4 = some (lastBuild 3) by decide +kernel)).1
    fun _ _ => by
      have hstreak : retryableFailures (afterFailingBuilds 3).coordinator.history (lastBuild 3).target = 3 := by
        decide +kernel
      rw [hstreak]
      exact ⟨by decide, by decide +kernel, by decide +kernel⟩

def Completed.isClosed : Completed → Bool
  | .closed .. => true
  | .aborted _ => false

/-- The sixty-third failure in a row loses its task: five seconds, doubled 62 times, are no duration. -/
theorem completion_aborts_dotEnv : ¬ ∀ (env : Environment) (config : SearchIndexMaintenanceConfig) (startedAt : Nat)
    (s : System) (f : SpawnedTask) (k : Nat) (outcome : Outcome) (completion : TaskCompletion) (finishedAt now : Nat),
    SearchIndexMaintenanceConfig.fromEnv env = .ok config → Reachable (Policy.withConfig config startedAt) s →
    s.spawned k = some f → f.completion outcome now = some completion →
    Closes (Policy.withConfig config startedAt) s.coordinator f completion finishedAt now := by
  intro h
  obtain ⟨record, c', hclosed, -⟩ := h dotEnv dotEnvConfig 0 (afterFailingBuilds 62) (lastBuild 62) 63
    (.error "commit conflict") (.failed "commit conflict") 0 0 fromEnv_dotEnv (reachable_afterFailingBuilds 62)
    (by decide +kernel) (by decide +kernel)
  have hopen : ((afterFailingBuilds 62).coordinator.complete dotEnvPolicy (lastBuild 62)
      (.failed "commit conflict") 0 0).any Completed.isClosed = false := by decide +kernel
  rw [dotEnvPolicy, hclosed] at hopen
  cases hopen

end MemoryStore.Maintenance
