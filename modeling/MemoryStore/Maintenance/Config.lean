/-
Maintenance configuration read from the environment
(`infra/src/infra/search_index_maintenance/config.rs`).
-/
import MemoryStore.Lib.Duration
import MemoryStore.Lib.NumberText

namespace MemoryStore.Maintenance

open NumberText

/-- What `std::env::var` finds under a name; `notUnicode` carries the debug text of the value. -/
inductive EnvVar where
  | notPresent
  | notUnicode (debug : String)
  | value (text : String)
  deriving DecidableEq

abbrev Environment := String → EnvVar

structure TableMaintenanceConfig where
  indexUpdateInterval : Duration
  compactionInterval : Duration
  pruneInterval : Duration
  pruneOlderThan : Duration
  indexUpdateUnindexedRows : Nat
  deriving DecidableEq, Repr

structure SearchIndexMaintenanceConfig where
  memory : TableMaintenanceConfig
  thread : TableMaintenanceConfig
  checkDeadline : Duration
  backoffInitial : Duration
  backoffMultiplier : ℚ
  backoffMax : Duration
  taskHistoryLimit : Nat
  deriving DecidableEq, Repr

def legacySuffixes : List String :=
  ["AUTO_OPTIMIZE_INTERVAL", "OPTIMIZE_COMPACT_INTERVAL", "OPTIMIZE_PRUNE_INTERVAL",
    "OPTIMIZE_PRUNE_OLDER_THAN_SECS", "OPTIMIZE_PRUNE_ON_STARTUP"]

def legacyNames : List String :=
  ["MEMORY_", "THREAD_"].flatMap fun pre => legacySuffixes.map fun suffix => pre ++ suffix

def rejectLegacyEnvironment (env : Environment) : Except String Unit :=
  match legacyNames.find? fun name => env name ≠ .notPresent with
  | some name => .error (name ++
      " is no longer supported; configure duration-based search index maintenance instead")
  | none => .ok ()

def required (env : Environment) (name : String) : Except String String :=
  match env name with
  | .value text => if text = "" then .error (name ++ " is required") else .ok text
  | _ => .error (name ++ " is required")

def nonnegativeSeconds (env : Environment) (name : String) : Except String Duration := do
  let seconds ← ((← required env name) |> parseU64).mapError fun e =>
    name ++ " must be a non-negative integer number of seconds: " ++ e
  return .fromSecs seconds

def positiveSeconds (env : Environment) (name : String) : Except String Duration := do
  let duration ← nonnegativeSeconds env name
  if duration = 0 then .error (name ++ " must be greater than zero")
  else return duration

def optionalPositiveUsize (env : Environment) (name : String) (default : Nat) : Except String Nat :=
  match env name with
  | .value text => do
    let value ← (parseU64 text).mapError fun e => name ++ " must be a positive integer: " ++ e
    if value = 0 then .error (name ++ " must be greater than zero")
    else return value
  | .notPresent => .ok default
  | .notUnicode debug => .error ("cannot read " ++ name ++ ": environment variable was not valid unicode: " ++ debug)

/-- `TableMaintenanceConfig::from_env` -/
def TableMaintenanceConfig.fromEnv (env : Environment) (pre : String) : Except String TableMaintenanceConfig := do
  let indexUpdateInterval ← nonnegativeSeconds env (pre ++ "INDEX_UPDATE_INTERVAL_SECS")
  let compactionInterval ← nonnegativeSeconds env (pre ++ "COMPACTION_INTERVAL_SECS")
  let pruneInterval ← nonnegativeSeconds env (pre ++ "PRUNE_INTERVAL_SECS")
  let pruneOlderThan ← nonnegativeSeconds env (pre ++ "PRUNE_OLDER_THAN_SECS")
  let rows ← required env (pre ++ "INDEX_UPDATE_UNINDEXED_ROWS")
  let indexUpdateUnindexedRows ← (parseU64 rows).mapError fun e =>
    pre ++ "INDEX_UPDATE_UNINDEXED_ROWS must be a non-negative integer: " ++ e
  return ⟨indexUpdateInterval, compactionInterval, pruneInterval, pruneOlderThan, indexUpdateUnindexedRows⟩

/-- The check of the multiplier and of the two bounds of the backoff. -/
def checkBackoff (multiplier : F64) (initial max : Duration) : Except String ℚ :=
  match multiplier with
  | .finite value =>
    if value < 1 then .error "SEARCH_INDEX_MAINTENANCE_BACKOFF_MULTIPLIER must be finite and >= 1"
    else if max < initial then .error
      "SEARCH_INDEX_MAINTENANCE_BACKOFF_MAX_SECS must be >= SEARCH_INDEX_MAINTENANCE_BACKOFF_INITIAL_SECS"
    else .ok value
  | _ => .error "SEARCH_INDEX_MAINTENANCE_BACKOFF_MULTIPLIER must be finite and >= 1"

/-- `SearchIndexMaintenanceConfig::from_env` -/
def SearchIndexMaintenanceConfig.fromEnv (env : Environment) : Except String SearchIndexMaintenanceConfig := do
  rejectLegacyEnvironment env
  let memory ← TableMaintenanceConfig.fromEnv env "MEMORY_"
  let thread ← TableMaintenanceConfig.fromEnv env "THREAD_"
  let checkDeadline ← positiveSeconds env "SEARCH_INDEX_MAINTENANCE_CHECK_DEADLINE_SECS"
  let backoffInitial ← positiveSeconds env "SEARCH_INDEX_MAINTENANCE_BACKOFF_INITIAL_SECS"
  let multiplier ← (parseF64 (← required env "SEARCH_INDEX_MAINTENANCE_BACKOFF_MULTIPLIER")).mapError fun e =>
    "SEARCH_INDEX_MAINTENANCE_BACKOFF_MULTIPLIER must be a number: " ++ e
  let backoffMax ← positiveSeconds env "SEARCH_INDEX_MAINTENANCE_BACKOFF_MAX_SECS"
  let taskHistoryLimit ← optionalPositiveUsize env "SEARCH_INDEX_MAINTENANCE_TASK_HISTORY_LIMIT" 256
  let backoffMultiplier ← checkBackoff multiplier backoffInitial backoffMax
  return ⟨memory, thread, checkDeadline, backoffInitial, backoffMultiplier, backoffMax, taskHistoryLimit⟩

/-! ## What an accepted configuration keeps to -/

/-- The bounds the completion of a task relies on. -/
structure SearchIndexMaintenanceConfig.Accepted (config : SearchIndexMaintenanceConfig) : Prop where
  initialPos : 0 < config.backoffInitial
  maxInRange : config.backoffMax < Duration.limit
  initialLeMax : config.backoffInitial ≤ config.backoffMax
  oneLeMultiplier : 1 ≤ config.backoffMultiplier
  historyPos : 0 < config.taskHistoryLimit

theorem bind_ok {ε α β : Type} {x : Except ε α} {f : α → Except ε β} {b : β} :
    (x >>= f) = .ok b ↔ ∃ a, x = .ok a ∧ f a = .ok b := by
  cases x with
  | error e => simp [bind, Except.bind]
  | ok a => simp [bind, Except.bind]

theorem mapError_ok {ε ε' α : Type} {x : Except ε α} {f : ε → ε'} {a : α} : x.mapError f = .ok a ↔ x = .ok a := by
  cases x <;> simp [Except.mapError]

theorem nonnegativeSeconds_ok {env : Environment} {name : String} {d : Duration}
    (h : nonnegativeSeconds env name = .ok d) : d < Duration.limit := by
  simp only [nonnegativeSeconds, bind_ok, mapError_ok] at h
  obtain ⟨text, -, seconds, hparse, hd⟩ := h
  obtain rfl : Duration.fromSecs seconds = d := Except.ok.inj hd
  exact Nat.mul_lt_mul_of_pos_right (parseU64_lt hparse) (by decide)

theorem positiveSeconds_ok {env : Environment} {name : String} {d : Duration}
    (h : positiveSeconds env name = .ok d) : 0 < d ∧ d < Duration.limit := by
  simp only [positiveSeconds, bind_ok] at h
  obtain ⟨d', hnonneg, h⟩ := h
  by_cases hzero : d' = 0
  · rw [if_pos hzero] at h
    cases h
  · rw [if_neg hzero] at h
    obtain rfl : d' = d := Except.ok.inj h
    exact ⟨Nat.pos_of_ne_zero hzero, nonnegativeSeconds_ok hnonneg⟩

theorem optionalPositiveUsize_ok {env : Environment} {name : String} {default n : Nat} (hd : 0 < default)
    (h : optionalPositiveUsize env name default = .ok n) : 0 < n := by
  unfold optionalPositiveUsize at h
  split at h
  · simp only [bind_ok] at h
    obtain ⟨value, -, h⟩ := h
    split at h
    · cases h
    · next hne =>
      obtain rfl : value = n := by simpa [pure, Except.pure] using h
      exact Nat.pos_of_ne_zero hne
  · obtain rfl : default = n := by simpa using h
    exact hd
  · cases h

theorem checkBackoff_ok {multiplier : F64} {initial max : Duration} {value : ℚ}
    (h : checkBackoff multiplier initial max = .ok value) : 1 ≤ value ∧ initial ≤ max := by
  unfold checkBackoff at h
  split at h
  · split at h
    · cases h
    · next hone =>
      split at h
      · cases h
      · next hmax =>
        obtain rfl := Except.ok.inj h
        exact ⟨not_lt.1 hone, not_lt.1 hmax⟩
  · cases h

/-- **What `from_env` accepts is bounded.** -/
theorem fromEnv_accepted {env : Environment} {config : SearchIndexMaintenanceConfig}
    (h : SearchIndexMaintenanceConfig.fromEnv env = .ok config) : config.Accepted := by
  simp only [SearchIndexMaintenanceConfig.fromEnv, bind_ok] at h
  obtain ⟨-, -, memory, -, thread, -, checkDeadline, -, initial, hinitial, text, -, multiplier, -, max, hmax,
    historyLimit, hlimit, value, hvalue, h⟩ := h
  obtain rfl := Except.ok.inj h
  obtain ⟨hone, hle⟩ := checkBackoff_ok hvalue
  exact ⟨(positiveSeconds_ok hinitial).1, (positiveSeconds_ok hmax).2, hle, hone,
    optionalPositiveUsize_ok (by decide) hlimit⟩

end MemoryStore.Maintenance
