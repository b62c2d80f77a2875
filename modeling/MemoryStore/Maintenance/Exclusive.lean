/-
Exclusivity and accounting of the maintenance coordinator: one change at a
time, one public check of a table at a time, and one terminal record for each
task it accepted.

Exclusivity holds in every reachable state. The accounting fails only where a
completion panics over its backoff, which drops its task unrecorded.
-/
import MemoryStore.Maintenance.Backoff

namespace MemoryStore.Maintenance

variable {p : Policy} {s : System}

/-- At most one change runs, at most one public check of each table, and the DDL permit is held
exactly while a change is running. -/
structure Exclusive (s : System) : Prop where
  oneChange : (s.coordinator.running.filter MaintenanceTask.changes).length ≤ 1
  oneCheck : ∀ table, (s.coordinator.running.filter fun t =>
    decide (t.action = .check) && decide (t.physicalTable = table)).length ≤ 1
  permit : s.coordinator.ddlPermits ≤ 1 ∧
    (s.coordinator.ddlPermits = 0 ↔ ∃ t ∈ s.coordinator.running, t.action ≠ .check)

/-- Every accepted id is of one running task or of one terminal record, and the history keeps the
latest records up to its limit. -/
structure Accounts (p : Policy) (s : System) : Prop where
  once : ∀ k, 1 ≤ k → k < s.coordinator.taskCounter →
    (s.coordinator.running.map (·.taskId) ++ s.closed.map (·.taskId)).count k = 1
  history : s.coordinator.history = s.closed.drop (s.closed.length - p.historyLimit)

/-! ## Exclusivity -/

theorem length_le_one_of_pairwise {α : Type} {r : α → α → Prop} {q : α → Bool} (hq : ∀ a b, q a = true → q b = true → r a b) :
    ∀ {l : List α}, l.Pairwise (fun a b => ¬ r a b) → (l.filter q).length ≤ 1 := by
  intro l h
  have hf := h.filter q
  match hl : l.filter q with
  | [] => simp
  | [_] => simp
  | a :: b :: rest =>
    rw [hl, List.pairwise_cons] at hf
    have ha : a ∈ l.filter q := by rw [hl]; exact List.mem_cons_self
    have hb : b ∈ l.filter q := by rw [hl]; exact List.mem_cons_of_mem _ List.mem_cons_self
    exact absurd (hq a b (List.mem_filter.1 ha).2 (List.mem_filter.1 hb).2) (hf.1 b List.mem_cons_self)

theorem System.Sound.exclusive (h : s.Sound p) : Exclusive s where
  oneChange := by
    rw [← List.countP_eq_length_filter]
    have := h.permits
    omega
  oneCheck table := by
    refine length_le_one_of_pairwise (fun t t' ht ht' => ?_) h.checks
    simp only [Bool.and_eq_true, decide_eq_true_eq] at ht ht'
    exact ⟨ht.1, ht'.1, ht.2.trans ht'.2.symm⟩
  permit := by
    have hp := h.permits
    refine ⟨by omega, ?_⟩
    have hpos : 0 < s.coordinator.running.countP MaintenanceTask.changes ↔
        ∃ t ∈ s.coordinator.running, t.action ≠ .check := by
      simp [List.countP_pos_iff, MaintenanceTask.changes]
    rw [← hpos]
    constructor <;> intro <;> omega

/-! ## Accounting -/

/-- The completion is no retryable failure, or its streak is an `i32` and its backoff a duration. -/
def Action.BackoffInRange (p : Policy) (s : System) : Action → Prop
  | .complete taskId outcome _ now => ∀ f completion, s.spawned taskId = some f →
      f.completion outcome now = some completion → completion.status = .failed →
      isRetryableError completion.errorSummary = true →
      retryableFailures s.coordinator.history f.target < 2 ^ 31 ∧
        p.backoff (retryableFailures s.coordinator.history f.target) < Duration.limit - 1 / 2
  | _ => True

/-- **A completion in range records its task.** -/
theorem System.Accounted.finish (hp : p.Valid) (hs : s.Sound p) (h : s.Accounted) {f : SpawnedTask} {k : Nat}
    (hf : s.spawned k = some f) {completion : TaskCompletion} (finishedAt now : Nat)
    (hrange : completion.status = .failed → isRetryableError completion.errorSummary = true →
      retryableFailures s.coordinator.history f.target < 2 ^ 31 ∧
        p.backoff (retryableFailures s.coordinator.history f.target) < Duration.limit - 1 / 2) :
    (s.finish p f completion finishedAt now).Accounted := by
  obtain ⟨task, htask, hid, htk, htarget, -, hfind⟩ := hs.find_running hf
  obtain ⟨out, hout, hends⟩ := Coordinator.complete_ends p completion finishedAt now hfind
  unfold System.finish
  simp only [hout]
  cases hends with
  | closed candidate c' hsettle hrunning hhistory hpermits hcounter =>
    intro id h₁ h₂
    simp only [hcounter] at h₂
    simp only [hrunning, List.map_append, List.mem_append]
    rcases List.mem_append.1 (h id h₁ h₂) with hmem | hmem
    · obtain ⟨t, ht, rfl⟩ := List.mem_map.1 hmem
      by_cases hne : t.taskId = f.taskId
      · refine .inr (.inr ?_)
        rw [List.map_singleton, List.mem_singleton]
        exact hne.trans (hid.trans htk.symm)
      · exact .inl (List.mem_map_of_mem (List.mem_filter.2 ⟨ht, by simpa using hne⟩))
    · exact .inr (.inl hmem)
  | aborted c' hsettle =>
    obtain ⟨hfail, hretry, hnone⟩ := p.settle_eq_none.1 hsettle
    obtain ⟨hstreak, hlt⟩ := hrange hfail hretry
    rw [htarget] at hstreak hlt
    exact absurd ((p.retryDelay_eq_none hp hstreak).1 hnone) (not_le.2 hlt)

theorem Action.exec_accounted (hp : p.Valid) (hs : s.Sound p) (h : s.Accounted) {a : Action}
    (ha : a.BackoffInRange p s) : (a.exec p s).Accounted := by
  cases a with
  | start target action force optimizeActions now =>
    simp only [Action.exec]
    split
    · exact h
    · next task f c' hstart => exact h.start (Coordinator.start_ok hstart) rfl
  | complete taskId outcome finishedAt now =>
    simp only [Action.exec]
    split
    · exact h
    · next f hf =>
      split
      · exact h
      · next completion hc => exact h.finish hp hs hf _ _ (ha f completion hf hc)
  | request round =>
    simp only [Action.exec]
    split
    · exact h
    · exact h.congr ⟨rfl, rfl, rfl, rfl, rfl⟩ rfl
  | advance round inputs =>
    simp only [Action.exec]
    split
    · exact h
    · next r hr =>
      rcases r.step_tasks p inputs s.coordinator with ⟨hsame, -⟩ | ⟨task, f, hstarts, -⟩
      · exact h.congr hsame rfl
      · exact h.start hstarts rfl
  | cut round => exact h.congr ⟨rfl, rfl, rfl, rfl, rfl⟩ rfl

theorem System.Accounted.accounts (hs : s.Sound p) (h : s.Accounted) : Accounts p s where
  once k h₁ h₂ := List.count_eq_one_of_mem hs.ids (h k h₁ h₂)
  history := hs.history

/-- **Exclusivity and accounting.** In every state reached by public starts,
reconcile rounds and completions in any order, cut rounds included, the tasks
are exclusive; and as long as no completion's backoff leaves the range of
durations, every accepted task is accounted for. -/
theorem maintenance_accounting {env : Environment} {config : SearchIndexMaintenanceConfig} {startedAt : Nat}
    (hconfig : SearchIndexMaintenanceConfig.fromEnv env = .ok config)
    (h : Run.Reaches (Action.exec (Policy.withConfig config startedAt))
      (Action.BackoffInRange (Policy.withConfig config startedAt)) System.new s) :
    Exclusive s ∧ Accounts (Policy.withConfig config startedAt) s := by
  have hp := Policy.withConfig_valid hconfig startedAt
  have hinv : s.Sound (Policy.withConfig config startedAt) ∧ s.Accounted :=
    Run.Reaches.invariant (I := fun s => s.Sound (Policy.withConfig config startedAt) ∧ s.Accounted)
      (fun _ a ⟨hs, ha⟩ hr => ⟨Action.exec_sound hs a, Action.exec_accounted hp hs ha hr⟩) h ⟨.new _, .new⟩
  exact ⟨hinv.1.exclusive, hinv.2.accounts hinv.1⟩

/-- A build that succeeds while a check of its table runs. -/
def buildBesideCheck : List Action :=
  [.start .memoryFts .build false [] 0, .start .memoryTable .check false [] 0,
    .complete 1 (.returned ⟨.succeeded, "", [], [], []⟩) 0 0]

theorem maintenance_accounting_buildBesideCheck :
    Exclusive (Run.execAll (Action.exec dotEnvPolicy) buildBesideCheck .new) ∧
      Accounts dotEnvPolicy (Run.execAll (Action.exec dotEnvPolicy) buildBesideCheck .new) :=
  maintenance_accounting fromEnv_dotEnv (Run.reaches_execAll (by
    intro a ha s
    simp only [buildBesideCheck, List.mem_cons, List.not_mem_nil, or_false] at ha
    rcases ha with rfl | rfl | rfl
    · trivial
    · trivial
    · intro f completion _ hc hfail
      obtain rfl := Option.some.inj hc
      cases hfail) _)

/-- The task of the sixty-third failure in a row is neither running nor recorded. -/
theorem task_lost_dotEnv : ¬ ∀ (env : Environment) (config : SearchIndexMaintenanceConfig) (startedAt : Nat)
    (s : System), SearchIndexMaintenanceConfig.fromEnv env = .ok config →
    Reachable (Policy.withConfig config startedAt) s →
    Exclusive s ∧ Accounts (Policy.withConfig config startedAt) s := by
  intro h
  have hr : Reachable dotEnvPolicy (Run.execAll (Action.exec dotEnvPolicy) (failingBuilds 63) .new) :=
    Run.reaches_execAll (fun _ _ _ => trivial) _
  have hlost := (h dotEnv dotEnvConfig 0 _ fromEnv_dotEnv hr).2.once 63 (by decide) (by decide +kernel)
  have hcount : ((Run.execAll (Action.exec dotEnvPolicy) (failingBuilds 63) .new).coordinator.running.map
      (·.taskId) ++ (Run.execAll (Action.exec dotEnvPolicy) (failingBuilds 63) .new).closed.map (·.taskId)).count 63 =
      0 := by decide +kernel
  rw [hcount] at hlost
  cases hlost

end MemoryStore.Maintenance
