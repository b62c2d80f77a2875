/-
The maintenance system: the coordinator, the tasks it spawned, and the
reconcile rounds in flight, stepping in any order.

`closed` is not in the source: it keeps every terminal record ever appended to
the history, so that the accounting can speak of records already evicted.
-/
import MemoryStore.Lib.Run
import MemoryStore.Lib.Table
import MemoryStore.Maintenance.Reconcile

namespace MemoryStore.Maintenance

structure System where
  coordinator : Coordinator
  /-- By task id. -/
  spawned : Nat → Option SpawnedTask
  /-- By the order they were requested in. -/
  rounds : Nat → Option Round
  closed : List MaintenanceTask

def System.new : System := ⟨.new, fun _ => none, fun _ => none, []⟩

inductive Action where
  /-- A public `start`. -/
  | start (target : MaintenanceTarget) (action : MaintenanceAction) (force : Bool)
      (optimizeActions : List OptimizeAction) (now : Nat)
  /-- A spawned task ends. -/
  | complete (taskId : Nat) (outcome : Outcome) (finishedAt now : Nat)
  /-- The periodic loop or an RPC calls `reconcile_once`. -/
  | request (round : Nat)
  /-- A round runs to its next await. -/
  | advance (round : Nat) (inputs : RoundInputs)
  /-- The future of a round is dropped at the await it is suspended at, or unwound by a panic of the executor there. -/
  | cut (round : Nat)

def clearEntry {β : Type} (m : Nat → Option β) (key : Nat) : Nat → Option β :=
  fun k => if k = key then none else m k

/-- A task joins the spawned ones. -/
def addSpawned (spawned : Nat → Option SpawnedTask) : Option SpawnedTask → Nat → Option SpawnedTask
  | some f => setEntry spawned f.taskId f
  | none => spawned

/-- Completion of a spawned task. -/
def System.finish (p : Policy) (s : System) (f : SpawnedTask) (completion : TaskCompletion) (finishedAt now : Nat) :
    System :=
  let spawned := clearEntry s.spawned f.taskId
  match s.coordinator.complete p f completion finishedAt now with
  | none => { s with coordinator := s.coordinator.release f, spawned := spawned }
  | some (.aborted c) => { s with coordinator := c, spawned := spawned }
  | some (.closed record c) => { s with coordinator := c, spawned := spawned, closed := s.closed ++ [record] }

/-- A step of a round. -/
def System.advance (p : Policy) (s : System) (round : Nat) (r : Round) (inputs : RoundInputs) : System :=
  let (c, advance, spawned) := r.step p inputs s.coordinator
  { s with
    coordinator := c
    spawned := addSpawned s.spawned spawned
    rounds := match advance with
      | .awaiting r => setEntry s.rounds round r
      | .returned _ => clearEntry s.rounds round }

def Action.exec (p : Policy) (a : Action) (s : System) : System :=
  match a with
  | .start target action force optimizeActions now =>
    match s.coordinator.start p target action force optimizeActions now with
    | .error _ => s
    | .ok (_, f, c) => { s with coordinator := c, spawned := setEntry s.spawned f.taskId f }
  | .complete taskId outcome finishedAt now =>
    match s.spawned taskId with
    | none => s
    | some f =>
      match f.completion outcome now with
      | none => s
      | some completion => s.finish p f completion finishedAt now
  | .request round => if (s.rounds round).isSome then s else { s with rounds := setEntry s.rounds round .waiting }
  | .advance round inputs =>
    match s.rounds round with
    | none => s
    | some r => s.advance p round r inputs
  | .cut round => { s with rounds := clearEntry s.rounds round }

/-- The states of the maintenance system: any steps, in any order. -/
def Reachable (p : Policy) (s : System) : Prop := Run.Reaches (Action.exec p) Run.anyAction System.new s

end MemoryStore.Maintenance

/-!
The tasks of the maintenance system: what is running, who holds the permit,
and which terminal records there are.

A start is admitted and a task completed under one lock, so every invariant
here is one fact about an admission, one about a completion and none about the
rest: the other steps of a round touch no task.
-/

namespace MemoryStore.Maintenance

variable {p : Policy} {c c' : Coordinator} {s : System}

/-! ## What the steps do -/

@[simp] theorem setEntry_self {α β : Type} [DecidableEq α] (m : α → Option β) (key : α) (value : β) :
    setEntry m key value key = some value := by simp [setEntry]

theorem setEntry_of_ne {α β : Type} [DecidableEq α] (m : α → Option β) {key k : α} (h : k ≠ key) (value : β) :
    setEntry m key value k = m k := by simp [setEntry, h]

@[simp] theorem clearEntry_self {β : Type} (m : Nat → Option β) (key : Nat) : clearEntry m key key = none := by
  simp [clearEntry]

theorem clearEntry_of_ne {β : Type} (m : Nat → Option β) {key k : Nat} (h : k ≠ key) :
    clearEntry m key k = m k := by simp [clearEntry, h]

/-- An admitted task: its id is new, no running task blocks it, and a change took the permit. -/
structure Starts (p : Policy) (c : Coordinator) (task : MaintenanceTask) (f : SpawnedTask) (c' : Coordinator) : Prop where
  id : task.taskId = c.taskCounter
  physical : task.physicalTable = task.requestedTarget.physicalTable
  spawnedId : f.taskId = c.taskCounter
  spawnedTarget : f.target = task.requestedTarget
  permit : f.ddlPermit = decide (task.action ≠ .check)
  free : task.action ≠ .check → c.ddlPermits ≠ 0
  unblocked : ∀ t ∈ c.running, t.blocks task.physicalTable task.action = false
  result : c' = { c with
    running := c.running ++ [task]
    ddlPermits := if f.ddlPermit then c.ddlPermits - 1 else c.ddlPermits
    taskCounter := c.taskCounter + 1 }

theorem Coordinator.start_ok {target : MaintenanceTarget} {action : MaintenanceAction} {force : Bool}
    {optimizeActions : List OptimizeAction} {now : Nat} {task : MaintenanceTask} {f : SpawnedTask}
    (h : c.start p target action force optimizeActions now = .ok (task, f, c')) : Starts p c task f c' := by
  unfold Coordinator.start at h
  split at h
  · cases h
  · simp only at h
    split at h
    · cases h
    · next hblocked =>
      split at h
      · cases h
      · next hpermit =>
        obtain ⟨rfl, rfl, rfl⟩ : _ ∧ _ ∧ _ := by simpa only [Except.ok.injEq, Prod.mk.injEq] using h
        refine ⟨rfl, rfl, rfl, rfl, rfl, fun ha h₀ => hpermit ⟨ha, h₀⟩, fun t ht => ?_, rfl⟩
        by_contra hb
        simp only [ne_eq, not_not, List.filter_eq_nil_iff] at hblocked
        exact hblocked t ht (by simpa [acceptedTask] using hb)

/-- The two coordinators agree on everything about tasks. -/
structure SameTasks (c c' : Coordinator) : Prop where
  running : c'.running = c.running
  history : c'.history = c.history
  candidates : c'.candidates = c.candidates
  ddlPermits : c'.ddlPermits = c.ddlPermits
  taskCounter : c'.taskCounter = c.taskCounter

/-- A step of a round starts a task or touches none. -/
theorem Round.step_tasks (p : Policy) (i : RoundInputs) (c : Coordinator) (r : Round) :
    (SameTasks c (r.step p i c).1 ∧ (r.step p i c).2.2 = none) ∨
      ∃ task f, Starts p c task f (r.step p i c).1 ∧ (r.step p i c).2.2 = some f := by
  cases r with
  | starting scan action force actions =>
    simp only [Round.step]
    cases h : c.start p scan.target action force actions i.now with
    | ok out =>
      obtain ⟨task, f, c'⟩ := out
      exact .inr ⟨task, f, Coordinator.start_ok h, rfl⟩
    | error e => cases e <;> exact .inl ⟨⟨rfl, rfl, rfl, rfl, rfl⟩, rfl⟩
  | waiting =>
    simp only [Round.step]
    split <;> exact .inl ⟨⟨rfl, rfl, rfl, rfl, rfl⟩, rfl⟩
  | dueActions => exact .inl ⟨⟨rfl, rfl, rfl, rfl, rfl⟩, rfl⟩
  | skipReason scan actions =>
    simp only [Round.step]
    split
    · exact .inl ⟨⟨rfl, rfl, rfl, rfl, rfl⟩, rfl⟩
    · split
      · split <;> exact .inl ⟨⟨rfl, rfl, rfl, rfl, rfl⟩, rfl⟩
      · exact .inl ⟨⟨rfl, rfl, rfl, rfl, rfl⟩, rfl⟩
  | checkEntry scan actions =>
    simp only [Round.step]
    split <;> exact .inl ⟨⟨rfl, rfl, rfl, rfl, rfl⟩, rfl⟩
  | checking scan actions =>
    simp only [Round.step]
    split <;> exact .inl ⟨⟨rfl, rfl, rfl, rfl, rfl⟩, rfl⟩
  | forceBuild scan completion =>
    simp only [Round.step]
    split
    · exact .inl ⟨⟨rfl, rfl, rfl, rfl, rfl⟩, rfl⟩
    · split <;> exact .inl ⟨⟨rfl, rfl, rfl, rfl, rfl⟩, rfl⟩
  | eligibility scan force =>
    simp only [Round.step]
    split <;> exact .inl ⟨⟨rfl, rfl, rfl, rfl, rfl⟩, rfl⟩
  | finishing => exact .inl ⟨⟨rfl, rfl, rfl, rfl, rfl⟩, rfl⟩

/-- The ends of a running task: closed with its record, or lost to a panic. -/
inductive Ends (p : Policy) (c : Coordinator) (f : SpawnedTask) (completion : TaskCompletion) (finishedAt now : Nat)
    (task : MaintenanceTask) : Completed → Prop where
  | closed (candidate : CandidateState) (c' : Coordinator)
      (hsettle : p.settle ((c.candidates task.requestedTarget).getD .default) (task.finished completion finishedAt)
        (retryableFailures c.history task.requestedTarget) now = some candidate)
      (hrunning : c'.running = c.running.filter fun t => t.taskId ≠ f.taskId)
      (hhistory : c'.history = trim p.historyLimit (c.history ++ [task.finished completion finishedAt]))
      (hpermits : c'.ddlPermits = if f.ddlPermit then c.ddlPermits + 1 else c.ddlPermits)
      (hcounter : c'.taskCounter = c.taskCounter)
      (hcandidate : c'.candidates task.requestedTarget = some candidate)
      (hflag : c'.reconcileRunning = c.reconcileRunning) (hchecks : c'.internalChecks = c.internalChecks) :
      Ends p c f completion finishedAt now task (.closed (task.finished completion finishedAt) c')
  | aborted (c' : Coordinator)
      (hsettle : p.settle ((c.candidates task.requestedTarget).getD .default) (task.finished completion finishedAt)
        (retryableFailures c.history task.requestedTarget) now = none)
      (hrunning : c'.running = c.running.filter fun t => t.taskId ≠ f.taskId)
      (hhistory : c'.history = c.history)
      (hpermits : c'.ddlPermits = if f.ddlPermit then c.ddlPermits + 1 else c.ddlPermits)
      (hcounter : c'.taskCounter = c.taskCounter)
      (hflag : c'.reconcileRunning = c.reconcileRunning) (hchecks : c'.internalChecks = c.internalChecks) :
      Ends p c f completion finishedAt now task (.aborted c')

theorem Coordinator.complete_ends (p : Policy) {f : SpawnedTask} (completion : TaskCompletion) (finishedAt now : Nat)
    {task : MaintenanceTask} (h : (c.running.find? fun t => t.taskId = f.taskId) = some task) :
    ∃ out, c.complete p f completion finishedAt now = some out ∧ Ends p c f completion finishedAt now task out := by
  unfold Coordinator.complete
  rw [h, Option.map_some]
  refine ⟨_, rfl, ?_⟩
  simp only
  split
  · next hsettle => exact .aborted _ hsettle rfl rfl rfl rfl rfl rfl
  · next candidate hsettle =>
    exact .closed candidate _ hsettle rfl rfl rfl rfl (setEntry_self _ _ _) rfl rfl

/-! ## The invariant -/

/-- The running task is a change of some table, under the permit. -/
def MaintenanceTask.changes (task : MaintenanceTask) : Bool := decide (task.action ≠ .check)

/-- Two public checks of one table. -/
def MaintenanceTask.SameCheck (t t' : MaintenanceTask) : Prop :=
  t.action = .check ∧ t'.action = .check ∧ t.physicalTable = t'.physicalTable

/-- What holds of the tasks in every reachable state. -/
structure System.Sound (p : Policy) (s : System) : Prop where
  ids : (s.coordinator.running.map (·.taskId) ++ s.closed.map (·.taskId)).Nodup
  accepted : ∀ k ∈ s.coordinator.running.map (·.taskId) ++ s.closed.map (·.taskId),
    1 ≤ k ∧ k < s.coordinator.taskCounter
  counter : 1 ≤ s.coordinator.taskCounter
  spawned : ∀ k f, s.spawned k = some f → f.taskId = k ∧
    ∃ t ∈ s.coordinator.running, t.taskId = k ∧ f.target = t.requestedTarget ∧ f.ddlPermit = t.changes
  attended : ∀ t ∈ s.coordinator.running, (s.spawned t.taskId).isSome = true
  permits : s.coordinator.ddlPermits + s.coordinator.running.countP MaintenanceTask.changes = 1
  physical : ∀ t ∈ s.coordinator.running, t.physicalTable = t.requestedTarget.physicalTable
  checks : s.coordinator.running.Pairwise fun t t' => ¬ t.SameCheck t'
  history : s.coordinator.history = trim p.historyLimit s.closed

/-- Every accepted task is running or closed. -/
def System.Accounted (s : System) : Prop :=
  ∀ k, 1 ≤ k → k < s.coordinator.taskCounter →
    k ∈ s.coordinator.running.map (·.taskId) ++ s.closed.map (·.taskId)

theorem System.Sound.new (p : Policy) : System.new.Sound p where
  ids := List.nodup_nil
  accepted := by simp [System.new, Coordinator.new]
  counter := le_rfl
  spawned := by simp [System.new]
  attended := by simp [System.new, Coordinator.new]
  permits := rfl
  physical := by simp [System.new, Coordinator.new]
  checks := .nil
  history := by simp [System.new, Coordinator.new, trim]

theorem System.Accounted.new : System.new.Accounted := by
  intro k h₁ h₂
  simp only [System.new, Coordinator.new] at h₂
  omega

/-- The invariant does not look at the rounds. -/
theorem System.Sound.congr {s' : System} (h : s.Sound p) (hc : SameTasks s.coordinator s'.coordinator)
    (hspawned : s'.spawned = s.spawned) (hclosed : s'.closed = s.closed) : s'.Sound p where
  ids := by rw [hc.running, hclosed]; exact h.ids
  accepted := by rw [hc.running, hclosed, hc.taskCounter]; exact h.accepted
  counter := by rw [hc.taskCounter]; exact h.counter
  spawned := by rw [hspawned, hc.running]; exact h.spawned
  attended := by rw [hspawned, hc.running]; exact h.attended
  permits := by rw [hc.ddlPermits, hc.running]; exact h.permits
  physical := by rw [hc.running]; exact h.physical
  checks := by rw [hc.running]; exact h.checks
  history := by rw [hc.history, hclosed]; exact h.history

theorem System.Accounted.congr {s' : System} (h : s.Accounted) (hc : SameTasks s.coordinator s'.coordinator)
    (hclosed : s'.closed = s.closed) : s'.Accounted := by
  intro k
  rw [hc.taskCounter, hc.running, hclosed]
  exact h k

/-! ## Admission -/

theorem not_sameCheck {t task : MaintenanceTask} (h : t.blocks task.physicalTable task.action = false) :
    ¬ t.SameCheck task := by
  rintro ⟨ht, htask, hp⟩
  simp [MaintenanceTask.blocks, ht, htask, hp] at h

/-- **Admission keeps the tasks apart.** -/
theorem System.Sound.start {s' : System} {task : MaintenanceTask} {f : SpawnedTask} (h : s.Sound p)
    (hs : Starts p s.coordinator task f s'.coordinator) (hspawned : s'.spawned = setEntry s.spawned f.taskId f)
    (hclosed : s'.closed = s.closed) : s'.Sound p := by
  have hrunning : s'.coordinator.running = s.coordinator.running ++ [task] := by rw [hs.result]
  have hcounter : s'.coordinator.taskCounter = s.coordinator.taskCounter + 1 := by rw [hs.result]
  have hpermits : s'.coordinator.ddlPermits =
      if f.ddlPermit then s.coordinator.ddlPermits - 1 else s.coordinator.ddlPermits := by rw [hs.result]
  have hhistory : s'.coordinator.history = s.coordinator.history := by rw [hs.result]
  have hpositive : 1 ≤ s.coordinator.taskCounter := h.counter
  have hnew : ∀ t ∈ s.coordinator.running, t.taskId ≠ s.coordinator.taskCounter := by
    intro t ht
    have := (h.accepted t.taskId (List.mem_append_left _ (List.mem_map_of_mem ht))).2
    omega
  have hids : (s'.coordinator.running.map (·.taskId) ++ s'.closed.map (·.taskId)).Perm
      (s.coordinator.taskCounter :: (s.coordinator.running.map (·.taskId) ++ s.closed.map (·.taskId))) := by
    rw [hrunning, hclosed, List.map_append, List.append_assoc, List.map_singleton, hs.id]
    exact List.perm_middle
  constructor
  · rw [hids.nodup_iff, List.nodup_cons]
    refine ⟨fun hmem => ?_, h.ids⟩
    have := (h.accepted _ hmem).2
    omega
  · intro k hk
    rw [hcounter]
    rcases List.mem_cons.1 (hids.mem_iff.1 hk) with rfl | hk
    · omega
    · have := h.accepted k hk
      omega
  · rw [hcounter]
    omega
  · intro k g hk
    rw [hspawned] at hk
    rw [hrunning]
    by_cases hkf : k = f.taskId
    · rw [hkf, setEntry_self] at hk
      obtain rfl := Option.some.inj hk
      exact ⟨hkf.symm, task, by simp, by rw [hkf, hs.id, hs.spawnedId], hs.spawnedTarget, hs.permit⟩
    · rw [setEntry_of_ne _ hkf] at hk
      obtain ⟨hid, t, ht, hrest⟩ := h.spawned k g hk
      exact ⟨hid, t, List.mem_append_left _ ht, hrest⟩
  · intro t ht
    rw [hspawned]
    rw [hrunning] at ht
    rcases List.mem_append.1 ht with ht | ht
    · rw [setEntry_of_ne _ (hs.spawnedId ▸ hnew t ht)]
      exact h.attended t ht
    · obtain rfl := List.mem_singleton.1 ht
      rw [hs.id, ← hs.spawnedId, setEntry_self]
      rfl
  · rw [hrunning, hpermits, List.countP_append, List.countP_singleton, hs.permit]
    have hperm := h.permits
    have hfree := hs.free
    by_cases ha : task.action = .check
    · have hc : task.changes = false := by simp [MaintenanceTask.changes, ha]
      simpa [hc, ha] using hperm
    · have hc : task.changes = true := by simp [MaintenanceTask.changes, ha]
      have hpos := hfree ha
      simp only [hc, ha, ne_eq, not_false_eq_true, decide_true, if_true]
      omega
  · intro t ht
    rw [hrunning] at ht
    rcases List.mem_append.1 ht with ht | ht
    · exact h.physical t ht
    · obtain rfl := List.mem_singleton.1 ht
      exact hs.physical
  · rw [hrunning, List.pairwise_append]
    refine ⟨h.checks, List.pairwise_singleton _ _, fun t ht t' ht' => ?_⟩
    obtain rfl := List.mem_singleton.1 ht'
    exact not_sameCheck (hs.unblocked t ht)
  · rw [hhistory, hclosed]
    exact h.history

theorem System.Accounted.start {s' : System} {task : MaintenanceTask} {f : SpawnedTask} (h : s.Accounted)
    (hs : Starts p s.coordinator task f s'.coordinator) (hclosed : s'.closed = s.closed) : s'.Accounted := by
  intro k h₁ h₂
  rw [hs.result] at h₂ ⊢
  rw [hclosed]
  simp only [List.map_append, List.mem_append, List.map_singleton, List.mem_singleton] at h₂ ⊢
  by_cases hk : k = s.coordinator.taskCounter
  · exact .inl (.inr (hk.trans hs.id.symm))
  · rcases List.mem_append.1 (h k h₁ (by omega)) with hk | hk
    · exact .inl (.inl hk)
    · exact .inr hk

/-! ## Completion -/

theorem System.Sound.find_running {f : SpawnedTask} {k : Nat} (h : s.Sound p) (hf : s.spawned k = some f) :
    ∃ task ∈ s.coordinator.running, f.taskId = k ∧ task.taskId = k ∧ f.target = task.requestedTarget ∧
      f.ddlPermit = task.changes ∧ (s.coordinator.running.find? fun t => t.taskId = f.taskId) = some task := by
  obtain ⟨hid, task, htask, htk, htarget, hpermit⟩ := h.spawned k f hf
  refine ⟨task, htask, hid, htk, htarget, hpermit, ?_⟩
  have hnd : (s.coordinator.running.map (·.taskId)).Nodup := (List.nodup_append.1 h.ids).1
  rw [Table.find?_eq_some_of_nodup hnd]
  exact ⟨htask, htk.trans hid.symm⟩

theorem trim_append (limit : Nat) (closed : List MaintenanceTask) (record : MaintenanceTask) :
    trim limit (trim limit closed ++ [record]) = trim limit (closed ++ [record]) := by
  unfold trim
  rw [← List.drop_append_of_le_length (by omega), List.drop_drop]
  congr 1
  simp only [List.length_append, List.length_drop, List.length_singleton]
  omega

/-- Removing the one running task with this id. -/
theorem perm_filter_ne {task : MaintenanceTask} : ∀ {tasks : List MaintenanceTask}, (tasks.map (·.taskId)).Nodup →
    task ∈ tasks → tasks.Perm (task :: tasks.filter fun t => t.taskId ≠ task.taskId)
  | [], _, h => by simp at h
  | t :: tasks, hnd, h => by
    rw [List.map_cons, List.nodup_cons] at hnd
    by_cases ht : t.taskId = task.taskId
    · have hkeep : (tasks.filter fun t => t.taskId ≠ task.taskId) = tasks := by
        rw [List.filter_eq_self]
        intro t' ht'
        have : t'.taskId ≠ task.taskId := fun he => hnd.1 (List.mem_map.2 ⟨t', ht', he.trans ht.symm⟩)
        simpa using this
      rcases List.mem_cons.1 h with rfl | h
      · rw [List.filter_cons_of_neg (by simp), hkeep]
      · exact absurd (List.mem_map.2 ⟨task, h, ht.symm⟩) hnd.1
    · have htask : task ∈ tasks := by
        rcases List.mem_cons.1 h with rfl | h
        · exact absurd rfl ht
        · exact h
      rw [List.filter_cons_of_pos (by simpa using ht)]
      exact (List.Perm.cons t (perm_filter_ne hnd.2 htask)).trans (List.Perm.swap task t _)

/-- The running tasks and the permits after one of them has left. -/
structure Leaves (c : Coordinator) (f : SpawnedTask) (c' : Coordinator) : Prop where
  running : c'.running = c.running.filter fun t => t.taskId ≠ f.taskId
  permits : c'.ddlPermits = if f.ddlPermit then c.ddlPermits + 1 else c.ddlPermits
  counter : c'.taskCounter = c.taskCounter

/-- What is left of the invariant when a task leaves, whatever is recorded of it. -/
theorem System.Sound.leave {s' : System} {f : SpawnedTask} {k : Nat} (h : s.Sound p) (hf : s.spawned k = some f)
    (hl : Leaves s.coordinator f s'.coordinator) (hspawned : s'.spawned = clearEntry s.spawned f.taskId)
    (hids : ∀ id ∈ s'.closed.map (·.taskId), id ∈ s.closed.map (·.taskId) ∨ id = k)
    (hnd : (s'.closed.map (·.taskId)).Nodup) (hhistory : s'.coordinator.history = trim p.historyLimit s'.closed) :
    s'.Sound p := by
  obtain ⟨task, htask, hid, htk, htarget, hpermit, hfind⟩ := h.find_running hf
  have hids' := List.nodup_append.1 h.ids
  have hperm : s.coordinator.running.Perm (task :: s'.coordinator.running) := by
    rw [hl.running, hid, ← htk]
    exact perm_filter_ne hids'.1 htask
  have hsub : ∀ t ∈ s'.coordinator.running, t ∈ s.coordinator.running ∧ t.taskId ≠ k := by
    intro t ht
    rw [hl.running, hid, List.mem_filter] at ht
    exact ⟨ht.1, by simpa using ht.2⟩
  constructor
  · rw [List.nodup_append]
    refine ⟨?_, hnd, fun a ha b hb => ?_⟩
    · rw [hl.running]
      exact hids'.1.sublist (List.filter_sublist.map _)
    · obtain ⟨t, ht, rfl⟩ := List.mem_map.1 ha
      rcases hids b hb with hb | rfl
      · exact hids'.2.2 _ (List.mem_map_of_mem (hsub t ht).1) _ hb
      · exact (hsub t ht).2
  · intro id hmem
    rw [hl.counter]
    rcases List.mem_append.1 hmem with hmem | hmem
    · obtain ⟨t, ht, rfl⟩ := List.mem_map.1 hmem
      exact h.accepted _ (List.mem_append_left _ (List.mem_map_of_mem (hsub t ht).1))
    · rcases hids id hmem with hmem | rfl
      · exact h.accepted _ (List.mem_append_right _ hmem)
      · exact htk ▸ h.accepted _ (List.mem_append_left _ (List.mem_map_of_mem htask))
  · rw [hl.counter]
    exact h.counter
  · intro k' g hg
    rw [hspawned, hid] at hg
    by_cases hk : k' = k
    · rw [hk, clearEntry_self] at hg
      cases hg
    · rw [clearEntry_of_ne _ hk] at hg
      obtain ⟨hgid, t, ht, htid, hrest⟩ := h.spawned k' g hg
      refine ⟨hgid, t, ?_, htid, hrest⟩
      rw [hl.running, List.mem_filter, hid]
      exact ⟨ht, by simpa [htid] using hk⟩
  · intro t ht
    rw [hspawned, hid, clearEntry_of_ne _ (hsub t ht).2]
    exact h.attended t (hsub t ht).1
  · have hp := h.permits
    rw [hperm.countP_eq, List.countP_cons] at hp
    rw [hl.permits, hpermit]
    cases hc : task.changes with
    | true =>
      simp only [hc, if_true] at hp ⊢
      omega
    | false =>
      simp only [hc, Bool.false_eq_true, if_false] at hp ⊢
      omega
  · intro t ht
    exact h.physical t (hsub t ht).1
  · rw [hl.running]
    exact h.checks.filter _
  · exact hhistory

/-- **Completion removes one task**, and records it unless it aborts. -/
theorem System.Sound.finish {f : SpawnedTask} {k : Nat} (h : s.Sound p) (hf : s.spawned k = some f)
    (completion : TaskCompletion) (finishedAt now : Nat) : (s.finish p f completion finishedAt now).Sound p := by
  obtain ⟨task, htask, hid, htk, htarget, hpermit, hfind⟩ := h.find_running hf
  have hids' := List.nodup_append.1 h.ids
  obtain ⟨out, hout, hends⟩ := Coordinator.complete_ends p completion finishedAt now hfind
  unfold System.finish
  simp only [hout]
  cases hends with
  | closed candidate c' hsettle hrunning hhistory hpermits hcounter =>
    refine h.leave hf ⟨hrunning, hpermits, hcounter⟩ rfl ?_ ?_ ?_
    · intro id hmem
      rw [List.map_append, List.mem_append] at hmem
      rcases hmem with hmem | hmem
      · exact .inl hmem
      · exact .inr ((List.mem_singleton.1 hmem).trans htk)
    · rw [List.map_append, List.map_singleton, List.nodup_append]
      refine ⟨hids'.2.1, List.nodup_singleton _, fun a ha b hb => ?_⟩
      obtain rfl := List.mem_singleton.1 hb
      exact fun he => hids'.2.2 _ (List.mem_map_of_mem htask) a ha he.symm
    · rw [hhistory, h.history, trim_append]
  | aborted c' hsettle hrunning hhistory hpermits hcounter =>
    exact h.leave hf ⟨hrunning, hpermits, hcounter⟩ rfl (fun id hmem => .inl hmem) hids'.2.1
      (hhistory.trans h.history)

/-! ## Runs -/

theorem System.Sound.advance {round : Nat} {r : Round} (h : s.Sound p) (inputs : RoundInputs) :
    (s.advance p round r inputs).Sound p := by
  rcases r.step_tasks p inputs s.coordinator with ⟨hsame, hnone⟩ | ⟨task, f, hstarts, hsome⟩
  · exact h.congr hsame (by simp [System.advance, hnone, addSpawned]) rfl
  · exact h.start hstarts (by simp [System.advance, hsome, addSpawned]) rfl

/-- **Every step keeps the tasks sound.** -/
theorem Action.exec_sound (h : s.Sound p) (a : Action) : (a.exec p s).Sound p := by
  cases a with
  | start target action force optimizeActions now =>
    simp only [Action.exec]
    split
    · exact h
    · next task f c' hstart => exact h.start (Coordinator.start_ok hstart) rfl rfl
  | complete taskId outcome finishedAt now =>
    simp only [Action.exec]
    split
    · exact h
    · next f hf =>
      split
      · exact h
      · exact h.finish hf _ _ _
  | request round =>
    simp only [Action.exec]
    split
    · exact h
    · exact h.congr ⟨rfl, rfl, rfl, rfl, rfl⟩ rfl rfl
  | advance round inputs =>
    simp only [Action.exec]
    split
    · exact h
    · exact h.advance inputs
  | cut round => exact h.congr ⟨rfl, rfl, rfl, rfl, rfl⟩ rfl rfl

theorem Reachable.sound (h : Reachable p s) : s.Sound p :=
  Run.Reaches.invariant (I := System.Sound p) (fun _ a hs _ => Action.exec_sound hs a) h (.new p)

end MemoryStore.Maintenance
