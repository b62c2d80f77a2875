/-
The reconcile flag: set by the round that passes the lock at the top, cleared
by that round at the bottom, and by nothing else.

A round that is cut in between, its future dropped by the caller or unwound by
the executor, clears nothing: no guard stands for the flag or for the internal
check. From then on no round can start.
-/
import MemoryStore.Maintenance.Backoff

namespace MemoryStore.Maintenance

variable {p : Policy} {c : Coordinator} {s : System}

/-! ## What a step of a round does to the flag -/

/-- Where a round stands after a step, if it is still running. -/
def Advance.round : Advance → Option Round
  | .awaiting r => some r
  | .returned _ => none

/-- The physical table a round is observing. -/
def Round.observing : Round → List MaintenanceTarget
  | .checking scan _ => [scan.target.physicalTable]
  | _ => []

/-- Executing, with no internal check of its own. -/
def Round.Scanning (r : Round) : Prop := r.executing = true ∧ r.observing = []

theorem Scan.visit_scanning (scan : Scan) : scan.visit.Scanning := by
  unfold Scan.visit
  split
  · split <;> exact ⟨rfl, rfl⟩
  · exact ⟨rfl, rfl⟩

theorem Scan.next_scanning (scan : Scan) (reason : SkipReason) : (scan.next reason).Scanning := Scan.visit_scanning _

theorem Scan.optimize_scanning (scan : Scan) (actions : List OptimizeAction) : (scan.optimize actions).Scanning := by
  unfold Scan.optimize
  simp only
  split
  · exact scan.next_scanning _
  · exact ⟨rfl, rfl⟩

theorem Scan.checked_scanning (p : Policy) (scan : Scan) (actions : List OptimizeAction) (completion : TaskCompletion) :
    (scan.checked p actions completion).Scanning := by
  unfold Scan.checked
  split
  · exact ⟨rfl, rfl⟩
  · unfold Scan.tableChecked
    split
    · exact scan.optimize_scanning _
    · split
      · exact scan.next_scanning _
      · exact scan.optimize_scanning _

/-- The four things a step of a round can be: it finds the flag set and
returns; it sets the flag; it clears it at the bottom; or it goes on, leaving
the flag and keeping at most its own internal check. -/
inductive FlagStep (c : Coordinator) (r : Round) (c' : Coordinator) : Option Round → Prop where
  | refused (hr : r.executing = false) (hflag : c.reconcileRunning = true)
      (hflag' : c'.reconcileRunning = true) (hchecks : c'.internalChecks = c.internalChecks) : FlagStep c r c' none
  | begins (r' : Round) (hr : r.executing = false) (hflag : c.reconcileRunning = false)
      (hflag' : c'.reconcileRunning = true) (hchecks : c'.internalChecks = c.internalChecks)
      (hr' : r'.Scanning) : FlagStep c r c' (some r')
  | ends (hr : r.Scanning) (hflag' : c'.reconcileRunning = false) (hchecks : c'.internalChecks = c.internalChecks) :
      FlagStep c r c' none
  | continues (r' : Round) (hr : r.executing = true) (hflag' : c'.reconcileRunning = c.reconcileRunning)
      (hr' : r'.executing = true) (hchecks : c.internalChecks = r.observing → c'.internalChecks = r'.observing) :
      FlagStep c r c' (some r')

/-- A scanning round that goes on scanning, over the same internal checks. -/
theorem FlagStep.scans {r r' : Round} {c' : Coordinator} (hr : r.Scanning) (hr' : r'.Scanning)
    (hflag : c'.reconcileRunning = c.reconcileRunning) (hchecks : c'.internalChecks = c.internalChecks) :
    FlagStep c r c' (some r') :=
  .continues r' hr.1 hflag hr'.1 fun h => hchecks.trans (h.trans (hr.2.trans hr'.2.symm))

theorem Round.step_flag (p : Policy) (i : RoundInputs) (c : Coordinator) (r : Round) :
    FlagStep c r (r.step p i c).1 (r.step p i c).2.1.round := by
  cases r with
  | waiting =>
    simp only [Round.step]
    cases hflag : c.reconcileRunning with
    | true => exact .refused rfl hflag hflag rfl
    | false => exact .begins _ rfl hflag rfl rfl (Scan.visit_scanning _)
  | dueActions scan => exact .scans ⟨rfl, rfl⟩ ⟨rfl, rfl⟩ rfl rfl
  | skipReason scan actions =>
    simp only [Round.step]
    split
    · exact .scans ⟨rfl, rfl⟩ (scan.next_scanning _) rfl rfl
    · split
      · split
        · exact .scans ⟨rfl, rfl⟩ ⟨rfl, rfl⟩ rfl rfl
        · exact .scans ⟨rfl, rfl⟩ (scan.optimize_scanning _) rfl rfl
      · exact .scans ⟨rfl, rfl⟩ ⟨rfl, rfl⟩ rfl rfl
  | checkEntry scan actions =>
    simp only [Round.step]
    split
    · exact .scans ⟨rfl, rfl⟩ (scan.next_scanning _) rfl rfl
    · refine .continues _ rfl rfl rfl fun h => ?_
      have hnil : c.internalChecks = [] := h
      simp [hnil, Round.observing]
  | checking scan actions =>
    have hclear : c.internalChecks = [scan.target.physicalTable] →
        (c.internalChecks.filter fun t => t ≠ scan.target.physicalTable) = [] := by
      intro h
      simp [h]
    simp only [Round.step]
    split
    · have hr' := scan.checked_scanning p actions
      exact .continues _ rfl rfl (hr' _).1 fun h => (hclear h).trans (hr' _).2.symm
    · have hr' := scan.next_scanning .observationUnavailable
      exact .continues _ rfl rfl hr'.1 fun h => (hclear h).trans hr'.2.symm
    · have hr' := scan.checked_scanning p actions
      exact .continues _ rfl rfl (hr' _).1 fun h => (hclear h).trans (hr' _).2.symm
  | forceBuild scan completion =>
    simp only [Round.step]
    split
    · exact .scans ⟨rfl, rfl⟩ (scan.next_scanning _) rfl rfl
    · split
      · exact .scans ⟨rfl, rfl⟩ ⟨rfl, rfl⟩ rfl rfl
      · exact .scans ⟨rfl, rfl⟩ (scan.next_scanning _) rfl rfl
  | eligibility scan force =>
    simp only [Round.step]
    split
    · exact .scans ⟨rfl, rfl⟩ (scan.next_scanning _) rfl rfl
    · exact .scans ⟨rfl, rfl⟩ (scan.next_scanning _) rfl rfl
    · exact .scans ⟨rfl, rfl⟩ (scan.next_scanning _) rfl rfl
    · exact .scans ⟨rfl, rfl⟩ ⟨rfl, rfl⟩ rfl rfl
  | starting scan action force actions =>
    simp only [Round.step]
    cases h : c.start p scan.target action force actions i.now with
    | ok out =>
      obtain ⟨task, f, c'⟩ := out
      have hresult := (Coordinator.start_ok h).result
      exact .scans ⟨rfl, rfl⟩ ⟨rfl, rfl⟩ (by rw [hresult]) (by rw [hresult])
    | error e => cases e <;> exact .scans ⟨rfl, rfl⟩ ⟨rfl, rfl⟩ rfl rfl
  | finishing start result => exact .ends ⟨rfl, rfl⟩ rfl rfl

/-! ## The invariant -/

/-- Some round is still executing. -/
def System.RoundLive (s : System) : Prop := ∃ i r, s.rounds i = some r ∧ r.executing = true

/-- **The flag matches a live round**: it is set exactly while some round is
executing, and a table is under an internal check only while one is. -/
def System.FlagMatches (s : System) : Prop :=
  (s.coordinator.reconcileRunning = true ↔ s.RoundLive) ∧ (s.coordinator.internalChecks ≠ [] → s.RoundLive)

/-- At most one round is executing, the flag is its, and so is the one internal check. -/
structure System.FlagSound (s : System) : Prop where
  one : ∀ i j r r', s.rounds i = some r → r.executing = true → s.rounds j = some r' → r'.executing = true → i = j
  flag : s.coordinator.reconcileRunning = true ↔ s.RoundLive
  checks : ∀ i r, s.rounds i = some r → r.executing = true → s.coordinator.internalChecks = r.observing
  idle : s.coordinator.reconcileRunning = false → s.coordinator.internalChecks = []

theorem System.FlagSound.matches (h : s.FlagSound) : s.FlagMatches := by
  refine ⟨h.flag, fun hne => ?_⟩
  by_contra hno
  refine hne (h.idle ?_)
  rw [← Bool.not_eq_true, h.flag]
  exact hno

theorem System.FlagSound.new : System.new.FlagSound where
  one := by simp [System.new]
  flag := by simp [System.new, Coordinator.new, System.RoundLive]
  checks := by simp [System.new]
  idle := fun _ => rfl

/-- The flag does not look at the tasks. -/
theorem System.FlagSound.congr {s' : System} (h : s.FlagSound) (hrounds : s'.rounds = s.rounds)
    (hflag : s'.coordinator.reconcileRunning = s.coordinator.reconcileRunning)
    (hchecks : s'.coordinator.internalChecks = s.coordinator.internalChecks) : s'.FlagSound where
  one := by rw [hrounds]; exact h.one
  flag := by rw [hflag, System.RoundLive, hrounds]; exact h.flag
  checks := by rw [hrounds, hchecks]; exact h.checks
  idle := by rw [hflag, hchecks]; exact h.idle

/-! ## Steps -/

theorem Coordinator.complete_flag {f : SpawnedTask} {completion : TaskCompletion} {finishedAt now : Nat} :
    (s.finish p f completion finishedAt now).coordinator.reconcileRunning = s.coordinator.reconcileRunning ∧
      (s.finish p f completion finishedAt now).coordinator.internalChecks = s.coordinator.internalChecks := by
  unfold System.finish
  cases hfind : s.coordinator.running.find? fun t => t.taskId = f.taskId with
  | none =>
    have hnone : s.coordinator.complete p f completion finishedAt now = none := by
      simp only [Coordinator.complete, hfind, Option.map_none]
    rw [hnone]
    exact ⟨rfl, rfl⟩
  | some task =>
    obtain ⟨out, hout, hends⟩ := Coordinator.complete_ends p completion finishedAt now hfind
    rw [hout]
    cases hends with
    | closed candidate c' hsettle hrunning hhistory hpermits hcounter hcandidate hflag hchecks => exact ⟨hflag, hchecks⟩
    | aborted c' hsettle hrunning hhistory hpermits hcounter hflag hchecks => exact ⟨hflag, hchecks⟩

/-- Where the rounds stand after one of them took a step. -/
@[mk_iff]
structure Moves (s : System) (i : Nat) (next : Option Round) (s' : System) : Prop where
  self : s'.rounds i = next
  others : ∀ j, j ≠ i → s'.rounds j = s.rounds j

/-- A round that is not executing may go anywhere short of executing. -/
theorem System.FlagSound.idleMove {s' : System} {i : Nat} {next : Option Round} (h : s.FlagSound)
    (hmoves : Moves s i next s') (hself : ∀ r, s.rounds i = some r → r.executing = false)
    (hnext : ∀ r, next = some r → r.executing = false)
    (hflag : s'.coordinator.reconcileRunning = s.coordinator.reconcileRunning)
    (hchecks : s'.coordinator.internalChecks = s.coordinator.internalChecks) : s'.FlagSound := by
  have hsame : ∀ j r, r.executing = true → (s'.rounds j = some r ↔ s.rounds j = some r) := by
    intro j r hr
    by_cases hj : j = i
    · rw [hj, hmoves.self]
      constructor
      · intro hn
        rw [hnext r hn] at hr
        cases hr
      · intro hn
        rw [hself r hn] at hr
        cases hr
    · rw [hmoves.others j hj]
  constructor
  · intro j k r r' hj hr hk hr'
    exact h.one j k r r' ((hsame j r hr).1 hj) hr ((hsame k r' hr').1 hk) hr'
  · rw [hflag, h.flag]
    constructor
    · rintro ⟨j, r, hj, hr⟩
      exact ⟨j, r, (hsame j r hr).2 hj, hr⟩
    · rintro ⟨j, r, hj, hr⟩
      exact ⟨j, r, (hsame j r hr).1 hj, hr⟩
  · intro j r hj hr
    rw [hchecks]
    exact h.checks j r ((hsame j r hr).1 hj) hr
  · rw [hflag, hchecks]
    exact h.idle

/-- **A step of a round keeps the flag sound.** -/
theorem System.FlagSound.move {s' : System} {i : Nat} {r : Round} {next : Option Round} (h : s.FlagSound)
    (hr : s.rounds i = some r) (hmoves : Moves s i next s') (hstep : FlagStep s.coordinator r s'.coordinator next) :
    s'.FlagSound := by
  have hother : r.executing = true → ∀ j r', s'.rounds j = some r' → r'.executing = true → j = i := by
    intro hex j r' hj hr'
    by_contra hne
    rw [hmoves.others j hne] at hj
    exact hne (h.one j i r' r hj hr' hr hex)
  cases hstep with
  | refused hex hflag hflag' hchecks =>
    refine h.idleMove hmoves (fun r' hr' => ?_) (fun r' hn => by cases hn) (hflag'.trans hflag.symm) hchecks
    obtain rfl := Option.some.inj (hr.symm.trans hr')
    exact hex
  | begins r' hex hflag hflag' hchecks hr' =>
    -- The flag was clear, so no round was executing.
    have hnone : ¬ s.RoundLive := by
      rw [← h.flag, hflag]
      simp
    have honly : ∀ j r'', s'.rounds j = some r'' → r''.executing = true → j = i := by
      intro j r'' hj hr''
      by_contra hne
      rw [hmoves.others j hne] at hj
      exact hnone ⟨j, r'', hj, hr''⟩
    constructor
    · intro j k r₁ r₂ hj h₁ hk h₂
      exact (honly j r₁ hj h₁).trans (honly k r₂ hk h₂).symm
    · exact ⟨fun _ => ⟨i, r', hmoves.self, hr'.1⟩, fun _ => hflag'⟩
    · intro j r'' hj hr''
      obtain rfl := honly j r'' hj hr''
      obtain rfl := Option.some.inj (hmoves.self.symm.trans hj)
      rw [hchecks, h.idle hflag, hr'.2]
    · rw [hflag']
      simp
  | ends hex hflag' hchecks =>
    have hdead : ¬ s'.RoundLive := by
      rintro ⟨j, r', hj, hr'⟩
      obtain rfl := hother hex.1 j r' hj hr'
      rw [hmoves.self] at hj
      cases hj
    constructor
    · intro j k r₁ r₂ hj h₁ hk h₂
      exact absurd ⟨j, r₁, hj, h₁⟩ hdead
    · rw [hflag']
      exact ⟨by simp, fun hl => absurd hl hdead⟩
    · intro j r' hj hr'
      exact absurd ⟨j, r', hj, hr'⟩ hdead
    · intro _
      rw [hchecks, h.checks i r hr hex.1, hex.2]
  | continues r' hex hflag' hr' hchecks =>
    have hset : s.coordinator.reconcileRunning = true := h.flag.2 ⟨i, r, hr, hex⟩
    constructor
    · intro j k r₁ r₂ hj h₁ hk h₂
      exact (hother hex j r₁ hj h₁).trans (hother hex k r₂ hk h₂).symm
    · rw [hflag', hset]
      exact ⟨fun _ => ⟨i, r', hmoves.self, hr'⟩, fun _ => rfl⟩
    · intro j r'' hj hr''
      obtain rfl := hother hex j r'' hj hr''
      obtain rfl := Option.some.inj (hmoves.self.symm.trans hj)
      exact hchecks (h.checks j r hr hex)
    · rw [hflag', hset]
      simp

theorem System.request_moves (s : System) (i : Nat) :
    Moves s i (some .waiting) { s with rounds := setEntry s.rounds i .waiting } :=
  ⟨setEntry_self _ _ _, fun _ hj => setEntry_of_ne _ hj _⟩

theorem System.cut_moves (s : System) (i : Nat) : Moves s i none { s with rounds := clearEntry s.rounds i } :=
  ⟨clearEntry_self _ _, fun _ hj => clearEntry_of_ne _ hj⟩

theorem System.advance_moves (p : Policy) (s : System) (i : Nat) (r : Round) (inputs : RoundInputs) :
    Moves s i (r.step p inputs s.coordinator).2.1.round (s.advance p i r inputs) := by
  have hrounds : (s.advance p i r inputs).rounds = match (r.step p inputs s.coordinator).2.1 with
      | .awaiting r => setEntry s.rounds i r
      | .returned _ => clearEntry s.rounds i := rfl
  rw [moves_iff, hrounds]
  cases (r.step p inputs s.coordinator).2.1 with
  | awaiting r' => exact ⟨setEntry_self _ _ _, fun _ hj => setEntry_of_ne _ hj _⟩
  | returned result => exact ⟨clearEntry_self _ _, fun _ hj => clearEntry_of_ne _ hj⟩

theorem System.finish_rounds (p : Policy) (s : System) (f : SpawnedTask) (completion : TaskCompletion)
    (finishedAt now : Nat) : (s.finish p f completion finishedAt now).rounds = s.rounds := by
  unfold System.finish
  simp only
  split <;> rfl

/-- The step cuts no executing round. -/
def Action.Spares (s : System) (a : Action) : Prop :=
  ∀ i r, a = .cut i → s.rounds i = some r → r.executing = false

theorem Action.exec_flagSound (h : s.FlagSound) {a : Action} (ha : a.Spares s) : (a.exec p s).FlagSound := by
  cases a with
  | start target action force optimizeActions now =>
    simp only [Action.exec]
    split
    · exact h
    · next task f c' hstart =>
      have hresult := (Coordinator.start_ok hstart).result
      exact h.congr rfl (by simp only [hresult]) (by simp only [hresult])
  | complete taskId outcome finishedAt now =>
    simp only [Action.exec]
    split
    · exact h
    · next f hf =>
      split
      · exact h
      · next completion hc =>
        exact h.congr (s.finish_rounds p f completion finishedAt now) Coordinator.complete_flag.1
          Coordinator.complete_flag.2
  | request round =>
    simp only [Action.exec]
    split
    · exact h
    · next hfree =>
      refine h.idleMove (s.request_moves round) (fun r hr => ?_) (fun r hr => ?_) rfl rfl
      · simp [hr] at hfree
      · obtain rfl := Option.some.inj hr
        rfl
  | advance round inputs =>
    simp only [Action.exec]
    split
    · exact h
    · next r hr => exact h.move hr (s.advance_moves p round r inputs) (r.step_flag p inputs s.coordinator)
  | cut round =>
    exact h.idleMove (s.cut_moves round) (fun r hr => ha round r rfl hr) (fun r hr => by cases hr) rfl rfl

/-! ## A cut round -/

/-- The flag is set and no round is executing. -/
def System.Stuck (s : System) : Prop := s.coordinator.reconcileRunning = true ∧ ¬ s.RoundLive

theorem System.Stuck.not_matches (h : s.Stuck) : ¬ s.FlagMatches := fun hm => h.2 (hm.1.1 h.1)

/-- A cut of the executing round leaves the flag set and no round under it. -/
theorem System.FlagSound.cut {i : Nat} {r : Round} (h : s.FlagSound) (hr : s.rounds i = some r)
    (hex : r.executing = true) : ((Action.cut i).exec p s).Stuck := by
  refine ⟨h.flag.2 ⟨i, r, hr, hex⟩, ?_⟩
  have hmoves := s.cut_moves i
  rintro ⟨j, r', hj, hr'⟩
  by_cases hji : j = i
  · rw [hji] at hj
    cases hmoves.self.symm.trans hj
  · exact hji (h.one j i r' r ((hmoves.others j hji).symm.trans hj) hr' hr hex)

theorem System.Stuck.move {s' : System} {i : Nat} {next : Option Round} (h : s.Stuck) (hmoves : Moves s i next s')
    (hnext : ∀ r, next = some r → r.executing = false) (hflag : s'.coordinator.reconcileRunning = true) :
    s'.Stuck := by
  refine ⟨hflag, ?_⟩
  rintro ⟨j, r, hj, hex⟩
  by_cases hji : j = i
  · rw [hji, hmoves.self] at hj
    rw [hnext r hj] at hex
    cases hex
  · rw [hmoves.others j hji] at hj
    exact h.2 ⟨j, r, hj, hex⟩

/-- **No round starts again**: a stuck flag stays stuck, whatever happens. -/
theorem Action.exec_stuck (h : s.Stuck) (a : Action) : (a.exec p s).Stuck := by
  cases a with
  | start target action force optimizeActions now =>
    simp only [Action.exec]
    split
    · exact h
    · next task f c' hstart =>
      refine ⟨?_, h.2⟩
      simpa only [(Coordinator.start_ok hstart).result] using h.1
  | complete taskId outcome finishedAt now =>
    simp only [Action.exec]
    split
    · exact h
    · next f hf =>
      split
      · exact h
      · next completion hc =>
        refine ⟨Coordinator.complete_flag.1.trans h.1, ?_⟩
        rw [System.RoundLive, System.finish_rounds]
        exact h.2
  | request round =>
    simp only [Action.exec]
    split
    · exact h
    · refine h.move (s.request_moves round) (fun r hr => ?_) h.1
      obtain rfl := Option.some.inj hr
      rfl
  | advance round inputs =>
    simp only [Action.exec]
    split
    · exact h
    · next r hr =>
      have hidle : r.executing = false := by
        by_contra hex
        exact h.2 ⟨round, r, hr, by simpa using hex⟩
      have hmoves := s.advance_moves p round r inputs
      have hstep := r.step_flag p inputs s.coordinator
      generalize (r.step p inputs s.coordinator).2.1.round = next at hmoves hstep
      cases hstep with
      | refused _ _ hflag => exact h.move hmoves (fun r hr => by cases hr) hflag
      | begins _ _ hflag => exact absurd h.1 (by simp [hflag])
      | ends hex => exact absurd hex.1 (by simp [hidle])
      | continues _ hex => exact absurd hex (by simp [hidle])
  | cut round => exact h.move (s.cut_moves round) (fun r hr => by cases hr) h.1

/-! ## Runs -/

/-- The state after the first `n` steps of a run. -/
def stateAfter (p : Policy) (actions : List Action) (n : Nat) : System :=
  Run.execAll (Action.exec p) (actions.take n) .new

theorem stateAfter_succ {actions : List Action} {n : Nat} {a : Action} (h : actions[n]? = some a) :
    stateAfter p actions (n + 1) = a.exec p (stateAfter p actions n) := by
  unfold stateAfter Run.execAll
  rw [List.take_add_one, h, Option.toList_some, List.foldl_append]
  rfl

theorem stateAfter_of_none {actions : List Action} {n : Nat} (h : actions[n]? = none) :
    stateAfter p actions (n + 1) = stateAfter p actions n := by
  unfold stateAfter
  rw [List.take_add_one, h, Option.toList_none, List.append_nil]

theorem flagSound_stateAfter {actions : List Action} : ∀ {n : Nat},
    (∀ m < n, ∀ a, actions[m]? = some a → a.Spares (stateAfter p actions m)) → (stateAfter p actions n).FlagSound
  | 0, _ => .new
  | n + 1, h => by
    have ih : (stateAfter p actions n).FlagSound := flagSound_stateAfter fun m hm => h m (by omega)
    cases ha : actions[n]? with
    | none => exact (stateAfter_of_none ha).symm ▸ ih
    | some a =>
      rw [stateAfter_succ ha]
      exact Action.exec_flagSound ih (h n (by omega) a ha)

/-- **The flag matches a live round throughout a run** of any starts, rounds and
completions exactly when no step of the run cuts an executing round. -/
theorem reconcile_flag_matches_iff (p : Policy) (actions : List Action) :
    (∀ n, (stateAfter p actions n).FlagMatches) ↔
      ∀ (n : Nat) (a : Action), actions[n]? = some a → a.Spares (stateAfter p actions n) := by
  constructor
  · intro h n
    induction n using Nat.strongRecOn with
    | ind n ih =>
      rintro a ha i r rfl hr
      by_contra hex
      have hstuck : ((Action.cut i).exec p (stateAfter p actions n)).Stuck :=
        (flagSound_stateAfter ih).cut hr (by simpa using hex)
      rw [← stateAfter_succ ha] at hstuck
      exact hstuck.not_matches (h (n + 1))
  · intro h n
    exact (flagSound_stateAfter fun m _ => h m).matches

/-- A client calls `reconcile_once` and goes away before it returns. -/
def cancelledRequest : List Action := [.request 0, .advance 0 ⟨0, false, .failed, none, none⟩, .cut 0]

/-- After a cancelled request the flag is set and no round is executing. -/
theorem flag_stuck_after_cancel : ¬ ∀ (p : Policy) (actions : List Action) (n : Nat),
    (stateAfter p actions n).FlagMatches := by
  intro h
  obtain ⟨j, r, hj, -⟩ := (h (.withConfig dotEnvConfig 0) cancelledRequest 3).1.1 rfl
  cases j with
  | zero => cases hj
  | succ j => cases hj

/-- **A cancelled request disables reconciliation**: in every run, once a step cuts an executing round, the flag is
set and no round is executing in any later state. -/
theorem cut_disables {p : Policy} {actions : List Action} {n i : Nat} {r : Round} (hcut : actions[n]? = some (.cut i))
    (hr : (stateAfter p actions n).rounds i = some r) (hex : r.executing = true) :
    ∀ m > n, (stateAfter p actions m).Stuck := by
  induction n using Nat.strongRecOn generalizing i r with
  | ind n ih =>
    by_cases hspares : ∀ m < n, ∀ a, actions[m]? = some a → a.Spares (stateAfter p actions m)
    · intro m hm
      induction m, hm using Nat.le_induction with
      | base =>
        rw [stateAfter_succ hcut]
        exact (flagSound_stateAfter hspares).cut hr hex
      | succ m _ hstuck =>
        cases ha : actions[m]? with
        | none => rwa [stateAfter_of_none ha]
        | some a =>
          rw [stateAfter_succ ha]
          exact Action.exec_stuck hstuck a
    · -- an earlier step cut one already, and since then none is executing
      unfold Action.Spares at hspares
      push Not at hspares
      obtain ⟨m, hm, a, ha, j, r', rfl, hr', hex'⟩ := hspares
      have hstuck := ih m hm ha hr' (by simpa using hex') n hm
      exact absurd ⟨i, r, hr, hex⟩ hstuck.2

/-- A request after the cancelled one finds the flag set. -/
theorem cancelled_request_disables :
    (stateAfter (.withConfig dotEnvConfig 0) (cancelledRequest ++ [.request 1]) 4).Stuck := by
  have hround : ((stateAfter (.withConfig dotEnvConfig 0) (cancelledRequest ++ [.request 1]) 2).rounds 0).any
      Round.executing = true := rfl
  rw [Option.any_eq_true] at hround
  obtain ⟨r, hr, hex⟩ := hround
  exact cut_disables rfl hr hex 4 (by decide)

end MemoryStore.Maintenance
