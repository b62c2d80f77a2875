/-
Whose failures a backoff counts. The retry delay of a target is meant to grow
with its own failures in a row; the completion step counts how many records at
the end of the history are retryable failures of the target, and the history is
shared by all targets and bounded. A check is a task of its target, too: its
success clears what a build or an optimize has set.
-/
import MemoryStore.Maintenance.Backoff

namespace MemoryStore.Maintenance

/-! ## What a backoff is for -/

/-- The retryable failures in a row of the builds or optimizes of a target, the last of which is its last task. -/
def System.streak (s : System) (target : MaintenanceTarget) : Nat :=
  ((s.closed.reverse.filter fun t => decide (t.requestedTarget = target) && t.changes).takeWhile
    MaintenanceTask.retryableFailure).length

/-- The delay after one more failure: exponential in the failures before it, to the
nearest nanosecond, and at most the maximum. -/
def Policy.delayAfter (p : Policy) (failures : Nat) : Duration :=
  min (Duration.roundHalfEven (p.backoff failures)).toNat p.backoffMax

/-- What is noted of a target. -/
def System.candidate (s : System) (target : MaintenanceTarget) : CandidateState :=
  (s.coordinator.candidates target).getD .default

/-- The retry is not due any earlier, and a mark is kept. -/
structure CandidateState.Spared (old new : CandidateState) : Prop where
  retry : ∀ due, old.retryAfterUnixMs = some due → ∃ due', new.retryAfterUnixMs = some due' ∧ due ≤ due'
  mark : old.nonRetryable = true → new.nonRetryable = true

theorem CandidateState.Spared.refl (candidate : CandidateState) : candidate.Spared candidate :=
  ⟨fun due h => ⟨due, h, le_rfl⟩, id⟩

/-- A step that completes a spawned task. -/
def System.Completes (s : System) (a : Action) (f : SpawnedTask) (completion : TaskCompletion) (now : Nat) : Prop :=
  match a with
  | .complete taskId outcome _ now' =>
    s.spawned taskId = some f ∧ f.completion outcome now' = some completion ∧ now' = now
  | _ => False

/-- **A step counts each target's own failures.** A build or an optimize that
fails and may be retried is recorded, and its retry is due after the delay for
the target's own failures in a row; and only a build or an optimize of a target
touches what is noted of it. -/
structure System.CountsOwn (p : Policy) (s : System) (a : Action) : Prop where
  delay : ∀ f completion now, s.Completes a f completion now → f.ddlPermit = true → completion.status = .failed →
    isRetryableError completion.errorSummary = true → (a.exec p s).closed.length = s.closed.length + 1 ∧
      ((a.exec p s).candidate f.target).retryAfterUnixMs =
        some ((now : Int) + (p.delayAfter (s.streak f.target)).asMillis)
  spares : ∀ target, (∀ f completion now, s.Completes a f completion now → f.ddlPermit = true → f.target ≠ target) →
    (s.candidate target).Spared ((a.exec p s).candidate target)

/-! ## When it does -/

/-- The records that end the history give the delay the target's own failures should, before the end of the clock. -/
def Policy.Agrees (p : Policy) (counted streak now : Nat) : Prop :=
  ∃ delay, p.retryDelay counted = some delay ∧ toI64 delay.asMillis = (p.delayAfter streak).asMillis ∧
    now + (p.delayAfter streak).asMillis < 2 ^ 63

/-- A check finds nothing it would take away: none of the delay and the mark if it
succeeds, and no later retry than the one it sets if it fails and may be retried. -/
def Policy.ChecksQuietly (p : Policy) (s : System) (target : MaintenanceTarget) (completion : TaskCompletion)
    (now : Nat) : Prop :=
  (completion.status = .succeeded →
    (s.candidate target).retryAfterUnixMs = none ∧ (s.candidate target).nonRetryable = false) ∧
  (completion.status = .failed → isRetryableError completion.errorSummary = true →
    ∀ due delay, (s.candidate target).retryAfterUnixMs = some due →
      p.retryDelay (retryableFailures s.coordinator.history target) = some delay →
      due ≤ toI64 (now + toI64 delay.asMillis))

/-- A failing build or optimize is counted right, and a check takes nothing away. -/
def System.Undisturbed (p : Policy) (s : System) (a : Action) : Prop :=
  ∀ f completion now, s.Completes a f completion now →
    (f.ddlPermit = true → completion.status = .failed → isRetryableError completion.errorSummary = true →
      p.Agrees (retryableFailures s.coordinator.history f.target) (s.streak f.target) now) ∧
    (f.ddlPermit = false → p.ChecksQuietly s f.target completion now)

variable {p : Policy} {s : System}

theorem toI64_add_eq_iff {now d : Nat} {e : Int} :
    toI64 (now + toI64 e) = now + d ↔ toI64 e = d ∧ now + d < 2 ^ 63 := by
  unfold toI64
  simp only [Int.bmod_def]
  split <;> split <;> omega

/-! ## What a step does to what is noted -/

/-- The completion of a task settles its target, and nothing else. -/
theorem System.finish_candidates (hs : s.Sound p) {f : SpawnedTask} {k : Nat} (hf : s.spawned k = some f)
    (completion : TaskCompletion) (finishedAt now : Nat) :
    ∃ task : MaintenanceTask, task.requestedTarget = f.target ∧
      (s.finish p f completion finishedAt now).coordinator.candidates = setEntry s.coordinator.candidates f.target
        ((p.settle (s.candidate f.target) (task.finished completion finishedAt)
          (retryableFailures s.coordinator.history f.target) now).getD (s.candidate f.target)) ∧
      (s.finish p f completion finishedAt now).closed = match p.settle (s.candidate f.target)
          (task.finished completion finishedAt) (retryableFailures s.coordinator.history f.target) now with
        | none => s.closed
        | some _ => s.closed ++ [task.finished completion finishedAt] := by
  obtain ⟨task, -, -, -, htarget, -, hfind⟩ := hs.find_running hf
  refine ⟨task, htarget.symm, ?_⟩
  have hrequested : (task.finished completion finishedAt).requestedTarget = f.target := htarget.symm
  unfold System.finish Coordinator.complete System.candidate
  rw [hfind, Option.map_some]
  dsimp only
  rw [hrequested]
  cases p.settle ((s.coordinator.candidates f.target).getD .default) (task.finished completion finishedAt)
    (retryableFailures s.coordinator.history f.target) now with
  | none => exact ⟨rfl, rfl⟩
  | some settled => exact ⟨rfl, rfl⟩

theorem candidate_setEntry_self {c : Coordinator} {target : MaintenanceTarget} {candidate : CandidateState}
    (h : s.coordinator.candidates = setEntry c.candidates target candidate) : s.candidate target = candidate := by
  unfold System.candidate
  rw [h, setEntry_self]
  rfl

/-- A step that completes no task leaves what is noted. -/
theorem Action.exec_candidates (a : Action) (h : ∀ f completion now, ¬ s.Completes a f completion now) :
    (a.exec p s).coordinator.candidates = s.coordinator.candidates := by
  cases a with
  | start target action force optimizeActions now =>
    simp only [Action.exec]
    split
    · rfl
    · next task f c' hstart => rw [(Coordinator.start_ok hstart).result]
  | complete taskId outcome finishedAt now =>
    simp only [Action.exec]
    split
    · rfl
    · next f hf =>
      split
      · rfl
      · next completion hc => exact absurd ⟨hf, hc, rfl⟩ (h f completion now)
  | request round =>
    simp only [Action.exec]
    split <;> rfl
  | advance round inputs =>
    simp only [Action.exec]
    split
    · rfl
    · next r hr =>
      rcases r.step_tasks p inputs s.coordinator with ⟨hsame, -⟩ | ⟨task, f, hstarts, -⟩
      · exact hsame.candidates
      · show (r.step p inputs s.coordinator).1.candidates = s.coordinator.candidates
        rw [hstarts.result]
  | cut round => rfl

theorem System.Completes.exec {a : Action} {f : SpawnedTask} {completion : TaskCompletion} {now : Nat}
    (h : s.Completes a f completion now) :
    ∃ k finishedAt, s.spawned k = some f ∧ a.exec p s = s.finish p f completion finishedAt now := by
  cases a with
  | complete taskId outcome finishedAt now' =>
    obtain ⟨hf, hc, rfl⟩ := h
    exact ⟨taskId, finishedAt, hf, by simp only [Action.exec, hf, hc]⟩
  | _ => exact absurd h id

theorem System.Completes.unique {a : Action} {f f' : SpawnedTask} {completion completion' : TaskCompletion} {now now' : Nat}
    (h : s.Completes a f completion now) (h' : s.Completes a f' completion' now') :
    f' = f ∧ completion' = completion ∧ now' = now := by
  cases a with
  | complete taskId outcome finishedAt n =>
    obtain ⟨hf, hc, rfl⟩ := h
    obtain ⟨hf', hc', rfl⟩ := h'
    obtain rfl := Option.some.inj (hf.symm.trans hf')
    exact ⟨rfl, Option.some.inj (hc'.symm.trans hc), rfl⟩
  | _ => exact absurd h id

/-! ## What a completion settles -/

theorem optimized_notes (completedAt : Nat) : ∀ (subs : List SubActionResult) (candidate : CandidateState),
    (subs.foldl (fun candidate sub => candidate.optimized completedAt sub) candidate).retryAfterUnixMs =
        candidate.retryAfterUnixMs ∧
      (subs.foldl (fun candidate sub => candidate.optimized completedAt sub) candidate).nonRetryable =
        candidate.nonRetryable
  | [], _ => ⟨rfl, rfl⟩
  | sub :: subs, candidate => by
    have ih := optimized_notes completedAt subs (candidate.optimized completedAt sub)
    have hsub : (candidate.optimized completedAt sub).retryAfterUnixMs = candidate.retryAfterUnixMs ∧
        (candidate.optimized completedAt sub).nonRetryable = candidate.nonRetryable := by
      unfold CandidateState.optimized
      split
      · cases sub.action <;> exact ⟨rfl, rfl⟩
      · exact ⟨rfl, rfl⟩
    exact ⟨ih.1.trans hsub.1, ih.2.trans hsub.2⟩

/-- A success clears the delay and the mark. -/
theorem Policy.settle_succeeded (candidate : CandidateState) {record : MaintenanceTask} (failures now : Nat)
    (h : record.status = .succeeded) : ∃ settled, p.settle candidate record failures now = some settled ∧
      settled.retryAfterUnixMs = none ∧ settled.nonRetryable = false := by
  unfold Policy.settle
  rw [h]
  cases record.action with
  | check => exact ⟨_, rfl, rfl, rfl⟩
  | build => exact ⟨_, rfl, rfl, rfl⟩
  | optimize =>
    have hnotes := optimized_notes (record.finishedAtUnixMs.getD 0) record.subActions
      { candidate with retryAfterUnixMs := none, nonRetryable := false }
    exact ⟨_, rfl, hnotes⟩

theorem Policy.settle_retryable (candidate : CandidateState) {record : MaintenanceTask} (failures now : Nat)
    (h : record.status = .failed) (hr : isRetryableError record.errorSummary = true) :
    p.settle candidate record failures now = (p.retryDelay failures).map fun delay =>
      { candidate with retryAfterUnixMs := some (toI64 (now + toI64 delay.asMillis)) } := by
  unfold Policy.settle
  rw [h]
  dsimp only
  rw [if_pos hr]

/-- The end of a check spares what is noted of its target exactly if the check is quiet. -/
theorem Policy.spared_settled_iff {target : MaintenanceTarget} (task : MaintenanceTask) (completion : TaskCompletion)
    (finishedAt now : Nat) :
    (s.candidate target).Spared ((p.settle (s.candidate target) (task.finished completion finishedAt)
        (retryableFailures s.coordinator.history target) now).getD (s.candidate target)) ↔
      p.ChecksQuietly s target completion now := by
  unfold Policy.ChecksQuietly
  have hstatus : (task.finished completion finishedAt).status = completion.status := rfl
  cases hc : completion.status with
  | succeeded =>
    obtain ⟨settled, hsettle, hretry, hmark⟩ := p.settle_succeeded (s.candidate target)
      (retryableFailures s.coordinator.history target) now (hstatus.trans hc)
    rw [hsettle, Option.getD_some]
    constructor
    · intro h
      refine ⟨fun _ => ⟨?_, ?_⟩, fun he => nomatch he⟩
      · cases hd : (s.candidate target).retryAfterUnixMs with
        | none => rfl
        | some due =>
          obtain ⟨due', hdue', -⟩ := h.retry due hd
          rw [hretry] at hdue'
          cases hdue'
      · exact Bool.eq_false_iff.2 fun hm => absurd (h.mark hm) (by rw [hmark]; exact Bool.false_ne_true)
    · rintro ⟨h, -⟩
      refine ⟨fun due hd => ?_, fun hm => ?_⟩
      · rw [(h rfl).1] at hd
        cases hd
      · rw [(h rfl).2] at hm
        cases hm
  | failed =>
    by_cases hr : isRetryableError completion.errorSummary = true
    · rw [p.settle_retryable _ _ _ (hstatus.trans hc) hr]
      cases hd : p.retryDelay (retryableFailures s.coordinator.history target) with
      | none => exact iff_of_true (.refl _) ⟨fun he => (nomatch he), fun _ _ _ _ _ he => nomatch he⟩
      | some delay =>
        rw [Option.map_some, Option.getD_some]
        constructor
        · intro h
          refine ⟨fun he => (nomatch he), fun _ _ due delay' hdue he => ?_⟩
          obtain ⟨due', hdue', hle⟩ := h.retry due hdue
          rw [← Option.some.inj he, Option.some.inj hdue']
          exact hle
        · exact fun h => ⟨fun due hdue => ⟨_, rfl, h.2 rfl hr due delay hdue rfl⟩, id⟩
    · refine iff_of_true ?_ ⟨fun he => (nomatch he), fun _ he => absurd he hr⟩
      have hsettle : p.settle (s.candidate target) (task.finished completion finishedAt)
          (retryableFailures s.coordinator.history target) now =
            some { s.candidate target with nonRetryable := true } := by
        unfold Policy.settle
        rw [hstatus, hc]
        exact if_neg hr
      rw [hsettle]
      exact ⟨fun due h => ⟨due, h, le_rfl⟩, fun _ => rfl⟩
  | running | skipped | skippedDisabled | deferred =>
    have hsettle : p.settle (s.candidate target) (task.finished completion finishedAt)
        (retryableFailures s.coordinator.history target) now = some (s.candidate target) := by
      unfold Policy.settle
      rw [hstatus, hc]
    rw [hsettle]
    exact iff_of_true (.refl _) ⟨fun he => (nomatch he), fun he => (nomatch he)⟩

/-! ## Steps and runs -/

/-- A failing build or optimize is recorded with the right delay exactly if the history agrees. -/
theorem System.finish_delay_iff (hs : s.Sound p) {f : SpawnedTask} {k : Nat} (hf : s.spawned k = some f)
    {completion : TaskCompletion} (finishedAt now : Nat) (hc : completion.status = .failed)
    (hr : isRetryableError completion.errorSummary = true) :
    ((s.finish p f completion finishedAt now).closed.length = s.closed.length + 1 ∧
      ((s.finish p f completion finishedAt now).candidate f.target).retryAfterUnixMs =
        some ((now : Int) + (p.delayAfter (s.streak f.target)).asMillis)) ↔
      p.Agrees (retryableFailures s.coordinator.history f.target) (s.streak f.target) now := by
  obtain ⟨task, -, hcandidates, hclosed⟩ := s.finish_candidates hs hf completion finishedAt now
  have hfailed : (task.finished completion finishedAt).status = .failed := hc
  rw [candidate_setEntry_self hcandidates, hclosed, p.settle_retryable _ _ _ hfailed hr]
  unfold Policy.Agrees
  cases p.retryDelay (retryableFailures s.coordinator.history f.target) with
  | none => exact iff_of_false (fun h => absurd h.1 (Nat.ne_of_lt (Nat.lt_succ_self _))) fun ⟨_, h, _⟩ => nomatch h
  | some delay =>
    rw [Option.map_some, Option.getD_some]
    dsimp only
    rw [List.length_append, List.length_singleton, Option.some.injEq, toI64_add_eq_iff]
    constructor
    · rintro ⟨-, heq, hclock⟩
      exact ⟨delay, rfl, heq, hclock⟩
    · rintro ⟨delay', hd, heq, hclock⟩
      rw [← Option.some.inj hd] at heq
      exact ⟨rfl, heq, hclock⟩

/-- **A step counts each target's own failures** exactly if it is undisturbed. -/
theorem System.countsOwn_iff (hs : s.Sound p) (a : Action) : s.CountsOwn p a ↔ s.Undisturbed p a := by
  constructor
  · intro h f completion now hcomp
    obtain ⟨k, finishedAt, hf, hexec⟩ := hcomp.exec (p := p)
    refine ⟨fun hpermit hc hr => ?_, fun hpermit => ?_⟩
    · have hdelay := h.delay f completion now hcomp hpermit hc hr
      rw [hexec] at hdelay
      exact (s.finish_delay_iff hs hf finishedAt now hc hr).1 hdelay
    · have hspared := h.spares f.target fun f' completion' now' hcomp' hpermit' => by
        obtain ⟨rfl, -, -⟩ := hcomp.unique hcomp'
        rw [hpermit] at hpermit'
        cases hpermit'
      obtain ⟨task, -, hcandidates, -⟩ := s.finish_candidates hs hf completion finishedAt now
      rw [hexec, candidate_setEntry_self hcandidates] at hspared
      exact (p.spared_settled_iff task completion finishedAt now).1 hspared
  · intro h
    refine ⟨fun f completion now hcomp hpermit hc hr => ?_, fun target hother => ?_⟩
    · obtain ⟨k, finishedAt, hf, hexec⟩ := hcomp.exec (p := p)
      rw [hexec]
      exact (s.finish_delay_iff hs hf finishedAt now hc hr).2 ((h f completion now hcomp).1 hpermit hc hr)
    · by_cases hnone : ∀ f completion now, ¬ s.Completes a f completion now
      · unfold System.candidate
        rw [a.exec_candidates hnone]
        exact .refl _
      · simp only [not_forall, not_not] at hnone
        obtain ⟨f, completion, now, hcomp⟩ := hnone
        obtain ⟨k, finishedAt, hf, hexec⟩ := hcomp.exec (p := p)
        obtain ⟨task, -, hcandidates, -⟩ := s.finish_candidates hs hf completion finishedAt now
        rw [hexec]
        by_cases htarget : target = f.target
        · subst htarget
          rw [candidate_setEntry_self hcandidates]
          refine (p.spared_settled_iff task completion finishedAt now).2 ((h f completion now hcomp).2 ?_)
          exact Bool.eq_false_iff.2 fun hp => hother f completion now hcomp hp rfl
        · unfold System.candidate
          rw [hcandidates, setEntry_of_ne _ htarget]
          exact .refl _

/-- Two failing builds of one index, and one of another in between. -/
def interleavedBuilds : List Action :=
  [.start .memoryFts .build false [] 0, .complete 1 (.error "commit conflict") 0 0,
    .start .memoryVector .build false [] 0, .complete 2 (.error "commit conflict") 0 0,
    .start .memoryFts .build false [] 0]

def afterInterleaved : System := Run.execAll (Action.exec dotEnvPolicy) interleavedBuilds .new

end MemoryStore.Maintenance
