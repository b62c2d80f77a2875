/-
The guard of the other commands against an unfinished embedding migration, and
what `embedding inspect` makes of the same evidence
(`grpc-admin/src/db_migrate/embedding/guard.rs`, `inspect.rs`).

Both read the attempt record and the markers of every configured table. They
differ on markers of an attempt other than the recorded one: inspection reports
the rebuild as inconsistent, and the guard does not look at them.
-/
import MemoryStore.EmbeddingSwitch.Stage

namespace MemoryStore.EmbeddingSwitch

open EmbeddingSpace (MigrationMarker)

/-! ## The guard -/

/-- What the guarded command is about to do. -/
inductive Work where
  | apply (neutral : Bool)
  | restore (vectorTables : Bool)
  deriving DecidableEq, Repr

structure InProgress where
  resolution : Resolution
  attempt : Option AttemptInfo
  backup : Option String
  cancelOperation : Option String
  deriving DecidableEq, Repr

/-- The stages before the commit. -/
def EffectiveStage.beforeCommit : EffectiveStage → Bool
  | .backup | .replace | .rebuildPending => true
  | _ => false

/-- Work that an unfinished rebuild tolerates before its commit. -/
def Work.tolerated : Work → Bool
  | .apply neutral => neutral
  | .restore vectorTables => !vectorTables

/-- `decide`: whether the work may run. -/
def Guard.decide (attempt : Option AttemptRecord) (markers : List (Option MigrationMarker)) (work : Work) :
    Except InProgress Unit :=
  match attempt with
  | none => if markers.any Option.isSome then .error ⟨.manualRecovery, none, none, none⟩ else .ok ()
  | some a =>
    match effectiveStage a markers with
    | none => .ok ()
    | some stage =>
      if stage.beforeCommit && work.tolerated then .ok ()
      else
        match stageResponse a.method stage .applyOrRestore with
        | .refuse r =>
          .error
            { resolution := r.resolution
              attempt := if r.withAttempt then some (a.info stage.asStr) else none
              backup := if r.withBackup && a.backupComplete then a.backupPath else none
              cancelOperation := r.cancelOperation }
        | .go | .succeed _ => .ok ()

/-! ## Inspection -/

inductive State where
  | consistent | incomplete | unverified | failed | unknown | migrating | rebuildInconsistent | unavailable
  deriving DecidableEq, Repr

inductive UnavailableReason where
  | resourceUnavailable | resourceCorrupt
  deriving DecidableEq, Repr

inductive NextAction where
  | none | wait | reconcile | resolveFailed | switch | checkEnvironment | manualRecovery | restore | abandon
  | resumeOrAbandon | resumeOrRestore | startRebuild | finalize
  deriving DecidableEq, Repr

inductive SpaceValue where
  | unknown | none | id (id : String)
  deriving DecidableEq, Repr

structure StateCounts where
  required : Nat
  complete : Nat
  missing : Nat
  stale : Nat
  unverified : Nat
  failedTransient : Nat
  failedPermanent : Nat
  deriving DecidableEq, Repr

def StateCounts.failed (c : StateCounts) : Nat := c.failedTransient + c.failedPermanent

def StateCounts.add (c other : StateCounts) : StateCounts :=
  ⟨c.required + other.required, c.complete + other.complete, c.missing + other.missing, c.stale + other.stale,
    c.unverified + other.unverified, c.failedTransient + other.failedTransient,
    c.failedPermanent + other.failedPermanent⟩

structure Counts where
  byKind : List StateCounts
  orphan : Nat
  deriving DecidableEq, Repr

def Counts.total (c : Counts) : StateCounts := c.byKind.foldl StateCounts.add ⟨0, 0, 0, 0, 0, 0, 0⟩

/-- Everything inspection reports on, as observed. -/
structure Observation where
  unavailable : Option UnavailableReason
  storageMismatch : Bool
  markers : List (Option MigrationMarker)
  attempt : Option AttemptRecord
  attemptUnreadable : Bool
  operationLocked : Bool
  space : SpaceValue
  counts : Option Counts
  backupSupported : Option Bool
  deriving DecidableEq, Repr

/-- A count of `none` is printed as unknown. -/
structure InspectLine where
  state : State := .consistent
  space : SpaceValue := .unknown
  required : Option Nat := none
  complete : Option Nat := none
  missing : Option Nat := none
  stale : Option Nat := none
  unverified : Option Nat := none
  failedTransient : Option Nat := none
  failedPermanent : Option Nat := none
  orphan : Option Nat := none
  backupSupported : Option Bool
  attempt : Option AttemptInfo := none
  backup : Option String := none
  unavailableReason : Option UnavailableReason := none
  nextAction : NextAction := .none
  deriving DecidableEq, Repr

/-- `inspect_next_action`. -/
def inspectNextAction (method : Method) : EffectiveStage → NextAction
  | .restoring => .restore
  | .discarding => .abandon
  | .backup => .resumeOrAbandon
  | .replace => if method = .backup then .resumeOrRestore else .resumeOrAbandon
  | .rebuildPending => .startRebuild
  | .commit => .finalize

/-- Some marker is of no attempt or of another one than the recorded one. -/
def foreignMarkers (attempt : Option AttemptRecord) (markers : List (Option MigrationMarker)) : Bool :=
  markers.any fun m => m.any fun m => attempt.all fun a => a.attemptId ≠ m.attemptId

/-- The line for markers that identify no attempt. -/
def inconsistentLine (line : InspectLine) : Option AttemptRecord → InspectLine
  | none => { line with state := .rebuildInconsistent, nextAction := .manualRecovery }
  | some a =>
    if a.method = .noBackup then { line with state := .rebuildInconsistent, nextAction := .abandon }
    else if a.backupComplete then
      { line with
          state := .rebuildInconsistent
          nextAction := .restore
          attempt := some (a.info "replace")
          backup := a.backupPath }
    else { line with state := .rebuildInconsistent, nextAction := .manualRecovery }

/-- The line with the counts of the classification. -/
def countedLine (line : InspectLine) (counts : Counts) : InspectLine :=
  let t := counts.total
  let line := { line with
    required := some t.required
    complete := some t.complete
    missing := some t.missing
    stale := some t.stale
    unverified := some t.unverified
    failedTransient := some t.failedTransient
    failedPermanent := some t.failedPermanent
    orphan := some counts.orphan }
  if 0 < t.missing + t.stale + counts.orphan then { line with state := .incomplete, nextAction := .reconcile }
  else if 0 < t.unverified then { line with state := .unverified, nextAction := .reconcile }
  else if 0 < t.failed then { line with state := .failed, nextAction := .resolveFailed }
  else { line with state := .consistent, nextAction := .none }

/-- `derive`. -/
def derive (obs : Observation) : InspectLine :=
  let line : InspectLine := { backupSupported := obs.backupSupported }
  match obs.unavailable with
  | some reason =>
    { line with
        state := .unavailable
        unavailableReason := some reason
        nextAction :=
          match reason with
          | .resourceUnavailable => .checkEnvironment
          | .resourceCorrupt => .manualRecovery }
  | none =>
    if obs.operationLocked then { line with state := .unknown, nextAction := .wait }
    else if obs.storageMismatch then { line with state := .unknown, nextAction := .checkEnvironment }
    else
      let line := { line with space := obs.space }
      if obs.attemptUnreadable then { line with state := .unknown, nextAction := .manualRecovery }
      else if foreignMarkers obs.attempt obs.markers then inconsistentLine line obs.attempt
      else
        match obs.attempt.bind fun a => (effectiveStage a obs.markers).map fun s => (a, s) with
        | some (a, stage) =>
          { line with
              state := .migrating
              attempt := some (a.info stage.asStr)
              backup := if a.method = .backup && a.backupComplete then a.backupPath else none
              nextAction := inspectNextAction a.method stage }
        | none =>
          if obs.space = .unknown then { line with state := .unknown, nextAction := .switch }
          else
            match obs.counts with
            | none => { line with state := .unknown, nextAction := .switch }
            | some counts => countedLine line counts

/-! ## What the guard is for -/

/-- The stage lets the work run beside the rebuild. -/
def EffectiveStage.Tolerates (stage : EffectiveStage) (work : Work) : Prop :=
  stage.beforeCommit = true ∧ work.tolerated = true

instance (stage : EffectiveStage) (work : Work) : Decidable (stage.Tolerates work) :=
  inferInstanceAs (Decidable (_ ∧ _))

/-- Every marker is of this attempt. -/
def Accounted (a : AttemptRecord) (markers : List (Option MigrationMarker)) : Prop :=
  ∀ marker, some marker ∈ markers → marker.attemptId = a.attemptId

/-- No table is marked and no unfinished attempt forbids the work, or every
marker is of the recorded attempt, which is unfinished and tolerates it. -/
def Quiet (attempt : Option AttemptRecord) (markers : List (Option MigrationMarker)) (work : Work) : Prop :=
  ((∀ marker, some marker ∉ markers) ∧ ∀ a ∈ attempt, ∀ stage ∈ effectiveStage a markers, stage.Tolerates work) ∨
    ∃ a ∈ attempt, ∃ stage ∈ effectiveStage a markers, stage.Tolerates work ∧ Accounted a markers

/-- The guard admits work only where it is quiet, and refuses what inspection
reports as inconsistent, whatever else inspection has observed. -/
structure Guard.Sound (attempt : Option AttemptRecord) (markers : List (Option MigrationMarker)) (work : Work) :
    Prop where
  quiet : Guard.decide attempt markers work = .ok () → Quiet attempt markers work
  agrees : ∀ obs : Observation, obs.attempt = attempt → obs.markers = markers →
    (derive obs).state = .rebuildInconsistent → Guard.decide attempt markers work ≠ .ok ()

variable {attempt : Option AttemptRecord} {markers : List (Option MigrationMarker)} {work : Work}

theorem foreignMarkers_eq_false_iff :
    foreignMarkers attempt markers = false ↔ ∀ marker, some marker ∈ markers →
      ∃ a ∈ attempt, marker.attemptId = a.attemptId := by
  unfold foreignMarkers
  rw [List.any_eq_false]
  constructor
  · intro h marker hm
    have hall := h _ hm
    rw [Option.any_some] at hall
    cases attempt with
    | none => exact absurd rfl hall
    | some a => exact ⟨a, rfl, Eq.symm (by simpa using hall)⟩
  · intro h m hm
    cases m with
    | none => simp
    | some marker =>
      obtain ⟨a, rfl, he⟩ := h marker hm
      simp [he]

/-- The guard admits the work exactly where nothing recorded stands against it. -/
theorem Guard.decide_eq_ok_iff : Guard.decide attempt markers work = .ok () ↔
    match attempt with
    | none => ∀ marker, some marker ∉ markers
    | some a => ∀ stage ∈ effectiveStage a markers, stage.Tolerates work := by
  unfold Guard.decide
  cases attempt with
  | none =>
    dsimp only
    by_cases h : markers.any Option.isSome = true
    · rw [if_pos h]
      obtain ⟨m, hm, hs⟩ := List.any_eq_true.1 h
      obtain ⟨marker, rfl⟩ := Option.isSome_iff_exists.1 hs
      exact iff_of_false nofun fun hnone => hnone marker hm
    · rw [if_neg h]
      exact iff_of_true rfl fun marker hm => h (List.any_eq_true.2 ⟨_, hm, rfl⟩)
  | some a =>
    dsimp only
    cases effectiveStage a markers with
    | none => exact iff_of_true rfl fun _ hs => nomatch hs
    | some stage =>
      dsimp only
      by_cases h : stage.Tolerates work
      · rw [if_pos (by rw [h.1, h.2]; rfl)]
        exact iff_of_true rfl fun _ hs => Option.some.inj hs ▸ h
      · rw [if_neg fun hc => h (Bool.and_eq_true_iff.1 hc)]
        obtain ⟨refusal, hr, -⟩ := stageResponse_applyOrRestore a.method stage
        rw [hr]
        exact iff_of_false nofun fun hall => h (hall stage rfl)

/-- Inspection reports an inconsistent rebuild only on foreign markers. -/
theorem foreign_of_inconsistent {obs : Observation} (h : (derive obs).state = .rebuildInconsistent) :
    foreignMarkers obs.attempt obs.markers = true := by
  by_contra hf
  rw [Bool.not_eq_true] at hf
  have hcounted : ∀ line counts, (countedLine line counts).state ≠ .rebuildInconsistent := by
    intro line counts
    unfold countedLine
    dsimp only
    repeat' split
    all_goals nofun
  unfold derive at h
  rw [hf] at h
  dsimp only at h
  repeat' split at h
  all_goals first | contradiction | exact hcounted _ _ h

/-- What inspection observes on an otherwise sound deployment. -/
def Observation.of (attempt : Option AttemptRecord) (markers : List (Option MigrationMarker)) : Observation :=
  ⟨none, false, markers, attempt, false, false, .unknown, none, none⟩

theorem inconsistent_of_foreign (h : foreignMarkers attempt markers = true) :
    (derive (.of attempt markers)).state = .rebuildInconsistent := by
  have hline : ∀ line, (inconsistentLine line attempt).state = .rebuildInconsistent := by
    intro line
    unfold inconsistentLine
    repeat' split
    all_goals rfl
  unfold derive Observation.of
  simp only [h, if_true]
  exact hline _

/-- **The guard is sound exactly where** there is no attempt record, every marker
is of the recorded attempt, or that attempt is unfinished at a stage that does
not tolerate the work. -/
theorem Guard.sound_iff (attempt : Option AttemptRecord) (markers : List (Option MigrationMarker)) (work : Work) :
    Guard.Sound attempt markers work ↔
      ∀ a ∈ attempt, Accounted a markers ∨ ∃ stage ∈ effectiveStage a markers, ¬ stage.Tolerates work := by
  constructor
  · rintro h a rfl
    by_contra hc
    rw [not_or, not_exists] at hc
    have hok : Guard.decide (some a) markers work = .ok () :=
      Guard.decide_eq_ok_iff.2 fun stage hs => by_contra fun ht => hc.2 stage ⟨hs, ht⟩
    have hforeign : foreignMarkers (some a) markers = true := by
      by_contra hf
      rw [Bool.not_eq_true, foreignMarkers_eq_false_iff] at hf
      refine hc.1 fun marker hm => ?_
      obtain ⟨a', ha', he⟩ := hf marker hm
      exact Option.some.inj ha' ▸ he
    exact h.agrees (.of (some a) markers) rfl rfl (inconsistent_of_foreign hforeign) hok
  · intro h
    refine ⟨fun hok => ?_, fun obs hattempt hmarkers hstate hok => ?_⟩
    · cases attempt with
      | none => exact .inl ⟨Guard.decide_eq_ok_iff.1 hok, fun _ ha => nomatch ha⟩
      | some a =>
        have htolerates := Guard.decide_eq_ok_iff.1 hok
        rcases h a rfl with haccounted | ⟨stage, hs, hnot⟩
        · cases hstage : effectiveStage a markers with
          | none =>
            have hnone := (effectiveStage_eq_none_iff.1 hstage).2
            refine .inl ⟨fun marker hm => hnone marker hm (haccounted marker hm), fun a' ha' stage hs => ?_⟩
            rw [← Option.some.inj ha', hstage] at hs
            cases hs
          | some stage => exact .inr ⟨a, rfl, stage, hstage, htolerates stage hstage, haccounted⟩
        · exact absurd (htolerates stage hs) hnot
    · subst hattempt hmarkers
      have hforeign := foreign_of_inconsistent hstate
      cases hattempt : obs.attempt with
      | none =>
        rw [hattempt] at hok hforeign
        have hnone := Guard.decide_eq_ok_iff.1 hok
        rw [foreignMarkers_eq_false_iff.2 fun marker hm => absurd hm (hnone marker)] at hforeign
        cases hforeign
      | some a =>
        rw [hattempt] at hok hforeign
        rcases h a hattempt with haccounted | ⟨stage, hs, hnot⟩
        · rw [foreignMarkers_eq_false_iff.2 fun marker hm => ⟨a, rfl, haccounted marker hm⟩] at hforeign
          cases hforeign
        · exact hnot (Guard.decide_eq_ok_iff.1 hok stage hs)

/-- A finished attempt, and a table marked by another one. -/
def finished : AttemptRecord := ⟨"a", .backup, none, false, .commit, .completed, none, false⟩

/-- **The claim fails**: beside the record of a finished attempt the guard admits
any work, though a table is being rebuilt by an attempt nothing accounts for. -/
theorem finished_attempt_hides_marker :
    Guard.decide (some finished) [some ⟨.pending, "b"⟩] (.apply false) = .ok () ∧
    (derive (.of (some finished) [some ⟨.pending, "b"⟩])).state = .rebuildInconsistent ∧
    ¬ ∀ attempt markers work, Guard.Sound attempt markers work := by
  have hok : Guard.decide (some finished) [some ⟨.pending, "b"⟩] (.apply false) = .ok () := by decide
  have hstate : (derive (.of (some finished) [some ⟨.pending, "b"⟩])).state = .rebuildInconsistent := by decide
  exact ⟨hok, hstate, fun h => (h _ _ _).agrees _ rfl rfl hstate hok⟩

end MemoryStore.EmbeddingSwitch
