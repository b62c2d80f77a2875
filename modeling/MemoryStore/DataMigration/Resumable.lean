/-
Runs of the message times task one after the other, each of which may be cut off
between any two of its steps.
-/
import MemoryStore.DataMigration.Lossless

namespace MemoryStore.DataMigration.MessageTimesTask

variable {T : MessageTimesTask}

/-! ## One run -/

section
variable {H : Holding T} {self : ℕ} {executionId holderId : String} {w : World}

/-- **A run** resumes from wherever an earlier one was cut off; only a claim that is refused ends it early. -/
theorem apply_resumes (hsmooth : H.Smooth) (hgood : H.Good w) (hlock : w.lock = none) (hstrict : H.Strict w)
    {V : Clock → Prop} {E : String → World → Prop}
    (hrefused : ∀ (c : Clock) e, V c → ¬ Completed w →
      claimTx T.identity T.digest executionId holderId c.now defaultLeaseMs w.row = .error e → E e w) :
    Program.wp V (Inv H True) (fun _ w' => H.Good w' ∧ w'.lock = none ∧ Completed w') E
      (T.apply self executionId holderId) w := by
  have hinv : ∀ label, Inv H True label w := fun label => ⟨hgood, fun _ => .inr hstrict⟩
  refine Program.wp_bind.mpr (Program.wp_attempt.mpr ⟨hinv _, fun _ _ => ⟨.ok (), w, by rw [hsmooth.preflight], ?_⟩⟩)
  refine Program.wp_bind.mpr (Program.wp_attempt.mpr ⟨hinv _, fun _ _ => ⟨.ok w.row, w, rfl, ?_⟩⟩)
  show Program.wp _ _ _ _ (if w.row.any (·.state = .completed) then _ else _) w
  split
  · next hdone =>
    obtain ⟨row, hrow, hstate⟩ := (Option.any_eq_true _ _).mp hdone
    have hstate := of_decide_eq_true hstate
    have hphase := (hgood.row row hrow).done hstate
    have hrdb : (storedCheckpoint w.row).rdbPhase = .verified := hgood.sound.verified (by rw [hrow, hphase]; decide)
    have hverifiable : Verifiable H True none (Inv H True) E (storedCheckpoint w.row) (fun w' => w' = w) :=
      ⟨fun _ label h => h ▸ hinv label, fun _ h => h, fun _ _ _ h => absurd trivial h, fun _ h => h ▸ hgood,
        fun _ h => h ▸ rfl, hrdb, .inr (hrow ▸ hphase)⟩
    refine Program.wp_bind.mpr (((hverifiable.verifyInner (fun _ => hsmooth.preflight) (fun _ => hsmooth.threads)
      rfl).inputs fun _ _ => trivial).imp fun _ w' hw' => ?_)
    subst hw'
    exact ⟨hgood, hlock, row, hrow, hstate⟩
  · next hnot =>
    have hincomplete : ¬ Completed w := by
      rintro ⟨row, hrow, hstate⟩
      exact hnot (by simp [hrow, hstate])
    refine Program.wp_bind.mpr (Program.wp_attempt.mpr ⟨hinv _, fun c hc => ?_⟩)
    cases hclaim : claimTx T.identity T.digest executionId holderId c.now defaultLeaseMs w.row with
    | error e => exact ⟨.error e, w, by simp only [hlock, if_true, hclaim], hrefused c e hc hincomplete hclaim⟩
    | ok r =>
      have hat := (claim_at hgood hlock (fun _ : True => hstrict) hclaim).1
      refine ⟨.ok r.1, { w with row := r.2 }, by simp only [hlock, if_true, hclaim], ?_⟩
      exact (((runs_runClaimed (fun _ => hsmooth) hat).mono (fun _ _ h => h)
        fun _ _ h => absurd trivial h.1).inputs fun _ _ => trivial)

theorem strict_of_completed (hgood : H.Good w) (hdone : Completed w) : H.Strict w := by
  obtain ⟨row, hrow, hstate⟩ := hdone
  intro hphase
  have := (hgood.row row hrow).done hstate
  rw [hrow] at hphase
  cases this.symm.trans hphase

/-- A claim is not refused once the last lease has expired. -/
theorem claim_succeeds (hgood : H.Good w) (hnot : ¬ Completed w) {c : Clock}
    (hexpired : ∀ row expiry, w.row = some row → row.leaseExpiresAt = some expiry → expiry ≤ c.now)
    (htoken : ∀ row, w.row = some row → (checkedAdd row.fencingToken 1).isSome) (e : String) :
    claimTx T.identity T.digest executionId holderId c.now defaultLeaseMs w.row ≠ .error e := by
  intro herror
  have hrow : ∃ row, row = w.row.getD (freshRow T.identity T.digest c.now) ∧ row.taskIdentity = T.identity ∧
      row.canonicalDefinitionDigest = T.digest ∧ row.state ≠ .completed ∧ row.isActiveLease c.now = false ∧
      (checkedAdd row.fencingToken 1).isSome := by
    cases hw : w.row with
    | none => exact ⟨_, rfl, rfl, rfl, fun h => (nomatch h), rfl, rfl⟩
    | some row =>
      have hok := hgood.row row hw
      refine ⟨row, rfl, hok.identity, hok.digest, fun hstate => hnot ⟨row, hw, hstate⟩, ?_, htoken row hw⟩
      rw [TaskStateRow.isActiveLease, Bool.and_eq_false_iff]
      refine .inr ?_
      cases hexpiry : row.leaseExpiresAt with
      | none => rfl
      | some expiry =>
        have := hexpired row expiry hw hexpiry
        simp only [Option.any_some, decide_eq_false_iff_not]
        omega
  obtain ⟨row, hrow, hidentity, hdigest, hstate, hactive, hnext⟩ := hrow
  have hadd : checkedAdd row.fencingToken 1 = some (row.fencingToken + 1) := by
    unfold checkedAdd at hnext ⊢
    split
    · rfl
    · next hout =>
      rw [if_neg hout] at hnext
      cases hnext
  rw [claimTx_run hrow (by decide) hidentity hdigest hstate hactive hadd (checkedAdd_clock c)] at herror
  cases herror

end

/-! ## Runs that are cut off -/

/-- A run, and how far it gets. -/
structure CutRun where
  self : ℕ
  executionId : String
  holderId : String
  inputs : List Clock

namespace CutRun

/-- Where the run is cut off, and the world it leaves; its open transaction is rolled back. -/
def reached (T : MessageTimesTask) (run : CutRun) (w : World) : TaskProgram String × World :=
  (T.apply run.self run.executionId run.holderId).after run.inputs w

def exec (T : MessageTimesTask) (run : CutRun) (w : World) : World := { (run.reached T w).2 with lock := none }

end CutRun

/-- The run is not cut off between the drop of the staging table and the commit that records it. -/
def AwayFromCleanup (T : MessageTimesTask) (w : World) (run : CutRun) : Prop :=
  (run.reached T w).1.label? ≠ some .cleanupCommit

/-- What a task needs to be able to end, whatever is cut off. -/
structure Resumable (T : MessageTimesTask) (source : Option VectorTable) (w : World) : Prop where
  preflight : T.db.preflight = .ok ()
  threads : T.db.threadIds.length < T.rounds
  vectorThreads : ∀ table rows, T.vectorConfig = some table → w.tables table = some rows →
    rows.uniqueThreadIds.length < T.rounds
  /-- Rows that share a thread, kind and chunk are resolved alike before and after their bounds are replaced. -/
  alike : T.legacyInFlight = false → ∀ rows, source = some rows → ResolvedAlike T.db.boundsForExisting rows
  /-- A legacy staging table passes its check, if there is one. -/
  legacyStaged : T.legacyInFlight = true → T.legacySwitching = false → ∀ table rows staged,
    T.vectorConfig = some table → w.tables table = some rows → w.tables (legacyStagingName table) = some staged →
      verifyStagingAgainstCanonical T.db.boundsForExisting rows staged = .ok ()
  /-- The legacy record is one the code accepts. -/
  legacy : ∃ legacy, T.legacyVectorState = .ok legacy ∧ ∀ state name, legacy = some (state, name) →
    (state = .completed → ∀ table, T.vectorConfig = some table → w.tables table ≠ none) ∧
      (state = .staged ∨ state = .switching →
        ∃ table, T.vectorConfig = some table ∧ name = some (legacyStagingName table))

theorem Resumable.smooth {source : Option VectorTable} {w : World} (h : Resumable T source w) {H : Holding T}
    (hcanonical : H.canonical = T.vectorConfig.bind w.tables) (hholds : H.Holds source) (hgood : H.Good w)
    (hrow : w.row = none) : H.Smooth := by
  have htable : ∀ rows, H.canonical = some rows → ∃ table, T.vectorConfig = some table ∧ w.tables table = some rows := by
    intro rows hrows
    exact Option.bind_eq_some_iff.mp (hcanonical.symm.trans hrows)
  refine ⟨h.preflight, h.threads, fun rows hrows => ?_, fun hswitching rows hrows => ?_, ?_⟩
  · obtain ⟨table, hconfig, hthere⟩ := htable rows hrows
    exact h.vectorThreads table rows hconfig hthere
  · obtain ⟨table, hconfig, hthere⟩ := htable rows hrows
    cases hflight : T.legacyInFlight with
    | false =>
      rw [H.staged_eq hflight rows hrows]
      exact verifyStagingAgainstCanonical_staged (h.alike hflight rows ((hholds.canonical hflight).symm.trans hrows))
    | true =>
      have hvectors := hgood.sound.vectors
      rw [hrow] at hvectors
      exact h.legacyStaged hflight hswitching table rows H.staged hconfig hthere
        ((hvectors.2.2.2 table hconfig).2 hflight)
  · obtain ⟨legacy, hlegacy, hfacts⟩ := h.legacy
    refine ⟨legacy, hlegacy, fun state name hsome => ⟨fun hcompleted hconfigured hnone => ?_, (hfacts state name hsome).2⟩⟩
    obtain ⟨table, hconfig⟩ := Option.ne_none_iff_exists'.mp hconfigured
    refine (hfacts state name hsome).1 hcompleted table hconfig ?_
    rw [← hnone, hcanonical, hconfig]
    rfl

/-- The migration is done: the columns carry the bounds of every thread, the canonical table is migrated, and the
staging table is gone. -/
structure MigrationDone (T : MessageTimesTask) (source : Option VectorTable) (w : World) : Prop where
  completed : Completed w
  columns : ∀ id ∈ T.db.threadIds, w.columns id = T.db.messageBounds id
  table : ∀ rows, source = some rows → ∃ table rows', T.vectorConfig = some table ∧ w.tables table = some rows' ∧
    Migrated T.db.boundsForExisting rows rows' ∧ w.tables (T.stagingTable table) = none

theorem done_of_completed {H : Holding T} {source : Option VectorTable} {w : World} (hholds : H.Holds source)
    (hgood : H.Good w) (hdone : Completed w) : MigrationDone T source w := by
  have hcompleted := hdone
  obtain ⟨row, hrow, hstate⟩ := hdone
  have hphase := (hgood.row row hrow).done hstate
  rw [← hrow] at hphase
  have hrdb := hgood.sound.verified (by rw [hphase]; decide)
  have hcolumns := hgood.sound.rdb
  have hvectors := hgood.sound.vectors
  simp only [RdbSound, hrdb] at hcolumns
  simp only [Holding.VectorsSound, hphase] at hvectors
  refine ⟨hcompleted, hcolumns, fun rows hrows => ?_⟩
  rcases hvectors with ⟨-, hnone, hout, -⟩ | ⟨-, table, hconfig, htable, hstaging⟩
  · rw [hholds.canonical hout, hrows] at hnone
    cases hnone
  · exact ⟨table, H.staged, hconfig, htable, hholds.migrated rows hrows, hstaging⟩

/-- What holds between two runs. -/
structure Between (H : Holding T) (w : World) : Prop where
  good : H.Good w
  lock : w.lock = none
  strict : H.Strict w

theorem Between.reached {H : Holding T} {w : World} (h : Between H w) (hsmooth : H.Smooth) (run : CutRun) :
    H.Good (run.reached T w).2 ∧ (AwayFromCleanup T w run → H.Strict (run.reached T w).2) := by
  have hwp : Program.wp (fun _ => True) (Inv H True) (fun _ w' => H.Good w' ∧ w'.lock = none ∧ Completed w')
      (fun _ w' => w' = w) (T.apply run.self run.executionId run.holderId) w :=
    apply_resumes hsmooth h.good h.lock h.strict fun _ _ _ _ _ => rfl
  have hafter : Program.wp (fun _ => True) (Inv H True) (fun _ w' => H.Good w' ∧ w'.lock = none ∧ Completed w')
      (fun _ w' => w' = w) (run.reached T w).1 (run.reached T w).2 := hwp.after fun _ _ => trivial
  unfold AwayFromCleanup
  cases hp : (run.reached T w).1 with
  | ret a =>
    rw [hp] at hafter
    exact ⟨hafter.1, fun _ => strict_of_completed hafter.1 hafter.2.2⟩
  | fail e =>
    rw [hp] at hafter
    rw [show (run.reached T w).2 = w from hafter]
    exact ⟨h.good, fun _ => h.strict⟩
  | step label f next =>
    rw [hp] at hafter
    refine ⟨hafter.1.1, fun haway => (hafter.1.2 trivial).resolve_left fun hlabel => haway ?_⟩
    rw [hlabel]
    rfl

theorem Between.exec {H : Holding T} {w : World} (h : Between H w) (hsmooth : H.Smooth) (run : CutRun)
    (haway : AwayFromCleanup T w run) : Between H (run.exec T w) :=
  have hreached := h.reached hsmooth run
  ⟨⟨hreached.1.row, hreached.1.sound⟩, rfl, hreached.2 haway⟩

theorem loneWorld_resumable : Resumable loneTask (some [loneRow]) (loneWorld [loneRow]) where
  preflight := by decide
  threads := by decide
  vectorThreads := fun table rows hconfig hrows => by
    cases hconfig
    cases hrows
    decide
  alike := fun _ rows hrows => by
    cases hrows
    exact resolvedAlike_of_nodup (List.nodup_singleton _)
  legacyStaged := fun h => (nomatch h)
  legacy := ⟨none, rfl, fun state name h => (nomatch h)⟩

end MemoryStore.DataMigration.MessageTimesTask
