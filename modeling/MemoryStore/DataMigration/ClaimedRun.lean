/-
A whole run of the message times task: from the claim, which may find the task at
any point an earlier run was cut off, to the row that says it is completed.
-/
import MemoryStore.DataMigration.VectorPhases

namespace MemoryStore.DataMigration.MessageTimesTask

variable {T : MessageTimesTask}

section
variable {H : Holding T} {smooth : Prop} {self : ℕ} {lease : TaskLease} {cp : Checkpoint} {w : World}

/-- The row says that the task is completed. -/
def Completed (w : World) : Prop := ∃ row, w.row = some row ∧ row.state = .completed

/-- A claim finds the row with no live lease and raises its token; the checkpoint stays. -/
theorem claim_at {executionId holderId : String} {c : Clock} {row : Option (TaskStateRow Checkpoint)}
    (hgood : H.Good w) (hlock : w.lock = none)
    (hstrict : smooth → H.Strict w)
    (h : claimTx T.identity T.digest executionId holderId c.now defaultLeaseMs w.row = .ok (lease, row)) :
    At H smooth lease (storedCheckpoint w.row) { w with row } ∧ ¬ Completed w ∧ lease.taskIdentity = T.identity ∧
      lease.canonicalDefinitionDigest = T.digest ∧
      ∀ row, w.row = some row → row.fencingToken + 1 = lease.fencingToken := by
  obtain ⟨row₀, expiresAt, hrow₀, hidentity, hdigest, hstate, -, rfl, rfl⟩ := claimTx_row h
  have hstored : storedCheckpoint (some row₀) = storedCheckpoint w.row := by
    rw [hrow₀]
    cases w.row <;> rfl
  have hok : RowOk T (claimedRow executionId holderId c.now expiresAt (row₀.fencingToken + 1) row₀) := by
    refine ⟨hidentity, hdigest, fun e he => ?_, fun h' => (nomatch h')⟩
    cases hw : w.row with
    | none =>
      rw [hw] at hrow₀
      subst hrow₀
      cases he
    | some row₁ =>
      rw [hw] at hrow₀
      exact (hgood.row row₁ hw).envelope e (by rw [hrow₀] at he; exact he)
  refine ⟨⟨⟨_, rfl, ?_⟩, hlock, hstored, ⟨fun row hrow => Option.some.inj hrow ▸ hok, ?_⟩, fun hs => ?_⟩, ?_, rfl, rfl, ?_⟩
  · simp [TaskLease.holds, claimedRow, hidentity, hdigest]
  · show H.Sound (storedCheckpoint (some row₀)) w.columns w.tables
    rw [hstored]
    exact hgood.sound
  · show (storedCheckpoint (some row₀)).vectorPhase = _ → _
    rw [hstored]
    exact hstrict hs
  · rintro ⟨row, hrow, hdone⟩
    rw [hrow] at hrow₀
    subst hrow₀
    exact hstate hdone
  · intro row hrow
    rw [hrow] at hrow₀
    subst hrow₀
    rfl

theorem runs_applyWithLease (hsmooth : smooth → H.Smooth) (h : At H smooth lease cp w) :
    Runs H smooth lease (T.applyWithLease self lease) (fun _ w' => Ended H smooth lease w') w := by
  have hload : T.loadCheckpoint w = .ok cp := by
    have hstored := h.stored
    obtain ⟨row, hrow, -⟩ := h.held
    have hok := h.good.row row hrow
    rw [loadCheckpoint, hrow]
    simp only [check_ok.mpr (decide_eq_true hok.digest)]
    rw [hrow] at hstored
    cases hcp : row.checkpoint with
    | none =>
      rw [← hstored]
      simp [storedCheckpoint, hcp]
      rfl
    | some e =>
      have hpayload : e.payload = cp := by
        rw [← hstored]
        simp [storedCheckpoint, hcp]
      rw [hok.envelope e hcp, hpayload]
      simp only [envelope, decide_true, Bool.and_self, check, if_true, h.sound.valid]
      rfl
  refine Program.wp_bind.mpr (runs_read h (not_of_ok hload) fun cp' hcp' => ?_)
  obtain rfl := Except.ok.inj (hload.symm.trans hcp')
  exact Program.wp_bind.mpr ((runs_backfillRdb hsmooth h).imp fun cp₁ w₁ h₁ => runs_syncVector hsmooth h₁.1 h₁.2)

theorem runs_fail {e : String} (h : Fails H smooth lease e w) {Q : Unit → World → Prop}
    {E : String → World → Prop} (hQ : ∀ w', H.Good w' → w'.lock = none → Q () w') :
    Program.wp (fun _ => True) (Inv H smooth) Q E
      (rowTx fun now => DataMigration.fail lease "task_execution_failed" now) w := by
  obtain ⟨hs, ⟨row, hrow, hholds⟩, hlock, hgood⟩ := h
  refine Program.wp_attempt.mpr ⟨⟨hgood, fun hs' => absurd hs' hs⟩, fun c _ => ⟨.ok (), { w with
    row := some { row with
      state := .failed, heartbeatAt := none, leaseExpiresAt := none
      failureClassification := some "task_execution_failed", updatedAt := c.now } }, ?_, hQ _ ⟨?_, ?_⟩ hlock⟩⟩
  · simp only [hlock, if_true, hrow]
    rw [DataMigration.fail, updateHeld_run hholds]
  · intro row' hrow'
    cases hrow'
    exact (hgood.row row hrow).congr rfl rfl rfl fun h' => (nomatch h')
  · have hsound := hgood.sound
    rw [hrow] at hsound
    exact hsound

/-- A run that ends well leaves the row completed. -/
theorem runs_complete (h : Ended H smooth lease w) {Q : Unit → World → Prop} {E : String → World → Prop}
    (hQ : ∀ w', H.Good w' → w'.lock = none → Completed w' → Q () w') :
    Program.wp (fun _ => True) (Inv H smooth) Q E (rowTx fun now => complete lease now) w := by
  obtain ⟨cp, h, hrdb, hphase⟩ := h
  obtain ⟨row, hrow, hholds⟩ := h.held
  have hstored := h.stored
  rw [hrow] at hstored
  refine Program.wp_attempt.mpr ⟨h.inv .plain, fun c _ => ⟨.ok (), { w with
    row := some { row with
      state := .completed, heartbeatAt := none, leaseExpiresAt := none, completedAt := some c.now
      updatedAt := c.now } }, ?_, hQ _ ⟨?_, ?_⟩ h.lock ⟨_, rfl, rfl⟩⟩⟩
  · simp only [h.lock, if_true, hrow]
    rw [complete, updateHeld_run hholds]
  · intro row' hrow'
    cases hrow'
    have hok := h.good.row row hrow
    refine ⟨hok.identity, hok.digest, hok.envelope, fun _ => ?_⟩
    show (storedCheckpoint (some row)).vectorPhase = _
    rw [hstored]
    exact hphase
  · have hsound := h.good.sound
    rw [hrow] at hsound
    exact hsound

/-- **A claimed run** ends with the row completed, or, having met an obstacle, gives the task up. -/
theorem runs_runClaimed (hsmooth : smooth → H.Smooth) (h : At H smooth lease cp w) :
    Program.wp (fun _ => True) (Inv H smooth) (fun _ w' => H.Good w' ∧ w'.lock = none ∧ Completed w')
      (fun _ w' => ¬ smooth ∧ H.Good w' ∧ w'.lock = none) (T.runClaimed self lease) w := by
  refine Program.wp_bind.mpr (Program.wp_orElse.mpr ?_)
  have hbody : Runs H smooth lease (do
      let outcome ← T.applyWithLease self lease
      T.verifyInner (some lease)
      pure outcome : TaskProgram String) (fun _ w' => Ended H smooth lease w') w := by
    refine Program.wp_bind.mpr ((runs_applyWithLease hsmooth h).imp fun outcome w₁ h₁ => ?_)
    obtain ⟨cp₁, h₁, hrdb, hphase⟩ := h₁
    exact Program.wp_bind.mpr (((At.verifiable hrdb (.inr hphase)).verifyInner (fun hs => (hsmooth hs).preflight)
      (fun hs => (hsmooth hs).threads) h₁).imp fun _ w₂ h₂ => ⟨cp₁, h₂, hrdb, hphase⟩)
  refine hbody.mono (fun outcome w₁ h₁ => ?_) fun e w₁ h₁ => ?_
  · exact Program.wp_bind.mpr (runs_complete h₁ fun w₂ hgood hlock hdone => ⟨hgood, hlock, hdone⟩)
  · refine Program.wp_bind.mpr (Program.wp_orElse.mpr (runs_fail h₁ fun w₂ hgood hlock => ?_))
    exact ⟨h₁.1, hgood, hlock⟩

end

end MemoryStore.DataMigration.MessageTimesTask
