/-
Any number of executors of the message times task, each stalling between any two
of its steps while others go on.
-/
import MemoryStore.DataMigration.ClaimedRun
import MemoryStore.DataMigration.Fencing

namespace MemoryStore.DataMigration.MessageTimesTask

variable {T : MessageTimesTask}

/-! ## What a step under a lease does, whoever holds the row -/

/-- A step of the executor `i` with a lease: without the row it changes nothing, but for its operations on the
vector tables outside the transactions. -/
structure Follows (i : ℕ) (lease : TaskLease) (label : StepLabel) (s s' : World) : Prop where
  stale : ¬ Held lease s → s.lock ≠ some i → label ≠ .vector lease.fencingToken → s' = s
  token : ∀ row, s.row = some row → ∃ row', s'.row = some row' ∧ row'.fencingToken = row.fencingToken
  locked : s'.lock = s.lock ∨ s'.lock = none ∧ s.lock = some i ∨ s.lock = none ∧ s'.lock = some i ∧ Held lease s
  kept : s'.lock = some i → s'.row = s.row

section
variable {self : ℕ} {lease : TaskLease} {label : StepLabel} {s s' : World} {α : Type}

theorem Follows.same : Follows self lease label s s :=
  ⟨fun _ _ _ => rfl, fun row h => ⟨row, h, rfl⟩, .inl rfl, fun _ => rfl⟩

/-- The vector tables change, under the lock or with the label that says so. -/
theorem Follows.runTables {f : VectorTables → Except String VectorTables}
    (h : s.lock = some self ∨ label = .vector lease.fencingToken) :
    Follows self lease label s (DataMigration.runTables f s).2 := by
  unfold DataMigration.runTables
  split
  · exact ⟨fun _ hlock hlabel => (h.elim hlock hlabel).elim, fun row hrow => ⟨row, hrow, rfl⟩, .inl rfl, fun _ => rfl⟩
  · exact Follows.same

/-- A transaction that writes the row only under the lease. -/
theorem Follows.row {row : Option (TaskStateRow Checkpoint)} {columns : ℤ → MessageBounds} {lock : Option ℕ}
    (h : WritesHeld lease s.row row) (hlock : lock = none) (hwas : s.lock = none ∨ s.lock = some self) :
    Follows self lease label s { s with row, columns, lock } where
  stale := fun hheld _ _ => by
    obtain ⟨r, r', hr, hholds, -⟩ := h
    exact absurd ⟨r, hr, hholds⟩ hheld
  token := fun row' hrow' => by
    obtain ⟨r, r', hr, -, hr', htoken, -⟩ := h
    obtain rfl := Option.some.inj (hr.symm.trans hrow')
    exact ⟨r', hr', htoken⟩
  locked := by
    rcases hwas with hwas | hwas
    · exact .inl (hlock.trans hwas.symm)
    · exact .inr (.inl ⟨hlock, hwas⟩)
  kept := fun h' => by
    cases hlock.symm.trans h'

/-- A transaction that writes the row under the lease, or fails. -/
def Writes (lease : TaskLease) (f : TaskTx Checkpoint α) : Prop :=
  ∀ s, Tx.wp f (fun _ s' => WritesHeld lease s s') (fun _ => True) s

theorem writes_renew (now : ℤ) : Writes lease (renewLease lease now defaultLeaseMs) := by
  intro s
  unfold renewLease
  split
  · exact trivial
  · apply updateHeld_writes
    · exact fun _ => rfl
    · exact fun _ _ => rfl

theorem writes_save (cp : Checkpoint) (now : ℤ) : Writes lease (T.saveTx lease cp now) := by
  intro s
  unfold saveTx saveCheckpointTx
  simp only [Tx.wp_bind, Tx.wp_ensure]
  refine ⟨fun _ => ?_, fun _ => trivial⟩
  split
  · exact trivial
  · apply updateHeld_writes
    · exact fun _ => rfl
    · exact fun _ _ => rfl

theorem writes_fail (classification : String) (now : ℤ) : Writes lease (DataMigration.fail lease classification now) :=
  updateHeld_writes _ (fun _ => rfl) fun _ h => (nomatch h)

theorem writes_complete (now : ℤ) : Writes lease (complete lease now) :=
  updateHeld_writes _ (fun _ => rfl) fun _ h => (nomatch h)

/-- A program of which every step is one of an executor with its lease. -/
abbrev Fenced (self : ℕ) (lease : TaskLease) (p : TaskProgram α) : Prop := p.Each (Follows self lease)

theorem fenced_pure (a : α) : Fenced self lease (pure a : TaskProgram α) := trivial

theorem fenced_fail (e : String) : Fenced self lease (Program.fail e : TaskProgram α) := trivial

theorem fenced_read (f : World → Except String α) : Fenced self lease (readWorld f) := by
  refine Program.Each.attempt fun c s r s' h => ?_
  cases h
  exact Follows.same

theorem fenced_rowTx {f : ℤ → TaskTx Checkpoint α} (h : ∀ now, Writes lease (f now)) : Fenced self lease (rowTx f) := by
  refine Program.Each.attempt fun c s r s' hstep => ?_
  split at hstep
  · next hlock =>
    split at hstep
    · next a row hrun =>
      cases hstep
      exact Follows.row ((h c.now s.row).ok hrun) hlock (.inl hlock)
    · cases hstep
      exact Follows.same
  · cases hstep

theorem fenced_vector (f : VectorTables → Except String VectorTables) : Fenced self lease (vectorStep lease f) := by
  refine Program.Each.attempt fun c s r s' hstep => ?_
  obtain rfl : (runTables f s).2 = s' := congrArg Prod.snd (Option.some.inj hstep)
  exact Follows.runTables (.inr rfl)

theorem fenced_fencedStep (f : VectorTables → Except String VectorTables) : Fenced self lease (fencedStep self f) := by
  refine Program.Each.attempt fun c s r s' hstep => ?_
  split at hstep
  · next hlock =>
    obtain rfl : (runTables f s).2 = s' := congrArg Prod.snd (Option.some.inj hstep)
    exact Follows.runTables (.inl hlock)
  · cases hstep

theorem fenced_persist (cp : Checkpoint) : Fenced self lease (T.persist lease cp) :=
  Program.Each.lift.bind fun _ => fenced_rowTx fun now => writes_save cp now

theorem fenced_lockRow : Fenced self lease (lockRow self lease) := by
  refine Program.Each.attempt fun c s r s' hstep => ?_
  split at hstep
  · next hlock =>
    split at hstep
    · next a hrun =>
      cases hstep
      obtain ⟨row, row', hrow, hholds, -⟩ := (writes_renew c.now s.row).ok hrun
      have hheld : Held lease s := ⟨row, hrow, hholds⟩
      exact ⟨fun hnot => absurd hheld hnot, fun row h => ⟨row, h, rfl⟩, .inr (.inr ⟨hlock, rfl, hheld⟩), fun _ => rfl⟩
    · cases hstep
      exact Follows.same
  · cases hstep

theorem fenced_rollback : Fenced self lease (rollback self) := by
  refine ⟨fun c s b s' hstep => ?_, fun _ => trivial⟩
  simp only [Option.some.injEq, Prod.mk.injEq, true_and] at hstep
  subst hstep
  split
  · next hlock =>
    exact ⟨fun _ hnot => absurd hlock hnot, fun row h => ⟨row, h, rfl⟩, .inr (.inl ⟨rfl, hlock⟩), fun h => (nomatch h)⟩
  · exact Follows.same

theorem fenced_commit (label : StepLabel) (cp : Checkpoint) : Fenced self lease (T.commitFenced self lease label cp) := by
  refine Program.Each.attempt fun c s r s' hstep => ?_
  split at hstep
  · next hlock =>
    split at hstep
    · next a row hrun =>
      cases hstep
      have hwrites : Writes lease (do renewLease lease c.now defaultLeaseMs; T.saveTx lease cp c.now) := by
        intro s₀
        rw [Tx.wp_bind]
        refine (writes_renew c.now s₀).imp fun _ s₁ h₁ => (writes_save cp c.now s₁).imp fun _ s₂ h₂ => ?_
        obtain ⟨row, row₁, hrow, hholds, rfl, htoken, -⟩ := h₁
        obtain ⟨row₁', row₂, hrow₁, -, hrow₂, htoken₂, hexpires⟩ := h₂
        obtain rfl := Option.some.inj hrow₁
        exact ⟨row, row₂, hrow, hholds, hrow₂, htoken₂.trans htoken, hexpires⟩
      exact Follows.row ((hwrites s.row).ok hrun) rfl (.inr hlock)
    · cases hstep
      exact ⟨fun _ hnot => absurd hlock hnot, fun row h => ⟨row, h, rfl⟩, .inr (.inl ⟨rfl, hlock⟩), fun h => (nomatch h)⟩
  · cases hstep

theorem fenced_fenced (label : StepLabel) {body : TaskProgram Unit} (hbody : Fenced self lease body) (cp : Checkpoint) :
    Fenced self lease (T.fenced self lease label body cp) :=
  fenced_lockRow.bind fun _ => ((hbody.bind fun _ => Program.Each.lift).orElse fun e =>
    fenced_rollback.bind fun _ => fenced_fail e).bind fun _ => fenced_commit label cp

theorem fenced_renew : Fenced self lease (renew lease) := fenced_rowTx fun now => writes_renew now

end

section
variable {self : ℕ} {lease : TaskLease} {α : Type}

/-! ## Every step of a claimed run -/

theorem fenced_verifyPages : ∀ (rounds : ℕ) (after : Option ℤ), Fenced self lease (T.verifyPages (some lease) rounds after)
  | 0, _ => fenced_fail _
  | rounds + 1, after => by
    refine fenced_renew.bind fun _ => (fenced_read _).bind fun ids => ?_
    split
    · exact fenced_pure _
    · exact (fenced_read _).bind fun _ => fenced_verifyPages rounds _

theorem fenced_verifyVector : Fenced self lease (T.verifyVector (some lease)) := by
  refine (fenced_read _).bind fun checkpoint => ?_
  split
  · exact fenced_pure _
  · split
    · exact fenced_pure _
    · refine Program.Each.lift.bind fun _ => ?_
      split
      · exact fenced_fail _
      · exact (fenced_read _).bind fun _ => (fenced_vector _).bind fun _ => fenced_renew.bind fun _ =>
          (fenced_read _).bind fun _ => Program.Each.lift

theorem fenced_verifyInner : Fenced self lease (T.verifyInner (some lease)) :=
  (fenced_read _).bind fun _ => (fenced_verifyPages _ _).bind fun _ => fenced_verifyVector

theorem fenced_batchTx (ids : List ℤ) (cp : Checkpoint) : Fenced self lease (T.batchTx lease ids cp) := by
  refine Program.Each.lift.bind fun _ => Program.Each.attempt fun c s r s' hstep => ?_
  split at hstep
  · next hlock =>
    split at hstep
    · next a row hrun =>
      cases hstep
      exact Follows.row ((writes_save cp c.now s.row).ok hrun) hlock (.inl hlock)
    · cases hstep
      exact Follows.same
  · cases hstep

theorem fenced_backfillPages : ∀ (rounds : ℕ) (cp : Checkpoint), Fenced self lease (T.backfillPages lease rounds cp)
  | 0, _ => fenced_fail _
  | rounds + 1, cp => by
    refine fenced_renew.bind fun _ => (fenced_read _).bind fun ids => ?_
    split
    · exact fenced_pure _
    · exact (fenced_batchTx _ _).bind fun _ => fenced_backfillPages rounds _

theorem fenced_backfillRdb (cp : Checkpoint) : Fenced self lease (T.backfillRdb lease cp) := by
  unfold backfillRdb
  split
  · exact fenced_pure _
  · refine Program.Each.bind ?_ fun _ => (fenced_backfillPages _ _).bind fun _ => (fenced_persist _).bind fun _ =>
      fenced_verifyInner.bind fun _ => fenced_pure _
    unfold beginBackfill
    split
    · exact (fenced_persist _).bind fun _ => fenced_pure _
    · exact fenced_pure _

theorem fenced_notRequired (cp : Checkpoint) : Fenced self lease (T.notRequired lease cp) :=
  (fenced_persist _).bind fun _ => (fenced_persist _).bind fun _ => fenced_pure _

theorem fenced_adoptLegacy (table : String) (canonicalExists : Bool)
    (legacy : Option (LegacyVectorState × Option String)) (cp : Checkpoint) :
    Fenced self lease (T.adoptLegacy lease table canonicalExists legacy cp) := by
  unfold adoptLegacy
  split
  · exact fenced_pure _
  · split
    · split
      · exact Program.Each.lift.bind fun _ => (fenced_read _).bind fun _ => (fenced_persist _).bind fun _ =>
          fenced_pure _
      · split
        · exact fenced_fail _
        · exact fenced_pure _
    · exact fenced_pure _

theorem fenced_stageThread (table staging : String) (threadId : ℤ) :
    Fenced self lease (T.stageThread lease table staging threadId) := by
  refine (fenced_read _).bind fun bounds => ?_
  split
  · exact fenced_pure _
  · exact (fenced_read _).bind fun _ => (Program.Each.forEach fun _ => fenced_vector _).bind fun _ => fenced_renew

theorem fenced_stagePages (table staging : String) : ∀ (rounds : ℕ) (after : Option ℤ),
    Fenced self lease (T.stagePages lease table staging rounds after)
  | 0, _ => fenced_fail _
  | rounds + 1, after => by
    refine fenced_renew.bind fun _ => (fenced_read _).bind fun ids => ?_
    split
    · exact fenced_pure _
    · exact (Program.Each.forEach fun _ => fenced_stageThread _ _ _).bind fun _ => fenced_stagePages table staging rounds _

theorem fenced_stage (table staging : String) (cp : Checkpoint) : Fenced self lease (T.stage lease table staging cp) := by
  unfold stage
  split
  · exact fenced_pure _
  · exact (fenced_vector _).bind fun _ => (fenced_vector _).bind fun _ => (fenced_vector _).bind fun _ =>
      (fenced_stagePages _ _ _ _).bind fun _ => (fenced_read _).bind fun _ => (fenced_persist _).bind fun _ =>
        fenced_pure _

theorem fenced_beginSwitch (table staging : String) (cp : Checkpoint) :
    Fenced self lease (T.beginSwitch lease table staging cp) := by
  unfold beginSwitch
  split
  · exact fenced_pure _
  · refine (fenced_vector _).bind fun _ => (fenced_read _).bind fun _ => Program.Each.bind ?_ fun _ =>
      (fenced_persist _).bind fun _ => fenced_pure _
    refine (fenced_read _).bind fun canonicalExists => ?_
    split
    · exact (fenced_vector _).bind fun _ => fenced_read _
    · exact fenced_pure _

theorem fenced_cutover (table staging : String) (cp : Checkpoint) :
    Fenced self lease (T.cutover self lease table staging cp) := by
  unfold cutover
  split
  · exact fenced_pure _
  · refine (fenced_vector _).bind fun _ => (fenced_read _).bind fun _ =>
      (fenced_fenced _ (Program.Each.bind ?_ fun _ => (fenced_fencedStep _).bind fun _ =>
        (fenced_fencedStep _).bind fun _ => fenced_read _) _).bind fun _ => fenced_pure _
    exact (fenced_read _).bind fun _ => (fenced_fencedStep _).bind fun _ => (fenced_fencedStep _).bind fun _ =>
      Program.Each.forEach fun _ => fenced_fencedStep _

theorem fenced_buildIndexes (table staging : String) (cp : Checkpoint) :
    Fenced self lease (T.buildIndexes self lease table staging cp) := by
  unfold buildIndexes
  split
  · exact fenced_pure _
  · exact (fenced_vector _).bind fun _ => (fenced_vector _).bind fun _ => (fenced_read _).bind fun _ =>
      (fenced_fenced _ (fenced_fencedStep _) _).bind fun _ => fenced_pure _

theorem fenced_cleanupStaging (table staging : String) (cp : Checkpoint) :
    Fenced self lease (T.cleanupStaging self lease table staging cp) := by
  unfold cleanupStaging
  split
  · exact fenced_pure _
  · refine (fenced_vector _).bind fun _ => Program.Each.bind ?_ fun _ => (fenced_persist _).bind fun _ =>
      (fenced_fenced _ (fenced_fencedStep _) _).bind fun _ => fenced_pure _
    refine (fenced_read _).bind fun stagingExists => ?_
    split
    · exact (fenced_vector _).bind fun _ => fenced_read _
    · exact Program.Each.lift

theorem fenced_completedOutcome (cp : Checkpoint) : Fenced self lease (T.completedOutcome cp) := by
  refine Program.Each.lift.bind fun outcome => ?_
  split
  · split
    · exact fenced_fail _
    · exact (fenced_read _).bind fun _ => fenced_pure _
  · exact fenced_pure _

theorem fenced_migrateVector (table : String) (cp : Checkpoint) : Fenced self lease (T.migrateVector self lease table cp) :=
  Program.Each.lift.bind fun _ => (fenced_stage _ _ _).bind fun _ => Program.Each.lift.bind fun _ =>
    (fenced_read _).bind fun _ => (fenced_beginSwitch _ _ _).bind fun _ => (fenced_cutover _ _ _).bind fun _ =>
      (fenced_buildIndexes _ _ _).bind fun _ => (fenced_cleanupStaging _ _ _).bind fun _ => Program.Each.lift

theorem fenced_syncVector (cp : Checkpoint) : Fenced self lease (T.syncVector self lease cp) := by
  refine Program.Each.lift.bind fun _ => ?_
  split
  · exact fenced_completedOutcome _
  · refine Program.Each.lift.bind fun _ => ?_
    split
    · exact Program.Each.lift.bind fun _ => Program.Each.lift.bind fun _ => fenced_notRequired _
    · refine (fenced_read _).bind fun _ => (fenced_adoptLegacy _ _ _ _).bind fun _ => ?_
      split
      · exact fenced_notRequired _
      · exact fenced_migrateVector _ _

/-- **Every step of a claimed run** is one of an executor with its lease. -/
theorem fenced_runClaimed : Fenced self lease (T.runClaimed self lease) := by
  refine Program.Each.bind (Program.Each.orElse ?_ fun e => ?_) fun _ =>
    (fenced_rowTx fun now => writes_complete now).bind fun _ => fenced_pure _
  · exact Program.Each.bind ((fenced_read _).bind fun _ => (fenced_backfillRdb _).bind fun _ => fenced_syncVector _)
      fun _ => fenced_verifyInner.bind fun _ => fenced_pure _
  · exact Program.Each.bind ((fenced_rowTx fun now => writes_fail _ now).orElse fun _ => fenced_pure _) fun _ =>
      fenced_fail _

end
/-! ## The system -/

/-- An executor: what it has still to do, and the token of its claim. -/
structure Executor where
  program : TaskProgram String
  token : Option ℤ

structure Fleet where
  world : World
  executors : ℕ → Option Executor

def Fleet.put (f : Fleet) (self : ℕ) (e : Option Executor) : ℕ → Option Executor :=
  fun i => if i = self then e else f.executors i

inductive FleetEvent where
  | start (self : ℕ) (executionId holderId : String)
  | step (self : ℕ) (clock : Clock)
  | crash (self : ℕ)

/-- A crash rolls back the transaction that is open. -/
def release (w : World) (self : ℕ) : World := if w.lock = some self then { w with lock := none } else w

/-- A claim is what moves the token of the row. -/
def claimedToken (w w' : World) (token : Option ℤ) : Option ℤ :=
  if w'.row.map TaskStateRow.fencingToken = w.row.map TaskStateRow.fencingToken then token
  else w'.row.map TaskStateRow.fencingToken

def Fleet.exec (T : MessageTimesTask) : FleetEvent → Fleet → Fleet
  | .start self executionId holderId, f =>
    match f.executors self with
    | some _ => f
    | none => { f with executors := f.put self (some ⟨T.apply self executionId holderId, none⟩) }
  | .step self clock, f =>
    match f.executors self with
    | none => f
    | some e =>
      match e.program.advance clock f.world with
      | none => f
      | some (p, w) => { world := w, executors := f.put self (some ⟨p, claimedToken f.world w e.token⟩) }
  | .crash self, f => { world := release f.world self, executors := f.put self none }

/-- The row is running under the token. -/
def Current (token : ℤ) (w : World) : Prop :=
  ∃ row, w.row = some row ∧ row.state = .running ∧ row.fencingToken = token

/-- Outside the transactions that lock the row, the executor works on the vector tables only while the row is its own. -/
def KeepsUp (f : Fleet) : FleetEvent → Prop
  | .step self _ => ∀ e token, f.executors self = some e → e.program.label? = some (.vector token) →
      Current token f.world
  | _ => True

section
variable (H : Holding T)

/-- What an executor that has claimed the task goes by. -/
structure Claimed (i : ℕ) (token : ℤ) (p : TaskProgram String) (w : World) (lease : TaskLease) : Prop where
  token_eq : lease.fencingToken = token
  identity : lease.taskIdentity = T.identity
  digest : lease.canonicalDefinitionDigest = T.digest
  fenced : Fenced i lease p
  behind : ∃ row, w.row = some row ∧ token ≤ row.fencingToken
  runs : Current token w → Program.wp (fun _ => True) (Inv H False) (fun _ w' => H.Good w') (fun _ w' => H.Good w') p w

/-- An executor that has not claimed the task, and may be looking at one that is completed. -/
inductive Unclaimed (T : MessageTimesTask) (self : ℕ) : TaskProgram String → World → Prop where
  | ended {p : TaskProgram String} {w : World} : p.label? = none → Unclaimed T self p w
  | begins (executionId holderId : String) (w : World) : Unclaimed T self (T.apply self executionId holderId) w
  | looks (executionId holderId : String) (w : World) : Unclaimed T self (T.lookAndRun self executionId holderId) w
  | claims (executionId holderId : String) (w : World) : Unclaimed T self (T.claimAndRun self executionId holderId) w
  | checks {p : TaskProgram String} {w : World} : Completed w →
      Program.wp (fun _ => True) (fun _ w' => w' = w) (fun _ w' => w' = w) (fun _ w' => w' = w) p w → Unclaimed T self p w

structure FleetSafe (f : Fleet) : Prop where
  good : H.Good f.world
  claimed : ∀ i e t, f.executors i = some e → e.token = some t → ∃ lease, Claimed H i t e.program f.world lease
  unclaimed : ∀ i e, f.executors i = some e → e.token = none → Unclaimed T i e.program f.world
  distinct : ∀ i j e e' t, f.executors i = some e → f.executors j = some e' → e.token = some t → e'.token = some t →
    i = j
  lock : ∀ i, f.world.lock = some i → ∃ e t, f.executors i = some e ∧ e.token = some t ∧ Current t f.world

end

section
variable {H : Holding T} {self : ℕ} {executionId holderId : String} {c : Clock} {w w' : World} {p' : TaskProgram String}
  {lease : TaskLease} {α β : Type}

theorem held_iff (hgood : H.Good w) (hidentity : lease.taskIdentity = T.identity)
    (hdigest : lease.canonicalDefinitionDigest = T.digest) : Held lease w ↔ Current lease.fencingToken w := by
  constructor
  · rintro ⟨row, hrow, hholds⟩
    simp only [TaskLease.holds, Bool.and_eq_true, decide_eq_true_eq] at hholds
    exact ⟨row, hrow, hholds.1.2, hholds.2⟩
  · rintro ⟨row, hrow, hstate, htoken⟩
    have hok := hgood.row row hrow
    refine ⟨row, hrow, ?_⟩
    simp [TaskLease.holds, hok.identity, hok.digest, hidentity, hdigest, hstate, htoken]

/-- A read leaves the world, and its error ends the program. -/
theorem advance_read {f : World → Except String α} {next : α → TaskProgram β} {p' : TaskProgram β}
    (h : (readWorld f >>= next).advance c w = some (p', w')) :
    w' = w ∧ ((∃ e, p' = Program.fail e) ∨ ∃ a, f w = .ok a ∧ p' = next a) := by
  obtain ⟨hp, rfl⟩ := Prod.mk.inj (Option.some.inj h)
  subst hp
  refine ⟨rfl, ?_⟩
  cases hf : f w with
  | error e => exact .inl ⟨e, rfl⟩
  | ok a => exact .inr ⟨a, rfl, rfl⟩

theorem advance_claim (h : (T.claimAndRun self executionId holderId).advance c w = some (p', w')) :
    (w' = w ∧ ∃ e, p' = Program.fail e) ∨ w.lock = none ∧ ∃ lease row,
      claimTx T.identity T.digest executionId holderId c.now defaultLeaseMs w.row = .ok (lease, row) ∧
        w' = { w with row } ∧ p' = T.runClaimed self lease := by
  obtain ⟨⟨r, s'⟩, hstep, hnext⟩ := Option.map_eq_some_iff.mp h
  obtain ⟨hp, rfl⟩ := Prod.mk.inj hnext
  subst hp
  dsimp only at hstep
  split at hstep
  · next hlock =>
    split at hstep
    · next lease row hrun =>
      cases hstep
      exact .inr ⟨hlock, lease, row, hrun, rfl, rfl⟩
    · next e _ =>
      cases hstep
      exact .inl ⟨rfl, e, rfl⟩
  · cases hstep

end

/-! ## Every event keeps the fleet safe -/

section
variable {H : Holding T} {f : Fleet} {i : ℕ} {e : Executor} {t : ℤ} {w w' : World}

@[simp] theorem put_self (f : Fleet) (i : ℕ) (x : Option Executor) : f.put i x i = x := if_pos rfl

theorem put_other (f : Fleet) {i j : ℕ} (h : j ≠ i) (x : Option Executor) : f.put i x j = f.executors j := if_neg h

/-- What is known of an executor. -/
def ExecutorOk (H : Holding T) (i : ℕ) (e : Executor) (w : World) : Prop :=
  (∀ t, e.token = some t → ∃ lease, Claimed H i t e.program w lease) ∧ (e.token = none → Unclaimed T i e.program w)

/-- One executor moves, and the others are still as they were seen. -/
theorem FleetSafe.move {x : Option Executor} (h : FleetSafe H f) (hgood : H.Good w')
    (hothers : ∀ j e, j ≠ i → f.executors j = some e → ExecutorOk H j e w')
    (hself : ∀ e, x = some e → ExecutorOk H i e w' ∧
      ∀ t j e', e.token = some t → j ≠ i → f.executors j = some e' → e'.token ≠ some t)
    (hlock : ∀ j, w'.lock = some j → ∃ e t, f.put i x j = some e ∧ e.token = some t ∧ Current t w') :
    FleetSafe H { world := w', executors := f.put i x } := by
  have hok : ∀ j e, f.put i x j = some e → ExecutorOk H j e w' := by
    intro j e he
    by_cases hj : j = i
    · subst hj
      exact (hself e ((put_self f j x).symm.trans he)).1
    · exact hothers j e hj ((put_other f hj x).symm.trans he)
  refine ⟨hgood, fun j e t he => (hok j e he).1 t, fun j e he => (hok j e he).2, ?_, hlock⟩
  intro j k e e' t he he' ht ht'
  by_cases hj : j = i
  · by_cases hk : k = i
    · rw [hj, hk]
    · subst hj
      exact absurd ht' ((hself e ((put_self f j x).symm.trans he)).2 t k e' ht hk ((put_other f hk x).symm.trans he'))
  · by_cases hk : k = i
    · subst hk
      exact absurd ht ((hself e' ((put_self f k x).symm.trans he')).2 t j e ht' hj ((put_other f hj x).symm.trans he))
    · exact h.distinct j k e e' t ((put_other f hj x).symm.trans he) ((put_other f hk x).symm.trans he') ht ht'

theorem FleetSafe.ok (h : FleetSafe H f) (he : f.executors i = some e) : ExecutorOk H i e f.world :=
  ⟨fun t => h.claimed i e t he, h.unclaimed i e he⟩

/-- One executor moves and leaves the world. -/
theorem FleetSafe.stay (h : FleetSafe H f) {e' : Executor} (he : f.executors i = some e) (htoken : e'.token = e.token)
    (hok : ExecutorOk H i e' f.world) : FleetSafe H { world := f.world, executors := f.put i (some e') } := by
  refine h.move h.good (fun j e _ he => h.ok he) (fun x hx => ?_) fun j hlock => ?_
  · cases hx
    refine ⟨hok, fun t j e₁ ht hj he₁ ht₁ => hj ?_⟩
    exact h.distinct j i e₁ e t he₁ he ht₁ (htoken ▸ ht)
  · obtain ⟨e₁, t, he₁, ht, hcurrent⟩ := h.lock j hlock
    by_cases hj : j = i
    · subst hj
      obtain rfl := Option.some.inj (he.symm.trans he₁)
      exact ⟨e', t, put_self f j _, htoken.trans ht, hcurrent⟩
    · exact ⟨e₁, t, (put_other f hj _).trans he₁, ht, hcurrent⟩

theorem not_completed_of_current (h : Current t w) : ¬ Completed w := by
  rintro ⟨row, hrow, hdone⟩
  obtain ⟨row', hrow', hstate, -⟩ := h
  obtain rfl := Option.some.inj (hrow.symm.trans hrow')
  cases hdone.symm.trans hstate

/-- Who has not claimed sees the world change only while the task is not completed. -/
theorem Unclaimed.elsewhere {p : TaskProgram String} (h : Unclaimed T i p w) (hnot : ¬ Completed w) : Unclaimed T i p w' := by
  cases h with
  | ended h => exact .ended h
  | begins executionId holderId => exact .begins executionId holderId w'
  | looks executionId holderId => exact .looks executionId holderId w'
  | claims executionId holderId => exact .claims executionId holderId w'
  | checks hdone => exact absurd hdone hnot

/-- Who claimed earlier than the row's token is not current, now and later. -/
theorem Claimed.elsewhere {p : TaskProgram String} {lease : TaskLease} (h : Claimed H i t p w lease)
    (hbehind : ∃ row, w'.row = some row ∧ t ≤ row.fencingToken) (hnot : ¬ Current t w') : Claimed H i t p w' lease :=
  ⟨h.token_eq, h.identity, h.digest, h.fenced, hbehind, fun hcurrent => absurd hcurrent hnot⟩

theorem FleetSafe.start (h : FleetSafe H f) (self : ℕ) (executionId holderId : String) :
    FleetSafe H (Fleet.exec T (.start self executionId holderId) f) := by
  cases hexecutor : f.executors self with
  | some e => simpa only [Fleet.exec, hexecutor] using h
  | none =>
    simp only [Fleet.exec, hexecutor]
    refine h.move h.good (fun j e _ he => h.ok he) (fun x hx => ?_) fun j hlock => ?_
    · cases hx
      exact ⟨⟨fun t ht => (nomatch ht), fun _ => .begins executionId holderId f.world⟩, fun t j e' ht => (nomatch ht)⟩
    · obtain ⟨e, t, he, ht, hcurrent⟩ := h.lock j hlock
      by_cases hj : j = self
      · subst hj
        cases hexecutor.symm.trans he
      · exact ⟨e, t, (put_other f hj _).trans he, ht, hcurrent⟩

theorem FleetSafe.crash (h : FleetSafe H f) (self : ℕ) : FleetSafe H (Fleet.exec T (.crash self) f) := by
  by_cases hlock : f.world.lock = some self
  · have hrelease : release f.world self = { f.world with lock := none } := if_pos hlock
    obtain ⟨e, t, he, ht, hcurrent⟩ := h.lock self hlock
    refine h.move ?_ (fun j e' hj he' => ⟨fun t' ht' => ?_, fun ht' => ?_⟩) (fun x hx => (nomatch hx)) fun j hj => ?_
    · rw [hrelease]
      exact ⟨h.good.row, h.good.sound⟩
    · obtain ⟨lease, hclaimed⟩ := h.claimed j e' t' he' ht'
      rw [hrelease]
      refine ⟨lease, hclaimed.elsewhere hclaimed.behind fun hcurrent' => hj ?_⟩
      obtain ⟨row, hrow, -, htoken⟩ := hcurrent
      obtain ⟨row', hrow', -, htoken'⟩ := hcurrent'
      obtain rfl := Option.some.inj (hrow.symm.trans hrow')
      exact h.distinct j self e' e t' he' he ht' (by rw [ht, ← htoken, htoken'])
    · exact (h.unclaimed j e' he' ht').elsewhere (not_completed_of_current hcurrent)
    · rw [hrelease] at hj
      cases hj
  · have hrelease : release f.world self = f.world := if_neg hlock
    show FleetSafe H { world := release f.world self, executors := f.put self none }
    rw [hrelease]
    refine h.move h.good (fun j e _ he => h.ok he) (fun x hx => (nomatch hx)) fun j hj => ?_
    obtain ⟨e, t, he, ht, hcurrent⟩ := h.lock j hj
    refine ⟨e, t, (put_other f ?_ _).trans he, ht, hcurrent⟩
    rintro rfl
    exact hlock hj

@[simp] theorem claimedToken_same (w : World) (token : Option ℤ) : claimedToken w w token = token := if_pos rfl

/-- Without the row, a step of an executor that keeps up does nothing. -/
theorem FleetSafe.stale {c : Clock} {p' : TaskProgram String} (h : FleetSafe H f) (he : f.executors i = some e)
    (ht : e.token = some t) (hadv : e.program.advance c f.world = some (p', w'))
    (hkeep : ∀ token, e.program.label? = some (.vector token) → Current token f.world)
    (hcurrent : ¬ Current t f.world) : w' = f.world := by
  obtain ⟨lease, hc⟩ := h.claimed i e t he ht
  obtain ⟨-, label, hlabel, hfollows⟩ := hc.fenced.advance hadv
  have hnot : ¬ Held lease f.world := fun hheld =>
    hcurrent (hc.token_eq ▸ (held_iff h.good hc.identity hc.digest).mp hheld)
  have hunlocked : f.world.lock ≠ some i := fun hlock => by
    obtain ⟨e₁, t₁, he₁, ht₁, hcurrent₁⟩ := h.lock i hlock
    obtain rfl := Option.some.inj (he.symm.trans he₁)
    obtain rfl := Option.some.inj (ht.symm.trans ht₁)
    exact hcurrent hcurrent₁
  have hplain : label ≠ .vector lease.fencingToken := by
    rintro rfl
    exact hcurrent (hc.token_eq ▸ hkeep _ hlabel)
  exact hfollows.stale hnot hunlocked hplain

/-- A step of an executor that has claimed the task. -/
theorem FleetSafe.claimedStep {c : Clock} {p' : TaskProgram String} (h : FleetSafe H f) (he : f.executors i = some e)
    (ht : e.token = some t) (hadv : e.program.advance c f.world = some (p', w'))
    (hkeep : ∀ token, e.program.label? = some (.vector token) → Current token f.world) :
    FleetSafe H { world := w', executors := f.put i (some ⟨p', claimedToken f.world w' e.token⟩) } := by
  obtain ⟨lease, hc⟩ := h.claimed i e t he ht
  obtain ⟨hfenced, label, hlabel, hfollows⟩ := hc.fenced.advance hadv
  obtain ⟨row, hrow, hle⟩ := hc.behind
  obtain ⟨row', hrow', htoken⟩ := hfollows.token row hrow
  have hsame : claimedToken f.world w' e.token = e.token := by simp [claimedToken, hrow, hrow', htoken]
  rw [hsame]
  by_cases hcurrent : Current t f.world
  · have hwp := (hc.runs hcurrent).advance trivial hadv
    have hgood : H.Good w' :=
      Program.wp.now (J := H.Good) (fun _ _ h' => h'.1) (fun _ _ h' => h') (fun _ _ h' => h') hwp
    obtain ⟨row₀, hrow₀, hstate, htoken₀⟩ := hcurrent
    obtain rfl := Option.some.inj (hrow.symm.trans hrow₀)
    -- no other executor has the token
    have halone : ∀ j e₁ t₁, f.executors j = some e₁ → e₁.token = some t₁ → t₁ = row.fencingToken → j = i :=
      fun j e₁ t₁ he₁ ht₁ heq => h.distinct j i e₁ e t he₁ he (by rw [ht₁, heq, htoken₀]) ht
    refine h.move hgood (fun j e₁ hj he₁ => ⟨fun t₁ ht₁ => ?_, fun ht₁ => ?_⟩) (fun x hx => ?_) fun j hlock => ?_
    · obtain ⟨lease₁, hc₁⟩ := h.claimed j e₁ t₁ he₁ ht₁
      obtain ⟨row₁, hrow₁, hle₁⟩ := hc₁.behind
      obtain rfl := Option.some.inj (hrow.symm.trans hrow₁)
      refine ⟨lease₁, hc₁.elsewhere ⟨row', hrow', htoken ▸ hle₁⟩ fun hcurrent₁ => hj ?_⟩
      obtain ⟨row₂, hrow₂, -, htoken₂⟩ := hcurrent₁
      obtain rfl := Option.some.inj (hrow'.symm.trans hrow₂)
      exact halone j e₁ t₁ he₁ ht₁ (by rw [← htoken₂, htoken])
    · exact (h.unclaimed j e₁ he₁ ht₁).elsewhere (not_completed_of_current ⟨row, hrow, hstate, htoken₀⟩)
    · cases hx
      refine ⟨⟨fun t' ht' => ?_, fun ht' => ?_⟩, fun t' j e₁ ht' hj he₁ ht₁ => hj ?_⟩
      · obtain rfl := Option.some.inj (ht.symm.trans ht')
        exact ⟨lease, hc.token_eq, hc.identity, hc.digest, hfenced, ⟨row', hrow', htoken ▸ hle⟩, fun _ => hwp⟩
      · cases ht.symm.trans ht'
      · exact h.distinct j i e₁ e t' he₁ he ht₁ ht'
    · have hself : j = i := by
        rcases hfollows.locked with hl | ⟨hl, -⟩ | ⟨-, hl, -⟩
        · obtain ⟨e₁, t₁, he₁, ht₁, row₁, hrow₁, -, htoken₁⟩ := h.lock j (hl ▸ hlock)
          obtain rfl := Option.some.inj (hrow.symm.trans hrow₁)
          exact halone j e₁ t₁ he₁ ht₁ htoken₁.symm
        · cases hl.symm.trans hlock
        · exact Option.some.inj (hlock.symm.trans hl)
      subst hself
      refine ⟨⟨p', e.token⟩, t, put_self f j _, ht, row, ?_, hstate, htoken₀⟩
      rw [hfollows.kept hlock, hrow]
  · obtain rfl := h.stale he ht hadv hkeep hcurrent
    refine h.stay he rfl ⟨fun t' ht' => ?_, fun ht' => ?_⟩
    · obtain rfl := Option.some.inj (ht.symm.trans ht')
      exact ⟨lease, hc.token_eq, hc.identity, hc.digest, hfenced, hc.behind, fun hcurrent' => absurd hcurrent' hcurrent⟩
    · cases ht.symm.trans ht'

/-- An executor that sees the completed row checks it, and leaves everything. -/
theorem checks_of_completed (hgood : H.Good w) (hdone : Completed w) :
    Program.wp (fun _ => True) (fun _ w' => w' = w) (fun _ w' => w' = w) (fun _ w' => w' = w)
      (do T.verifyInner none; pure "already_completed" : TaskProgram String) w := by
  obtain ⟨row, hrow, hstate⟩ := hdone
  have hphase := (hgood.row row hrow).done hstate
  have hrdb : (storedCheckpoint w.row).rdbPhase = .verified := hgood.sound.verified (by rw [hrow, hphase]; decide)
  have hverifiable : Verifiable H False none (fun _ w' => w' = w) (fun _ w' => w' = w) (storedCheckpoint w.row)
      (fun w' => w' = w) :=
    ⟨fun _ _ h => h, fun _ h => h, fun _ _ h _ => h, fun _ h => h ▸ hgood, fun _ h => h ▸ rfl, hrdb,
      .inr (hrow ▸ hphase)⟩
  exact Program.wp_bind.mpr ((hverifiable.verifyInner False.elim False.elim rfl).imp fun _ _ h => h)

/-- A step of an executor that has not claimed the task. -/
theorem FleetSafe.unclaimedStep {c : Clock} {p' : TaskProgram String} (h : FleetSafe H f) (he : f.executors i = some e)
    (ht : e.token = none) (hadv : e.program.advance c f.world = some (p', w')) :
    FleetSafe H { world := w', executors := f.put i (some ⟨p', claimedToken f.world w' e.token⟩) } := by
  have hstay : ∀ p, Unclaimed T i p f.world →
      FleetSafe H { world := f.world, executors := f.put i (some ⟨p, claimedToken f.world f.world e.token⟩) } := by
    intro p hp
    rw [claimedToken_same, ht]
    exact h.stay he ht.symm ⟨fun t ht' => (by cases ht'), fun _ => hp⟩
  have hu := h.unclaimed i e he ht
  revert hu
  generalize hp : e.program = p at hadv
  intro hu
  cases hu with
  | ended hlabel =>
    cases p with
    | ret a => cases hadv
    | fail e => cases hadv
    | step label g next => cases hlabel
  | begins executionId holderId =>
    obtain ⟨rfl, ⟨e', rfl⟩ | ⟨a, -, rfl⟩⟩ := advance_read hadv
    · exact hstay _ (.ended rfl)
    · exact hstay _ (.looks executionId holderId _)
  | looks executionId holderId =>
    obtain ⟨rfl, ⟨e', rfl⟩ | ⟨existing, hexisting, rfl⟩⟩ := advance_read hadv
    · exact hstay _ (.ended rfl)
    · obtain rfl := Except.ok.inj hexisting
      refine hstay _ ?_
      split
      · next hdone =>
        have hcompleted : Completed f.world := by
          obtain ⟨row, hrow, hstate⟩ := (Option.any_eq_true _ _).mp hdone
          exact ⟨row, hrow, of_decide_eq_true hstate⟩
        exact .checks hcompleted (checks_of_completed h.good hcompleted)
      · exact .claims executionId holderId _
  | claims executionId holderId =>
    obtain ⟨rfl, e', rfl⟩ | ⟨hlock, lease, row, hclaim, rfl, rfl⟩ := advance_claim hadv
    · exact hstay _ (.ended rfl)
    · obtain ⟨hat, hnot, hidentity, hdigest, hnext⟩ := claim_at h.good hlock (fun hs : False => hs.elim) hclaim
      obtain ⟨row', hrow', hholds⟩ := hat.held
      have htoken' : row'.fencingToken = lease.fencingToken ∧ row'.state = .running := by
        simp only [TaskLease.holds, Bool.and_eq_true, decide_eq_true_eq] at hholds
        exact ⟨hholds.2, hholds.1.2⟩
      have hnew : claimedToken f.world { f.world with row } e.token = some lease.fencingToken := by
        obtain rfl : row = some row' := hrow'
        rw [claimedToken, if_neg]
        · simp [htoken'.1]
        · intro hsame
          cases hold : f.world.row with
          | none => simp [hold] at hsame
          | some row₀ =>
            have := hnext row₀ hold
            simp [hold, htoken'.1] at hsame
            omega
      -- whoever claimed before is behind
      have hbehind : ∀ j e₁ t₁, f.executors j = some e₁ → e₁.token = some t₁ → t₁ < lease.fencingToken := by
        intro j e₁ t₁ he₁ ht₁
        obtain ⟨lease₁, hc₁⟩ := h.claimed j e₁ t₁ he₁ ht₁
        obtain ⟨row₁, hrow₁, hle₁⟩ := hc₁.behind
        have := hnext row₁ hrow₁
        omega
      rw [hnew]
      refine h.move hat.good (fun j e₁ hj he₁ => ⟨fun t₁ ht₁ => ?_, fun ht₁ => ?_⟩) (fun x hx => ?_) fun j hl => ?_
      · obtain ⟨lease₁, hc₁⟩ := h.claimed j e₁ t₁ he₁ ht₁
        have hlt := hbehind j e₁ t₁ he₁ ht₁
        refine ⟨lease₁, hc₁.elsewhere ⟨row', hrow', by omega⟩ ?_⟩
        rintro ⟨row₂, hrow₂, -, htoken₂⟩
        obtain rfl := Option.some.inj (hrow'.symm.trans hrow₂)
        omega
      · exact (h.unclaimed j e₁ he₁ ht₁).elsewhere hnot
      · cases hx
        refine ⟨⟨fun t' ht' => ?_, fun ht' => (by cases ht')⟩, fun t' j e₁ ht' hj he₁ ht₁ => ?_⟩
        · obtain rfl := Option.some.inj ht'
          refine ⟨lease, rfl, hidentity, hdigest, fenced_runClaimed, ⟨row', hrow', by omega⟩, fun _ => ?_⟩
          exact (runs_runClaimed False.elim hat).mono (fun _ _ h' => h'.1) fun _ _ h' => h'.2.1
        · obtain rfl := Option.some.inj ht'
          have := hbehind j e₁ _ he₁ ht₁
          omega
      · cases hlock.symm.trans hl
  | checks hdone hwp =>
    have hwp' := hwp.advance trivial hadv
    have hsame : w' = f.world :=
      Program.wp.now (J := fun w' => w' = f.world) (fun _ _ h' => h') (fun _ _ h' => h') (fun _ _ h' => h') hwp'
    subst hsame
    exact hstay _ (.checks hdone hwp')

/-- **One event** keeps the fleet safe. -/
theorem FleetSafe.exec (h : FleetSafe H f) (event : FleetEvent) (hkeep : KeepsUp f event) :
    FleetSafe H (Fleet.exec T event f) := by
  cases event with
  | start self executionId holderId => exact h.start self executionId holderId
  | crash self => exact h.crash self
  | step self clock =>
    cases he : f.executors self with
    | none => simpa only [Fleet.exec, he] using h
    | some e =>
      cases hadv : e.program.advance clock f.world with
      | none => simpa only [Fleet.exec, he, hadv] using h
      | some r =>
        simp only [Fleet.exec, he, hadv]
        cases ht : e.token with
        | none => exact ht ▸ h.unclaimedStep he ht hadv
        | some t => exact ht ▸ h.claimedStep he ht hadv fun token hlabel => hkeep e token he hlabel

end

end MemoryStore.DataMigration.MessageTimesTask
