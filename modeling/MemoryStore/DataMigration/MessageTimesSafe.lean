/-
What a run of the message times task keeps, at every step it takes: the rows that
must survive are in the canonical table or in the staging table, and the checkpoint
says no more than the database and the vector tables hold.
-/
import MemoryStore.DataMigration.MessageTimes

namespace MemoryStore.DataMigration.MessageTimesTask

variable (T : MessageTimesTask)

/-! ## What has to survive -/

/-- The legacy migration had staged a table, or begun to switch to it. -/
def legacyInFlight : Bool :=
  match T.legacyVectorState with
  | .ok (some (state, _)) => state = .staged || state = .switching
  | _ => false

/-- The legacy migration had begun to switch. -/
def legacySwitching : Bool :=
  match T.legacyVectorState with
  | .ok (some (state, _)) => state = .switching
  | _ => false

def stagingTable (table : String) : String :=
  if T.legacyInFlight then legacyStagingName table else currentStagingName table

def originName : String := if T.legacyInFlight then "legacy_thread_time_fields_v1" else "current_task"

/-- What there was when the task began: the canonical table, and the rows that are to replace it. -/
structure Holding where
  canonical : Option VectorTable
  staged : VectorTable
  unconfigured : T.vectorConfig = none → canonical = none
  clean : Clean T.db.boundsForExisting staged
  staged_eq : T.legacyInFlight = false → ∀ rows, canonical = some rows → staged = stagedRows T.db.boundsForExisting rows

variable {T}

/-- The ids after a mark. -/
def remaining (ids : List ℤ) (after : Option ℤ) : List ℤ := ids.filter fun id => after.all (· < id)

/-- What the columns hold in each phase. -/
def RdbSound (T : MessageTimesTask) (cp : Checkpoint) (columns : ℤ → MessageBounds) : Prop :=
  match cp.rdbPhase with
  | .pending => True
  | .backfilling =>
    ∀ id ∈ T.db.threadIds, id ∉ remaining T.db.threadIds cp.rdbLastThreadId → columns id = T.db.messageBounds id
  | .verified => ∀ id ∈ T.db.threadIds, columns id = T.db.messageBounds id

/-- The checkpoint names the canonical and the staging table. -/
structure Named (T : MessageTimesTask) (table : String) (cp : Checkpoint) : Prop where
  config : T.vectorConfig = some table
  canonical : cp.canonicalTableName = some table
  staging : cp.stagingTableName = some (T.stagingTable table)
  origin : cp.stagingOrigin = some T.originName

/-- What the vector tables hold in each phase. -/
def Holding.VectorsSound (H : Holding T) (cp : Checkpoint) (tables : VectorTables) : Prop :=
  match cp.vectorPhase with
  | .pending => cp.stagingTableName = none ∧ cp.stagingOrigin = none ∧ cp.vectorOutcome = none ∧
      ∀ table, T.vectorConfig = some table →
        tables table = H.canonical ∧ (T.legacyInFlight → tables (legacyStagingName table) = some H.staged)
  | .notRequired => cp.stagingTableName = none ∧ cp.stagingOrigin = none ∧ H.canonical = none ∧
      T.legacyInFlight = false ∧ ∀ table, T.vectorConfig = some table → tables table = none
  | .staged => T.legacySwitching = false ∧ ∃ table, Named T table cp ∧ tables table = H.canonical ∧
      tables (T.stagingTable table) = some H.staged
  | .switching => ∃ table, Named T table cp ∧ tables (T.stagingTable table) = some H.staged
  | .canonicalReady => ∃ table, Named T table cp ∧ tables table = some H.staged ∧
      tables (T.stagingTable table) = some H.staged
  | .indexesVerified => ∃ table, Named T table cp ∧ tables table = some H.staged ∧
      (tables (T.stagingTable table) = some H.staged ∨
        cp.stagingCleanupStarted = true ∧ tables (T.stagingTable table) = none)
  | .completed =>
    (cp.vectorOutcome = some "not_required" ∧ H.canonical = none ∧ T.legacyInFlight = false ∧
      ∀ table, T.vectorConfig = some table → tables table = none) ∨
    cp.vectorOutcome = some "migrated" ∧ ∃ table, T.vectorConfig = some table ∧ tables table = some H.staged ∧
      tables (T.stagingTable table) = none

/-- A checkpoint that says no more than the database and the vector tables hold. -/
structure Holding.Sound (H : Holding T) (cp : Checkpoint) (columns : ℤ → MessageBounds) (tables : VectorTables) :
    Prop where
  valid : cp.validate = .ok ()
  rdb : RdbSound T cp columns
  verified : cp.vectorPhase ≠ .pending → cp.rdbPhase = .verified
  vectors : H.VectorsSound cp tables

/-- The checkpoint of a row, as the task reads it. -/
def storedCheckpoint (row : Option (TaskStateRow Checkpoint)) : Checkpoint :=
  ((row.bind TaskStateRow.checkpoint).map TaskCheckpointEnvelope.payload).getD {}

structure RowOk (T : MessageTimesTask) (row : TaskStateRow Checkpoint) : Prop where
  identity : row.taskIdentity = T.identity
  digest : row.canonicalDefinitionDigest = T.digest
  envelope : ∀ e, row.checkpoint = some e → e = T.envelope e.payload
  done : row.state = .completed → (storedCheckpoint (some row)).vectorPhase = .completed

structure Holding.Good (H : Holding T) (w : World) : Prop where
  row : ∀ row, w.row = some row → RowOk T row
  sound : H.Sound (storedCheckpoint w.row) w.columns w.tables

/-- The staging table is still there when the indexes are verified. -/
def Holding.Strict (H : Holding T) (w : World) : Prop :=
  (storedCheckpoint w.row).vectorPhase = .indexesVerified → ∀ table, T.vectorConfig = some table →
    w.tables (T.stagingTable table) = some H.staged

/-- What a run that meets no obstacle can rely on. -/
structure Holding.Smooth (H : Holding T) : Prop where
  preflight : T.db.preflight = .ok ()
  threads : T.db.threadIds.length < T.rounds
  vectorThreads : ∀ rows, H.canonical = some rows → rows.uniqueThreadIds.length < T.rounds
  staging : T.legacySwitching = false → ∀ rows, H.canonical = some rows →
    verifyStagingAgainstCanonical T.db.boundsForExisting rows H.staged = .ok ()
  legacy : ∃ legacy, T.legacyVectorState = .ok legacy ∧ ∀ state name, legacy = some (state, name) →
    (state = .completed → T.vectorConfig ≠ none → H.canonical ≠ none) ∧
      (state = .staged ∨ state = .switching → ∃ table, T.vectorConfig = some table ∧ name = some (legacyStagingName table))

/-! ## Conditions on a run -/

section
variable (H : Holding T) (smooth : Prop)

/-- Holds wherever the run may be cut. -/
def Inv (label : StepLabel) (w : World) : Prop := H.Good w ∧ (smooth → label = .cleanupCommit ∨ H.Strict w)

/-- The row is held under the lease. -/
def Held (lease : TaskLease) (w : World) : Prop := ∃ row, w.row = some row ∧ lease.holds row = true

/-- Between two steps of a run that holds the lease, with the checkpoint it goes by. -/
structure At (lease : TaskLease) (cp : Checkpoint) (w : World) : Prop where
  held : Held lease w
  lock : w.lock = none
  stored : storedCheckpoint w.row = cp
  good : H.Good w
  strict : smooth → H.Strict w

/-- A run with an obstacle may end with an error, still holding the lease. -/
def Fails (lease : TaskLease) (_ : String) (w : World) : Prop :=
  ¬ smooth ∧ Held lease w ∧ w.lock = none ∧ H.Good w

/-- A piece of a run under the lease. -/
abbrev Runs {α : Type} (lease : TaskLease) (p : TaskProgram α) (Q : α → World → Prop) (w : World) : Prop :=
  Program.wp (fun _ => True) (Inv H smooth) Q (Fails H smooth lease) p w

variable {H : Holding T} {smooth : Prop} {lease : TaskLease} {cp cp' : Checkpoint} {w : World} {α : Type}

theorem At.inv (h : At H smooth lease cp w) (label : StepLabel) : Inv H smooth label w :=
  ⟨h.good, fun hs => .inr (h.strict hs)⟩

theorem At.fails (h : At H smooth lease cp w) (hs : ¬ smooth) (e : String) : Fails H smooth lease e w :=
  ⟨hs, h.held, h.lock, h.good⟩

theorem At.sound (h : At H smooth lease cp w) : H.Sound cp w.columns w.tables := h.stored ▸ h.good.sound

/-! ## Steps under the lease -/

theorem runs_read {f : World → Except String α} {Q : α → World → Prop} (h : At H smooth lease cp w)
    (hf : ∀ e, f w = .error e → ¬ smooth) (hQ : ∀ a, f w = .ok a → Q a w) : Runs H smooth lease (readWorld f) Q w := by
  refine Program.wp_attempt.mpr ⟨h.inv .plain, fun _ _ => ⟨f w, w, rfl, ?_⟩⟩
  cases hr : f w with
  | ok a => exact hQ a hr
  | error e => exact h.fails (hf e hr) e

theorem runs_lift {r : Except String α} {Q : α → World → Prop} (h : At H smooth lease cp w)
    (hr : ∀ e, r = .error e → ¬ smooth) (hQ : ∀ a, r = .ok a → Q a w) : Runs H smooth lease (Program.lift r) Q w := by
  refine Program.wp_lift.mpr ?_
  cases hr' : r with
  | ok a => exact hQ a hr'
  | error e => exact h.fails (hr e hr') e

theorem runs_rowTx {f : ℤ → TaskTx Checkpoint α} {Q : α → World → Prop} (h : At H smooth lease cp w)
    (hf : ∀ c : Clock, ∃ a row, f c.now w.row = .ok (a, row) ∧ Q a { w with row }) :
    Runs H smooth lease (rowTx f) Q w := by
  refine Program.wp_attempt.mpr ⟨h.inv .plain, fun c _ => ?_⟩
  obtain ⟨a, row, hrun, hQ⟩ := hf c
  exact ⟨.ok a, { w with row }, by simp [h.lock, hrun], hQ⟩

theorem checkedAdd_clock (c : Clock) : checkedAdd c.now defaultLeaseMs = some (c.now + defaultLeaseMs) :=
  if_pos c.fits

/-- The row after a renewal. -/
def renewed (c : Clock) (row : TaskStateRow Checkpoint) : TaskStateRow Checkpoint :=
  { row with heartbeatAt := some c.now, leaseExpiresAt := some (c.now + defaultLeaseMs), updatedAt := c.now }

/-- The row after a checkpoint. -/
def saved (T : MessageTimesTask) (cp : Checkpoint) (c : Clock) (row : TaskStateRow Checkpoint) :
    TaskStateRow Checkpoint :=
  { renewed c row with checkpoint := some (T.envelope cp) }

theorem renewLease_run {row : TaskStateRow Checkpoint} (h : lease.holds row = true) (c : Clock) :
    renewLease lease c.now defaultLeaseMs (some row) = .ok ((), some (renewed c row)) := by
  simp only [renewLease, checkedAdd_clock]
  exact updateHeld_run h _ _

theorem saveTx_run {row : TaskStateRow Checkpoint} (h : lease.holds row = true) (hrow : RowOk T row) (c : Clock)
    (cp : Checkpoint) :
    T.saveTx lease cp c.now (some row) = .ok ((), some (saved T cp c row)) := by
  have hids : (T.envelope cp).taskIdentity = lease.taskIdentity ∧
      (T.envelope cp).canonicalDefinitionDigest = lease.canonicalDefinitionDigest := by
    simp only [TaskLease.holds, Bool.and_eq_true, decide_eq_true_eq] at h
    exact ⟨hrow.identity.symm.trans h.1.1.1, hrow.digest.symm.trans h.1.1.2⟩
  simp only [saveTx, saveCheckpointTx, hids.1, hids.2, decide_true, Bool.and_self, Tx.ensure, if_true,
    checkedAdd_clock]
  exact updateHeld_run h (saved T cp c) _

/-- A row that keeps its identity, its checkpoint, its state and its token. -/
theorem RowOk.congr {row row' : TaskStateRow Checkpoint} (h : RowOk T row) (hid : row'.taskIdentity = row.taskIdentity)
    (hdigest : row'.canonicalDefinitionDigest = row.canonicalDefinitionDigest)
    (hcp : row'.checkpoint = row.checkpoint) (hstate : row'.state = .completed → row.state = .completed) :
    RowOk T row' where
  identity := hid.trans h.identity
  digest := hdigest.trans h.digest
  envelope := by rw [hcp]; exact h.envelope
  done := by
    intro hdone
    simpa [storedCheckpoint, hcp] using h.done (hstate hdone)

/-- The row after a write that keeps the lease, and the checkpoint that it holds. -/
theorem At.write {row' : TaskStateRow Checkpoint} {columns : ℤ → MessageBounds} {tables : VectorTables}
    (h : At H smooth lease cp w) (hrow' : RowOk T row') (hholds : lease.holds row' = true)
    (hstored : storedCheckpoint (some row') = cp') (hsound : H.Sound cp' columns tables)
    (hstrict : smooth → cp'.vectorPhase = .indexesVerified → ∀ table, T.vectorConfig = some table →
      tables (T.stagingTable table) = some H.staged) :
    At H smooth lease cp' { w with row := some row', columns, tables } where
  held := ⟨row', rfl, hholds⟩
  lock := h.lock
  stored := hstored
  good := ⟨fun row hrow => Option.some.inj hrow ▸ hrow', hstored ▸ hsound⟩
  strict := fun hs => by
    show (storedCheckpoint (some row')).vectorPhase = .indexesVerified → _
    rw [hstored]
    exact hstrict hs

theorem At.strict' (h : At H smooth lease cp w) (hs : smooth) : cp.vectorPhase = .indexesVerified →
    ∀ table, T.vectorConfig = some table → w.tables (T.stagingTable table) = some H.staged :=
  h.stored ▸ h.strict hs

theorem runs_renew (h : At H smooth lease cp w) :
    Runs H smooth lease (renew lease) (fun _ w' => At H smooth lease cp w' ∧ w'.tables = w.tables) w := by
  obtain ⟨row, hrow, hholds⟩ := h.held
  refine runs_rowTx h fun c => ⟨(), some (renewed c row), by rw [hrow]; exact renewLease_run hholds c, ?_, rfl⟩
  exact h.write ((h.good.row row hrow).congr rfl rfl rfl fun hdone => hdone) hholds
    ((congrArg storedCheckpoint hrow.symm).trans h.stored) h.sound h.strict'

/-- A checkpoint is saved. -/
theorem At.save {row : TaskStateRow Checkpoint} {columns : ℤ → MessageBounds} {tables : VectorTables}
    (h : At H smooth lease cp w) (hrow : w.row = some row) (hholds : lease.holds row = true) (c : Clock)
    (hsound : H.Sound cp' columns tables)
    (hstrict : smooth → cp'.vectorPhase = .indexesVerified → ∀ table, T.vectorConfig = some table →
      tables (T.stagingTable table) = some H.staged) :
    At H smooth lease cp' { w with columns, tables, row := some (saved T cp' c row) } := by
  have hok := h.good.row row hrow
  have hrunning : row.state = .running := by
    simp only [TaskLease.holds, Bool.and_eq_true, decide_eq_true_eq] at hholds
    exact hholds.1.2
  refine h.write ⟨hok.identity, hok.digest, ?_, ?_⟩ hholds rfl hsound hstrict
  · intro e he
    cases he
    rfl
  · intro hdone
    cases hrunning.symm.trans hdone

theorem runs_persist (h : At H smooth lease cp w) (hsound : H.Sound cp' w.columns w.tables)
    (hstrict : smooth → cp'.vectorPhase = .indexesVerified → ∀ table, T.vectorConfig = some table →
      w.tables (T.stagingTable table) = some H.staged) :
    Runs H smooth lease (T.persist lease cp') (fun _ w' => At H smooth lease cp' w' ∧ w'.tables = w.tables) w := by
  obtain ⟨row, hrow, hholds⟩ := h.held
  refine Program.wp_bind.mpr (runs_lift h (fun e he => ?_) fun _ _ => ?_)
  · rw [hsound.valid] at he
    cases he
  · refine runs_rowTx h fun c =>
      ⟨(), some (saved T cp' c row), by rw [hrow]; exact saveTx_run hholds (h.good.row row hrow) c cp', ?_, rfl⟩
    exact h.save hrow hholds c hsound hstrict

/-- An operation on the vector tables. -/
theorem runs_vectorStep {f : VectorTables → Except String VectorTables} {tables : VectorTables}
    (h : At H smooth lease cp w) (hf : f w.tables = .ok tables) (hsound : H.Sound cp w.columns tables)
    (hstrict : smooth → cp.vectorPhase = .indexesVerified → ∀ table, T.vectorConfig = some table →
      tables (T.stagingTable table) = some H.staged) :
    Runs H smooth lease (vectorStep lease f)
      (fun _ w' => At H smooth lease cp w' ∧ w' = { w with tables }) w := by
  refine Program.wp_attempt.mpr ⟨h.inv _, fun _ _ => ⟨.ok (), { w with tables }, by simp [runTables, hf], ?_, rfl⟩⟩
  have hstored := h.stored
  subst hstored
  exact ⟨h.held, h.lock, rfl, ⟨h.good.row, hsound⟩, hstrict⟩

/-- A table that is there is opened as it is. -/
theorem runs_open {table : String} (h : At H smooth lease cp w) (htable : (w.tables table).isSome) :
    Runs H smooth lease (vectorStep lease (VectorTables.openOrCreate table))
      (fun _ w' => At H smooth lease cp w' ∧ w' = w) w := by
  refine runs_vectorStep h ?_ h.sound h.strict'
  simp [VectorTables.openOrCreate, htable]

end

/-! ## Pages -/

/-- What follows a page of a sorted list. -/
theorem filter_after_page {l page later : List ℤ} {p : ℤ → Bool} {last : ℤ} (hl : l.Pairwise (· < ·))
    (hp : ∀ a b, p a = true → a < b → p b = true) (hrest : l.filter p = page ++ later)
    (hlast : page.getLast? = some last) : l.filter (fun id => last < id) = later := by
  have hmem : last ∈ l.filter p := hrest ▸ List.mem_append_left _ (List.mem_of_getLast? hlast)
  have hsub : l.filter (fun id => last < id) = (l.filter p).filter fun id => last < id := by
    rw [List.filter_filter]
    refine List.filter_congr fun id hid => ?_
    by_cases h : last < id
    · simp [h, hp last id (List.mem_filter.mp hmem).2 h]
    · simp [h]
  obtain ⟨init, rfl⟩ := List.getLast?_eq_some_iff.mp hlast
  have hsorted : (init ++ [last] ++ later).Pairwise (· < ·) := hrest ▸ hl.filter _
  obtain ⟨hpage, -, hcross⟩ := List.pairwise_append.mp hsorted
  obtain ⟨-, -, hinit⟩ := List.pairwise_append.mp hpage
  rw [hsub, hrest, List.filter_append]
  have hnone : (init ++ [last]).filter (fun id => last < id) = [] := by
    refine List.filter_eq_nil_iff.mpr fun id hid => ?_
    rcases List.mem_append.mp hid with hid | hid
    · have := hinit id hid last List.mem_cons_self
      simp only [decide_eq_true_eq]
      omega
    · simp [List.mem_singleton.mp hid]
  have hall : later.filter (fun id => last < id) = later :=
    List.filter_eq_self.mpr fun id hid =>
      decide_eq_true (hcross last (List.mem_append_right _ List.mem_cons_self) id hid)
  rw [hnone, hall, List.nil_append]

theorem remaining_page {ids : List ℤ} (hids : ids.Pairwise (· < ·)) {after : Option ℤ} {n : ℕ}
    (hpage : (remaining ids after).take n ≠ []) :
    remaining ids ((remaining ids after).take n).getLast? = (remaining ids after).drop n := by
  obtain ⟨last, hlast⟩ : ∃ last, ((remaining ids after).take n).getLast? = some last :=
    Option.ne_none_iff_exists'.mp (by simpa using hpage)
  rw [hlast]
  refine filter_after_page hids (fun a b ha hab => ?_) (List.take_append_drop n _).symm hlast
  cases after with
  | none => rfl
  | some x =>
    simp only [Option.all_some, decide_eq_true_eq] at ha ⊢
    omega

theorem remaining_empty {ids : List ℤ} {after : Option ℤ} {n : ℕ} (hn : 0 < n)
    (hpage : (remaining ids after).take n = []) : remaining ids after = [] := by
  rcases List.take_eq_nil_iff.mp hpage with h | h
  · omega
  · exact h

theorem remaining_drop_length {l : List ℤ} {n rounds : ℕ} (hn : 0 < n) (hpage : l.take n ≠ [])
    (h : l.length < rounds + 1) : (l.drop n).length < rounds := by
  have hpos : 0 < l.length := by
    rcases l with _ | ⟨a, l⟩
    · simp at hpage
    · simp
  rw [List.length_drop]
  omega

/-! ## The database part -/

section
variable {H : Holding T} {smooth : Prop} {lease : TaskLease} {cp cp' : Checkpoint} {w : World}

/-- Before the vector part begins, the tables do not bind the checkpoint. -/
theorem Holding.VectorsSound.pending {tables : VectorTables} (h : H.VectorsSound cp tables)
    (hphase : cp.vectorPhase = .pending) (hphase' : cp'.vectorPhase = .pending)
    (hname : cp'.stagingTableName = cp.stagingTableName) (horigin : cp'.stagingOrigin = cp.stagingOrigin)
    (houtcome : cp'.vectorOutcome = cp.vectorOutcome) : H.VectorsSound cp' tables := by
  simp only [Holding.VectorsSound, hphase, hphase', hname, horigin, houtcome] at h ⊢
  exact h

theorem Holding.Sound.vectorPhase_pending {columns : ℤ → MessageBounds} {tables : VectorTables}
    (h : H.Sound cp columns tables) (hrdb : cp.rdbPhase ≠ .verified) : cp.vectorPhase = .pending := by
  by_contra hphase
  exact hrdb (h.verified hphase)

/-- A checkpoint of the database part. -/
theorem Holding.Sound.rdbStep {columns columns' : ℤ → MessageBounds} {tables : VectorTables}
    (h : H.Sound cp columns tables) (hrdb : cp.rdbPhase ≠ .verified) {rdbPhase : RdbPhase} {last : Option ℤ}
    (hlast : rdbPhase = .backfilling ∨ last = none)
    (hcolumns : RdbSound T { cp with rdbPhase, rdbLastThreadId := last } columns') :
    H.Sound { cp with rdbPhase, rdbLastThreadId := last } columns' tables where
  valid := by
    have hv := Checkpoint.validate_ok.mp h.valid
    exact Checkpoint.validate_ok.mpr ⟨hlast, hv.staging, hv.ended, hv.outcome, hv.migrated, hv.indexes, hv.cleanup⟩
  rdb := hcolumns
  verified := fun hphase => absurd (h.vectorPhase_pending hrdb) hphase
  vectors := h.vectors.pending (h.vectorPhase_pending hrdb) (h.vectorPhase_pending hrdb) rfl rfl rfl

theorem runs_batchTx {ids : List ℤ} (h : At H smooth lease cp w)
    (hsound : H.Sound cp' (T.updateBounds ids w.columns) w.tables) (hphase : cp'.vectorPhase = .pending) :
    Runs H smooth lease (T.batchTx lease ids cp') (fun _ w' => At H smooth lease cp' w') w := by
  obtain ⟨row, hrow, hholds⟩ := h.held
  refine Program.wp_bind.mpr (runs_lift h (fun e he => ?_) fun _ _ => ?_)
  · rw [hsound.valid] at he
    cases he
  · refine Program.wp_attempt.mpr ⟨h.inv .plain, fun c _ => ⟨.ok (), { w with
      row := some (saved T cp' c row), columns := T.updateBounds ids w.columns }, ?_, ?_⟩⟩
    · simp [h.lock, hrow, saveTx_run hholds (h.good.row row hrow) c cp']
    · refine h.save hrow hholds c hsound fun _ h' => ?_
      rw [hphase] at h'
      cases h'

/-- **The batches**: each brings the columns of its threads up to date with its checkpoint. -/
theorem runs_backfillPages : ∀ (rounds : ℕ) {cp : Checkpoint} {w : World}, At H smooth lease cp w →
    cp.rdbPhase = .backfilling → (smooth → (remaining T.db.threadIds cp.rdbLastThreadId).length < rounds) →
    Runs H smooth lease (T.backfillPages lease rounds cp) (fun cp' w' => At H smooth lease cp' w' ∧
      cp'.rdbPhase = .backfilling ∧ remaining T.db.threadIds cp'.rdbLastThreadId = []) w
  | 0, cp, w, h, hrdb, hrounds => h.fails (fun hs => absurd (hrounds hs) (Nat.not_lt_zero _)) _
  | rounds + 1, cp, w, h, hrdb, hrounds => by
    refine Program.wp_bind.mpr ((runs_renew h).imp fun _ w' h' => ?_)
    obtain ⟨h', -⟩ := h'
    refine Program.wp_bind.mpr (runs_read h' (fun e he => by cases he) fun ids hids => ?_)
    cases hids
    show Program.wp _ _ _ _ (if (remaining T.db.threadIds cp.rdbLastThreadId).take T.batchSize = [] then _ else _) w'
    split
    · next hempty => exact ⟨h', hrdb, remaining_empty T.batchSize_pos hempty⟩
    · next hpage =>
      have hnot : cp.rdbPhase ≠ .verified := by simp [hrdb]
      have hnext := remaining_page T.db.sorted hpage
      refine Program.wp_bind.mpr ((runs_batchTx h' ?_ ?_).imp fun _ w'' h'' => ?_)
      · refine h'.sound.rdbStep hnot (.inl hrdb) ?_
        have hrdbSound := h'.sound.rdb
        simp only [RdbSound, hrdb] at hrdbSound ⊢
        intro id hid hdone
        change id ∉ remaining T.db.threadIds (T.db.fetchThreadIds cp.rdbLastThreadId T.batchSize).getLast? at hdone
        show (if id ∈ T.db.fetchThreadIds cp.rdbLastThreadId T.batchSize then _ else _) = _
        split
        · rfl
        · next hnotPage =>
          refine hrdbSound id hid fun hrem => ?_
          rw [show T.db.fetchThreadIds cp.rdbLastThreadId T.batchSize =
            (remaining T.db.threadIds cp.rdbLastThreadId).take T.batchSize from rfl] at hdone hnotPage
          rw [hnext] at hdone
          rw [← List.take_append_drop T.batchSize (remaining T.db.threadIds cp.rdbLastThreadId)] at hrem
          exact (List.mem_append.mp hrem).elim hnotPage hdone
      · exact h'.sound.vectorPhase_pending hnot
      · refine runs_backfillPages rounds h'' hrdb fun hs => ?_
        show (remaining T.db.threadIds ((remaining T.db.threadIds cp.rdbLastThreadId).take T.batchSize).getLast?).length
          < rounds
        rw [hnext]
        exact remaining_drop_length T.batchSize_pos hpage (hrounds hs)

end

/-! ## Verification -/

/-- What `verify_inner` needs of the worlds it goes through, under a lease or without one. -/
structure Verifiable (H : Holding T) (smooth : Prop) (owner : Option TaskLease) (I : StepLabel → World → Prop)
    (E : String → World → Prop) (cp : Checkpoint) (P : World → Prop) : Prop where
  inv : ∀ w label, P w → I label w
  renew : ∀ w, P w → Program.wp (fun _ => True) I (fun _ w' => P w') E (renewIf owner) w
  fails : ∀ e w, P w → ¬ smooth → E e w
  good : ∀ w, P w → H.Good w
  stored : ∀ w, P w → storedCheckpoint w.row = cp
  verified : cp.rdbPhase = .verified
  phase : cp.vectorPhase = .pending ∨ cp.vectorPhase = .completed

section
variable {H : Holding T} {smooth : Prop} {owner : Option TaskLease} {I : StepLabel → World → Prop}
  {E : String → World → Prop} {cp : Checkpoint} {P : World → Prop} {α : Type}

theorem Verifiable.read (h : Verifiable H smooth owner I E cp P) {w : World} (hw : P w) {f : World → Except String α}
    {Q : α → World → Prop} (hf : ∀ e, f w = .error e → ¬ smooth) (hQ : ∀ a, f w = .ok a → Q a w) :
    Program.wp (fun _ => True) I Q E (readWorld f) w := by
  refine Program.wp_attempt.mpr ⟨h.inv w _ hw, fun _ _ => ⟨f w, w, rfl, ?_⟩⟩
  cases hr : f w with
  | ok a => exact hQ a hr
  | error e => exact h.fails e w hw (hf e hr)

theorem not_of_ok {β : Type} {r : Except String β} {b : β} (h : r = .ok b) : ∀ e, r = .error e → ¬ smooth := by
  intro e he
  rw [h] at he
  cases he

theorem Verifiable.columns (h : Verifiable H smooth owner I E cp P) {w : World} (hw : P w) :
    ∀ id ∈ T.db.threadIds, w.columns id = T.db.messageBounds id := by
  have hrdb := (h.good w hw).sound.rdb
  simpa only [RdbSound, h.stored w hw, h.verified] using hrdb

theorem Verifiable.verifyPages (h : Verifiable H smooth owner I E cp P) : ∀ (rounds : ℕ) {after : Option ℤ} {w : World},
    P w → (smooth → (remaining T.db.threadIds after).length < rounds) →
    Program.wp (fun _ => True) I (fun _ w' => P w') E (T.verifyPages owner rounds after) w
  | 0, after, w, hw, hrounds => h.fails _ w hw fun hs => absurd (hrounds hs) (Nat.not_lt_zero _)
  | rounds + 1, after, w, hw, hrounds => by
    refine Program.wp_bind.mpr ((h.renew w hw).imp fun _ w' hw' => ?_)
    refine Program.wp_bind.mpr (h.read hw' (not_of_ok rfl) fun ids hids => ?_)
    cases hids
    show Program.wp _ _ _ _ (if (remaining T.db.threadIds after).take T.batchSize = [] then _ else _) w'
    split
    · exact hw'
    · next hpage =>
      have hok : (checkEach (T.db.fetchThreadIds after T.batchSize) fun id =>
          check (w'.columns id = T.db.messageBounds id) "thread message bounds verification failed") = .ok () := by
        refine checkEach_ok fun id hid => check_ok.mpr ?_
        exact decide_eq_true (h.columns hw' id (List.mem_filter.mp (List.mem_of_mem_take hid)).1)
      refine Program.wp_bind.mpr (h.read hw' (not_of_ok hok) fun _ _ => ?_)
      refine h.verifyPages rounds hw' fun hs => ?_
      show (remaining T.db.threadIds ((remaining T.db.threadIds after).take T.batchSize).getLast?).length < rounds
      rw [remaining_page T.db.sorted hpage]
      exact remaining_drop_length T.batchSize_pos hpage (hrounds hs)

theorem Verifiable.migrated (h : Verifiable H smooth owner I E cp P) (houtcome : cp.vectorOutcome = some "migrated")
    {w : World} (hw : P w) : cp.vectorPhase = .completed ∧ ∃ table, T.vectorConfig = some table ∧
      ∀ w', P w' → w'.tables table = some H.staged := by
  have hvectors : ∀ w', P w' → H.VectorsSound cp w'.tables := fun w' hw' => h.stored w' hw' ▸ (h.good w' hw').sound.vectors
  simp only [Holding.VectorsSound, houtcome] at hvectors
  rcases h.phase with hp | hp
  · simp only [hp] at hvectors
    cases (hvectors w hw).2.2.1
  · simp only [hp] at hvectors
    have hmigrated : ∀ w', P w' → ∃ table, T.vectorConfig = some table ∧ w'.tables table = some H.staged := fun w' hw' => by
      rcases hvectors w' hw' with h' | ⟨-, table, hconfig, htable, -⟩
      · exact absurd h'.1 (by simp)
      · exact ⟨table, hconfig, htable⟩
    obtain ⟨table, hconfig, -⟩ := hmigrated w hw
    refine ⟨hp, table, hconfig, fun w' hw' => ?_⟩
    obtain ⟨table', hconfig', htable⟩ := hmigrated w' hw'
    obtain rfl := Option.some.inj (hconfig.symm.trans hconfig')
    exact htable

/-- A migrated table passes. -/
theorem Verifiable.verifyVector (h : Verifiable H smooth owner I E cp P) {w : World} (hw : P w) :
    Program.wp (fun _ => True) I (fun _ w' => P w') E (T.verifyVector owner) w := by
  refine Program.wp_bind.mpr (h.read hw (not_of_ok rfl) fun checkpoint hcp => ?_)
  cases hcp
  split
  · exact hw
  · next envelope henv =>
    split
    · exact hw
    · next houtcome =>
      simp only [ne_eq, not_not] at houtcome
      have hcp : envelope.payload = cp := by
        rw [← h.stored w hw]
        simp [storedCheckpoint, henv]
      rw [hcp] at houtcome
      have hvalid := h.stored w hw ▸ (h.good w hw).sound.valid
      obtain ⟨hcompleted, table, hconfig, htable⟩ := h.migrated houtcome hw
      refine Program.wp_bind.mpr (Program.wp_lift.mpr ?_)
      rw [hcp, hvalid, hconfig]
      have hsome : (w.tables table).isSome = true := by simp [htable w hw]
      refine Program.wp_bind.mpr (h.read hw (not_of_ok (check_ok.mpr hsome)) fun _ _ => ?_)
      refine Program.wp_bind.mpr (Program.wp_attempt.mpr ⟨h.inv w _ hw, fun _ _ => ⟨.ok (), w, ?_, ?_⟩⟩)
      · simp [runTables, VectorTables.openOrCreate, hsome]
      · refine Program.wp_bind.mpr ((h.renew w hw).imp fun _ w' hw' => ?_)
        have hverify : (do
            let rows ← w'.rows table
            verifyVectorTableAgainstRdb T.db.boundsForExisting rows) = .ok () := by
          rw [World.rows, htable w' hw']
          exact H.clean.verify
        refine Program.wp_bind.mpr (h.read hw' (not_of_ok hverify) fun _ _ => Program.wp_lift.mpr ?_)
        have hindexes := ((Checkpoint.validate_ok.mp hvalid).migrated hcompleted houtcome).2
        rw [check_ok.mpr (Option.isSome_iff_ne_none.mpr hindexes)]
        exact hw'

theorem Verifiable.verifyInner (h : Verifiable H smooth owner I E cp P) (hpreflight : smooth → T.db.preflight = .ok ())
    (hrounds : smooth → T.db.threadIds.length < T.rounds) {w : World} (hw : P w) :
    Program.wp (fun _ => True) I (fun _ w' => P w') E (T.verifyInner owner) w := by
  refine Program.wp_bind.mpr (h.read hw (fun e he hs => ?_) fun _ _ => ?_)
  · rw [hpreflight hs] at he
    cases he
  · refine Program.wp_bind.mpr ((h.verifyPages T.rounds hw fun hs => ?_).imp fun _ w' hw' => h.verifyVector hw')
    exact Nat.lt_of_le_of_lt (List.length_filter_le _ _) (hrounds hs)

end

section
variable {H : Holding T} {smooth : Prop} {lease : TaskLease} {cp cp' : Checkpoint} {w : World}

theorem At.verifiable (hrdb : cp.rdbPhase = .verified) (hphase : cp.vectorPhase = .pending ∨ cp.vectorPhase = .completed) :
    Verifiable H smooth (some lease) (Inv H smooth) (Fails H smooth lease) cp (At H smooth lease cp) where
  inv := fun _ label h => h.inv label
  renew := fun _ h => (runs_renew h).imp fun _ _ h' => h'.1
  fails := fun e _ h hs => h.fails hs e
  good := fun _ h => h.good
  stored := fun _ h => h.stored
  verified := hrdb
  phase := hphase

theorem runs_beginBackfill (h : At H smooth lease cp w) (hnot : cp.rdbPhase ≠ .verified) :
    Runs H smooth lease (T.beginBackfill lease cp)
      (fun cp' w' => At H smooth lease cp' w' ∧ cp'.rdbPhase = .backfilling) w := by
  rw [beginBackfill]
  split
  · have hsound : H.Sound { cp with rdbPhase := .backfilling, rdbLastThreadId := none } w.columns w.tables :=
      h.sound.rdbStep hnot (.inl rfl) fun id hid hdone => absurd (List.mem_filter.mpr ⟨hid, rfl⟩) hdone
    have hphase := h.sound.vectorPhase_pending hnot
    refine Program.wp_bind.mpr ((runs_persist h hsound fun _ h' => ?_).imp fun _ w' h' => ⟨h'.1, rfl⟩)
    cases hphase.symm.trans h'
  · next hpending =>
    refine ⟨h, ?_⟩
    cases hrdb : cp.rdbPhase with
    | pending => exact absurd hrdb hpending
    | backfilling => rfl
    | verified => exact absurd hrdb hnot

/-- **The database part** ends with every thread's bounds in its columns. -/
theorem runs_backfillRdb (hsmooth : smooth → H.Smooth) (h : At H smooth lease cp w) :
    Runs H smooth lease (T.backfillRdb lease cp) (fun cp' w' => At H smooth lease cp' w' ∧ cp'.rdbPhase = .verified) w := by
  rw [backfillRdb]
  split
  · next hverified => exact ⟨h, hverified⟩
  · next hnot =>
    refine Program.wp_bind.mpr ((runs_beginBackfill h hnot).imp fun cp₁ w₁ h₁ => ?_)
    obtain ⟨h₁, hback⟩ := h₁
    have hlength : smooth → (remaining T.db.threadIds cp₁.rdbLastThreadId).length < T.rounds := fun hs =>
      Nat.lt_of_le_of_lt (List.length_filter_le _ _) (hsmooth hs).threads
    refine Program.wp_bind.mpr ((runs_backfillPages T.rounds h₁ hback hlength).imp fun cp₂ w₂ h₂ => ?_)
    obtain ⟨h₂, hback₂, hdone⟩ := h₂
    have hnot₂ : cp₂.rdbPhase ≠ .verified := by simp [hback₂]
    have hphase := h₂.sound.vectorPhase_pending hnot₂
    have hcolumns : RdbSound T { cp₂ with rdbPhase := .verified, rdbLastThreadId := none } w₂.columns := by
      have hrdb := h₂.sound.rdb
      simp only [RdbSound, hback₂, hdone] at hrdb
      exact fun id hid => hrdb id hid List.not_mem_nil
    have hsound := h₂.sound.rdbStep hnot₂ (.inr rfl) hcolumns
    refine Program.wp_bind.mpr ((runs_persist h₂ hsound fun _ h' => ?_).imp fun _ w₃ h₃ => ?_)
    · cases hphase.symm.trans h'
    · have hverifiable : Verifiable H smooth (some lease) (Inv H smooth) (Fails H smooth lease)
          { cp₂ with rdbPhase := .verified, rdbLastThreadId := none }
          (At H smooth lease { cp₂ with rdbPhase := .verified, rdbLastThreadId := none }) :=
        At.verifiable rfl (.inl hphase)
      exact Program.wp_bind.mpr ((hverifiable.verifyInner (fun hs => (hsmooth hs).preflight)
        (fun hs => (hsmooth hs).threads) h₃.1).imp fun _ w₄ h₄ => ⟨h₄, rfl⟩)

end

/-! ## Transactions that keep the row locked -/

section
variable {H : Holding T} {smooth : Prop} {self : ℕ} {lease : TaskLease} {cp cp' : Checkpoint} {w : World} {α : Type}

theorem tx_read {f : World → Except String α} {a : α} {Q : α → World → Prop} (hinv : Inv H smooth .plain w)
    (hf : f w = .ok a) (hQ : Q a w) :
    Program.wp (fun _ => True) (Inv H smooth) Q (fun _ _ => False) (readWorld f) w :=
  Program.wp_attempt.mpr ⟨hinv, fun _ _ => ⟨.ok a, w, by rw [hf], hQ⟩⟩

theorem tx_step {f : VectorTables → Except String VectorTables} {tables : VectorTables} {Q : Unit → World → Prop}
    (hinv : Inv H smooth .plain w) (hlock : w.lock = some self) (hf : f w.tables = .ok tables)
    (hQ : Q () { w with tables }) :
    Program.wp (fun _ => True) (Inv H smooth) Q (fun _ _ => False) (fencedStep self f) w :=
  Program.wp_attempt.mpr ⟨hinv, fun _ _ => ⟨.ok (), { w with tables }, by simp [hlock, runTables, hf], hQ⟩⟩

/-- A transaction whose work on the vector tables ends well commits its checkpoint. -/
theorem runs_fenced {label : StepLabel} {body : TaskProgram Unit} {tables : VectorTables} (h : At H smooth lease cp w)
    (hbody : Program.wp (fun _ => True) (Inv H smooth) (fun _ w' => w' = { w with lock := some self, tables })
      (fun _ _ => False) body { w with lock := some self })
    (hcommit : Inv H smooth label { w with lock := some self, tables }) (hsound : H.Sound cp' w.columns tables)
    (hstrict : smooth → cp'.vectorPhase = .indexesVerified → ∀ table, T.vectorConfig = some table →
      tables (T.stagingTable table) = some H.staged) :
    Runs H smooth lease (T.fenced self lease label body cp')
      (fun _ w' => At H smooth lease cp' w' ∧ w'.tables = tables) w := by
  obtain ⟨row, hrow, hholds⟩ := h.held
  have hok := h.good.row row hrow
  refine Program.wp_bind.mpr (Program.wp_attempt.mpr ⟨h.inv .plain, fun c _ => ⟨.ok (), { w with lock := some self },
    by simp [h.lock, hrow, renewLease_run hholds c], ?_⟩⟩)
  refine Program.wp_bind.mpr (Program.wp_orElse.mpr (Program.wp_bind.mpr (hbody.mono (fun _ w' hw' => ?_)
    fun _ _ h' => h'.elim)))
  subst hw'
  refine Program.wp_lift.mpr ?_
  rw [hsound.valid]
  refine Program.wp_attempt.mpr ⟨hcommit, fun c _ => ⟨.ok (), { w with
    tables, row := some (saved T cp' c (renewed c row)) }, ?_, ?_, rfl⟩⟩
  · have hok' : RowOk T (renewed c row) := hok.congr rfl rfl rfl fun hdone => hdone
    have hrun : (do renewLease lease c.now defaultLeaseMs; T.saveTx lease cp' c.now : TaskTx Checkpoint Unit) w.row =
        .ok ((), some (saved T cp' c (renewed c row))) := by
      rw [Tx.bind_run, hrow, renewLease_run hholds c]
      exact saveTx_run (show lease.holds (renewed c row) = true from hholds) hok' c cp'
    simp [hrun, h.lock]
  · have hrenewed : At H smooth lease cp { w with row := some (renewed c row) } :=
      h.write (hok.congr rfl rfl rfl fun hdone => hdone) hholds
        ((congrArg storedCheckpoint hrow.symm).trans h.stored) h.sound h.strict'
    exact hrenewed.save rfl hholds c hsound hstrict

end

end MemoryStore.DataMigration.MessageTimesTask
