/-
The phases of the vector part (`sync_vector` of `grpc-admin/src/db_migrate/thread_message_times_v1.rs`),
one after the other: what each relies on, and what it leaves to the next.
-/
import MemoryStore.DataMigration.MessageTimesSafe

namespace MemoryStore.DataMigration.MessageTimesTask

variable {T : MessageTimesTask}

/-! ## Staging -/

theorem stagingTable_ne (table : String) : T.stagingTable table ≠ table := by
  intro h
  have hlength := congrArg String.length h
  rw [stagingTable] at hlength
  split at hlength
  · have hpos : 0 < "__thread_time_fields_v1_staging".length := by decide
    rw [legacyStagingName, String.length_append] at hlength
    omega
  · have hpos : 0 < "__thread_message_times_v1_g1_staging".length := by decide
    rw [currentStagingName, String.length_append] at hlength
    omega

theorem chunks_flatten {size : ℕ} (hsize : 0 < size) : ∀ {fuel : ℕ} {records : List ThreadVectorRecord},
    records.length ≤ fuel → (chunks size fuel records).flatten = records
  | 0, records, h => by
    rw [List.length_eq_zero_iff.mp (Nat.le_zero.mp h)]
    rfl
  | fuel + 1, [], _ => rfl
  | fuel + 1, r :: rs, h => by
    have hle : ((r :: rs).drop size).length ≤ fuel := by
      rw [List.length_drop]
      omega
    rw [chunks, List.flatten_cons, chunks_flatten hsize hle, List.take_append_drop]

theorem set_set (tables : VectorTables) (name : String) (a b : Option VectorTable) :
    (tables.set name a).set name b = tables.set name b := by
  funext n
  simp only [VectorTables.set]
  split <;> rfl

@[simp] theorem set_same (tables : VectorTables) (name : String) (a : Option VectorTable) : tables.set name a name = a := by
  simp [VectorTables.set]

theorem set_other (tables : VectorTables) {name other : String} (h : other ≠ name) (a : Option VectorTable) :
    tables.set name a other = tables other := if_neg h

section
variable {H : Holding T} {smooth : Prop} {lease : TaskLease} {cp cp' : Checkpoint} {w : World}

/-- While staging, the staging table does not bind the checkpoint. -/
theorem Holding.Sound.setStaging {columns : ℤ → MessageBounds} {tables : VectorTables} (h : H.Sound cp columns tables)
    (hphase : cp.vectorPhase = .pending) (hflight : T.legacyInFlight = false) {table : String}
    (hconfig : T.vectorConfig = some table) (rows : Option VectorTable) :
    H.Sound cp columns (tables.set (T.stagingTable table) rows) where
  valid := h.valid
  rdb := h.rdb
  verified := h.verified
  vectors := by
    have hvectors := h.vectors
    simp only [Holding.VectorsSound, hphase, hflight] at hvectors ⊢
    refine ⟨hvectors.1, hvectors.2.1, hvectors.2.2.1, fun table' hconfig' => ⟨?_, fun hf => by cases hf⟩⟩
    obtain rfl := Option.some.inj (hconfig.symm.trans hconfig')
    rw [set_other _ (stagingTable_ne table).symm]
    exact (hvectors.2.2.2 table hconfig).1

/-- What staging has done so far. -/
structure Staging (H : Holding T) (smooth : Prop) (lease : TaskLease) (cp : Checkpoint) (table : String)
    (rows staged : VectorTable) (w : World) : Prop extends At H smooth lease cp w where
  source : w.tables table = some rows
  staging : w.tables (T.stagingTable table) = some staged

variable {table : String} {rows staged : VectorTable}

theorem runs_stagingStep (hphase : cp.vectorPhase = .pending) (hflight : T.legacyInFlight = false)
    (hconfig : T.vectorConfig = some table) {f : VectorTables → Except String VectorTables} (staged' : VectorTable)
    (h : At H smooth lease cp w) (hsource : w.tables table = some rows)
    (hf : f w.tables = .ok (w.tables.set (T.stagingTable table) (some staged'))) :
    Runs H smooth lease (vectorStep lease f) (fun _ w' => Staging H smooth lease cp table rows staged' w') w := by
  refine (runs_vectorStep h hf (h.sound.setStaging hphase hflight hconfig _) fun _ h' => ?_).imp fun _ w' h' => ?_
  · rw [hphase] at h'
    cases h'
  · obtain ⟨hat, rfl⟩ := h'
    exact ⟨hat, (set_other _ (stagingTable_ne table).symm _).trans hsource, set_same _ _ _⟩

theorem runs_batchUpsert (hphase : cp.vectorPhase = .pending) (hflight : T.legacyInFlight = false)
    (hconfig : T.vectorConfig = some table) {records : List ThreadVectorRecord}
    (h : Staging H smooth lease cp table rows staged w) (hnodup : ((staged ++ records).map ThreadVectorRecord.key).Nodup) :
    Runs H smooth lease (batchUpsert lease (T.stagingTable table) records)
      (fun _ w' => Staging H smooth lease cp table rows (staged ++ records) w') w := by
  have hloop := Program.wp_forEach (V := fun _ : Clock => True) (I := Inv H smooth) (E := Fails H smooth lease)
    (f := fun chunk => vectorStep lease (VectorTables.upsert (T.stagingTable table) chunk))
    (J := fun rest w' => ∃ done, done ++ rest.flatten = records ∧
      Staging H smooth lease cp table rows (staged ++ done) w') (l := chunks 1000 records.length records) (s := w)
    (fun chunk rest w' hw' => ?_) ⟨[], by simpa using chunks_flatten (by decide) (le_refl _), by simpa using h⟩
  · refine hloop.imp fun _ w' hw' => ?_
    obtain ⟨done, hdone, hw'⟩ := hw'
    rw [List.flatten_nil, List.append_nil] at hdone
    exact hdone ▸ hw'
  · obtain ⟨done, hdone, hw'⟩ := hw'
    rw [List.flatten_cons] at hdone
    have hkeys : ((staged ++ done ++ chunk).map ThreadVectorRecord.key).Nodup := by
      refine hnodup.sublist (List.Sublist.map _ ?_)
      rw [← hdone, ← List.append_assoc, ← List.append_assoc]
      exact List.sublist_append_left _ _
    refine (runs_stagingStep hphase hflight hconfig (staged ++ done ++ chunk) hw'.toAt hw'.source ?_).imp
      fun _ w'' hw'' => ⟨done ++ chunk, by rw [List.append_assoc]; exact hdone, by rw [← List.append_assoc]; exact hw''⟩
    simp only [VectorTables.upsert, hw'.staging, mergeInsert_new hkeys]

/-- The staging table after some threads. -/
def stagedOf (T : MessageTimesTask) (rows : VectorTable) (ids : List ℤ) : VectorTable :=
  ids.flatMap (stagedThread T.db.boundsForExisting rows)

theorem stagedOf_keys {ids later : List ℤ} (h : ids ++ later = rows.uniqueThreadIds) :
    ((stagedOf T rows ids).map ThreadVectorRecord.key).Nodup := by
  have hids : ids.Pairwise (· < ·) := (uniqueThreadIds_sorted rows).sublist (h ▸ List.sublist_append_left _ _)
  exact (flatMap_keySorted (fun _ => stagedThread_spec.1) (fun _ r hr => (stagedThread_spec.2 r hr).1) hids).nodup

theorem runs_stageThread (hphase : cp.vectorPhase = .pending) (hflight : T.legacyInFlight = false)
    (hconfig : T.vectorConfig = some table) {ids later : List ℤ} {id : ℤ} (hids : ids ++ id :: later = rows.uniqueThreadIds)
    (h : Staging H smooth lease cp table rows (stagedOf T rows ids) w) :
    Runs H smooth lease (T.stageThread lease table (T.stagingTable table) id)
      (fun _ w' => Staging H smooth lease cp table rows (stagedOf T rows (ids ++ [id])) w') w := by
  have hnext : stagedOf T rows (ids ++ [id]) = stagedOf T rows ids ++ stagedThread T.db.boundsForExisting rows id := by
    simp [stagedOf]
  refine Program.wp_bind.mpr (runs_read h.toAt (not_of_ok rfl) fun bounds hbounds => ?_)
  cases hbounds
  split
  · next hnone =>
    have hempty : stagedThread T.db.boundsForExisting rows id = [] := by rw [stagedThread, hnone]
    rw [hnext, hempty, List.append_nil]
    exact h
  · next b hb =>
    have hrows : w.rows table = .ok rows := by rw [World.rows, h.source]
    refine Program.wp_bind.mpr (runs_read h.toAt (not_of_ok hrows) fun source hsource => ?_)
    obtain rfl := Except.ok.inj (hrows.symm.trans hsource)
    have hthread : (normalizeVectorRecords ((rows.findRecordsByThreadId id).map (·.withBounds b))).1 =
        stagedThread T.db.boundsForExisting rows id := by rw [stagedThread, hb]
    rw [hthread]
    have hkeys : ((stagedOf T rows ids ++ stagedThread T.db.boundsForExisting rows id).map
        ThreadVectorRecord.key).Nodup := hnext ▸ stagedOf_keys (by simpa using hids)
    refine Program.wp_bind.mpr ((runs_batchUpsert hphase hflight hconfig h hkeys).imp fun _ w' hw' => ?_)
    refine (runs_renew hw'.toAt).imp fun _ w'' hw'' => ?_
    exact ⟨hw''.1, by rw [hw''.2]; exact hw'.source, by rw [hw''.2, hnext]; exact hw'.staging⟩

/-- **The pages of staging** fill the staging table, thread by thread. -/
theorem runs_stagePages (hphase : cp.vectorPhase = .pending) (hflight : T.legacyInFlight = false)
    (hconfig : T.vectorConfig = some table) : ∀ (rounds : ℕ) {after : Option ℤ} {ids : List ℤ} {w : World},
    ids ++ remaining rows.uniqueThreadIds after = rows.uniqueThreadIds →
    (smooth → (remaining rows.uniqueThreadIds after).length < rounds) →
    Staging H smooth lease cp table rows (stagedOf T rows ids) w →
    Runs H smooth lease (T.stagePages lease table (T.stagingTable table) rounds after)
      (fun _ w' => Staging H smooth lease cp table rows (stagedRows T.db.boundsForExisting rows) w') w
  | 0, after, ids, w, hids, hrounds, h => h.toAt.fails (fun hs => absurd (hrounds hs) (Nat.not_lt_zero _)) _
  | rounds + 1, after, ids, w, hids, hrounds, h => by
    refine Program.wp_bind.mpr ((runs_renew h.toAt).imp fun _ w₁ h₁ => ?_)
    have h₁ : Staging H smooth lease cp table rows (stagedOf T rows ids) w₁ :=
      ⟨h₁.1, by rw [h₁.2]; exact h.source, by rw [h₁.2]; exact h.staging⟩
    have hpageRead : (do
        let rows ← w₁.rows table
        .ok (rows.threadIdKeysetPage after T.batchSize) : Except String (List ℤ)) =
        .ok ((remaining rows.uniqueThreadIds after).take T.batchSize) := by
      rw [World.rows, h₁.source]
      rfl
    refine Program.wp_bind.mpr (runs_read h₁.toAt (not_of_ok hpageRead) fun page hpage => ?_)
    obtain rfl := Except.ok.inj (hpageRead.symm.trans hpage)
    split
    · next hempty =>
      have hall : ids = rows.uniqueThreadIds := by
        rw [remaining_empty T.batchSize_pos hempty, List.append_nil] at hids
        exact hids
      rw [hall] at h₁
      exact h₁
    · next hpage =>
      have hnext := remaining_page (uniqueThreadIds_sorted rows) hpage
      set page := (remaining rows.uniqueThreadIds after).take T.batchSize with hdef
      set later := (remaining rows.uniqueThreadIds after).drop T.batchSize with hlater
      have hsplit : page ++ later = remaining rows.uniqueThreadIds after := List.take_append_drop _ _
      have hloop := Program.wp_forEach (V := fun _ : Clock => True) (I := Inv H smooth) (E := Fails H smooth lease)
        (f := T.stageThread lease table (T.stagingTable table))
        (J := fun rest w' => ∃ done, done ++ (rest ++ later) = rows.uniqueThreadIds ∧
          Staging H smooth lease cp table rows (stagedOf T rows done) w') (l := page) (s := w₁)
        (fun id rest w' hw' => ?_) ⟨ids, by rw [hsplit]; exact hids, h₁⟩
      · refine Program.wp_bind.mpr (hloop.imp fun _ w' hw' => ?_)
        obtain ⟨done, hdone, hw'⟩ := hw'
        rw [List.nil_append, ← hnext] at hdone
        refine runs_stagePages hphase hflight hconfig rounds hdone (fun hs => ?_) hw'
        rw [hnext]
        exact remaining_drop_length T.batchSize_pos hpage (hrounds hs)
      · obtain ⟨done, hdone, hw'⟩ := hw'
        refine (runs_stageThread hphase hflight hconfig hdone hw').imp fun _ w'' hw'' => ⟨done ++ [id], ?_, hw''⟩
        simpa using hdone

end

/-! ## The switch -/

section
variable {H : Holding T} {smooth : Prop} {self : ℕ} {lease : TaskLease} {cp cp' : Checkpoint} {w : World} {table : String}
  {rows : VectorTable}

theorem legacySwitching_of_not (h : T.legacyInFlight = false) : T.legacySwitching = false := by
  unfold legacyInFlight legacySwitching at *
  cases hl : T.legacyVectorState with
  | error e => rfl
  | ok legacy =>
    rw [hl] at h
    rcases legacy with _ | ⟨state, name⟩
    · rfl
    · simp only [Bool.or_eq_false_iff, decide_eq_false_iff_not] at h ⊢
      exact h.2

theorem runs_stage (hsmooth : smooth → H.Smooth) (h : At H smooth lease cp w) (hrdb : cp.rdbPhase = .verified)
    (hconfig : T.vectorConfig = some table) (hphase : cp.vectorPhase = .pending ∨ cp.vectorPhase.needsStaging = true)
    (hpending : cp.vectorPhase = .pending → T.legacyInFlight = false ∧ (w.tables table).isSome) :
    Runs H smooth lease (T.stage lease table (T.stagingTable table) cp) (fun cp' w' => At H smooth lease cp' w' ∧
      cp'.rdbPhase = .verified ∧ cp'.vectorPhase.needsStaging = true) w := by
  rw [stage]
  split
  · next hnot => exact ⟨h, hrdb, hphase.resolve_left hnot⟩
  · next hnot =>
    simp only [ne_eq, not_not] at hnot
    obtain ⟨hflight, hsome⟩ := hpending hnot
    obtain ⟨rows, hrows⟩ := Option.isSome_iff_exists.mp hsome
    have hcanonical : H.canonical = some rows := by
      have hvectors := h.sound.vectors
      simp only [Holding.VectorsSound, hnot] at hvectors
      rw [← (hvectors.2.2.2 table hconfig).1, hrows]
    have hstaged := H.staged_eq hflight rows hcanonical
    -- the old staging table goes, an empty one comes
    have hdrop : VectorTables.dropIfExists (T.stagingTable table) w.tables =
        .ok (w.tables.set (T.stagingTable table) none) := rfl
    refine Program.wp_bind.mpr ((runs_vectorStep h hdrop (h.sound.setStaging hnot hflight hconfig none)
      fun _ h' => ?_).imp fun _ w₁ h₁ => ?_)
    · cases hnot.symm.trans h'
    obtain ⟨h₁, rfl⟩ := h₁
    have hrows₁ : (w.tables.set (T.stagingTable table) none) table = some rows :=
      (set_other _ (stagingTable_ne table).symm _).trans hrows
    refine Program.wp_bind.mpr ((runs_open h₁ (Option.isSome_iff_exists.mpr ⟨rows, hrows₁⟩)).imp fun _ w₂ h₂ => ?_)
    obtain ⟨h₂, rfl⟩ := h₂
    refine Program.wp_bind.mpr ((runs_stagingStep hnot hflight hconfig [] h₂ hrows₁ ?_).imp fun _ w₃ h₃ => ?_)
    · simp [VectorTables.openOrCreate]
    have hrounds : smooth → (remaining rows.uniqueThreadIds none).length < T.rounds := fun hs =>
      Nat.lt_of_le_of_lt (List.length_filter_le _ _) ((hsmooth hs).vectorThreads rows hcanonical)
    have hall : ([] : List ℤ) ++ remaining rows.uniqueThreadIds none = rows.uniqueThreadIds := by simp [remaining]
    refine Program.wp_bind.mpr ((runs_stagePages hnot hflight hconfig T.rounds hall hrounds h₃).imp fun _ w₄ h₄ => ?_)
    have hverify : (do
        let source ← w₄.rows table
        let rows ← w₄.rows (T.stagingTable table)
        verifyStagingAgainstCanonical T.db.boundsForExisting source rows) =
        verifyStagingAgainstCanonical T.db.boundsForExisting rows H.staged := by
      rw [World.rows, World.rows, h₄.source, h₄.staging, hstaged]
      rfl
    refine Program.wp_bind.mpr (runs_read h₄.toAt (fun e he hs => ?_) fun _ _ => ?_)
    · rw [hverify, (hsmooth hs).staging (legacySwitching_of_not hflight) rows hcanonical] at he
      cases he
    have hv := Checkpoint.validate_ok.mp h.sound.valid
    have hsound : H.Sound { cp with
        vectorPhase := .staged, canonicalTableName := some table, stagingTableName := some (T.stagingTable table)
        stagingOrigin := some "current_task" } w₄.columns w₄.tables := by
      refine ⟨Checkpoint.validate_ok.mpr ⟨hv.last, fun _ => ⟨by simp, by simp, by simp⟩, fun h' => (by cases h'),
        fun h' => (by cases h'), fun h' => (by cases h'), fun h' => (by cases h'), fun h' => ?_⟩,
        h₄.toAt.sound.rdb, fun _ => hrdb, legacySwitching_of_not hflight, table, ⟨hconfig, rfl, rfl, ?_⟩, ?_, ?_⟩
      · cases hnot.symm.trans (hv.cleanup h')
      · simp [originName, hflight]
      · exact h₄.source.trans hcanonical.symm
      · rw [hstaged]
        exact h₄.staging
    exact Program.wp_bind.mpr ((runs_persist h₄.toAt hsound fun _ h' => (by cases h')).imp
      fun _ w₅ h₅ => ⟨h₅.1, hrdb, rfl⟩)

/-- The staging table is there and agrees with the canonical one, if there is one. -/
theorem runs_verifyBeforeSwitch (hsmooth : smooth → H.Smooth) (h : At H smooth lease cp w)
    (hcanonical : w.tables table = H.canonical) (hstaging : w.tables (T.stagingTable table) = some H.staged)
    (hswitching : T.legacySwitching = false) :
    Runs H smooth lease (T.verifyBeforeSwitch lease table (T.stagingTable table)) (fun _ w' => w' = w) w := by
  refine Program.wp_bind.mpr (runs_read h (not_of_ok rfl) fun _ hexists => ?_)
  cases hexists
  split
  · next hsome =>
    obtain ⟨rows, hrows⟩ := Option.isSome_iff_exists.mp hsome
    refine Program.wp_bind.mpr ((runs_open h hsome).imp fun _ w₁ h₁ => ?_)
    obtain ⟨-, rfl⟩ := h₁
    have hverify : (do
        let source ← w₁.rows table
        let rows ← w₁.rows (T.stagingTable table)
        verifyStagingAgainstCanonical T.db.boundsForExisting source rows) =
        verifyStagingAgainstCanonical T.db.boundsForExisting rows H.staged := by
      rw [World.rows, World.rows, hrows, hstaging]
      rfl
    refine runs_read h (fun e he hs => ?_) fun _ _ => rfl
    rw [hverify, (hsmooth hs).staging hswitching rows (hcanonical.symm.trans hrows)] at he
    cases he
  · exact rfl

theorem verify_staging (h : w.tables table = some H.staged) : (do
    let rows ← w.rows table
    verifyVectorTableAgainstRdb T.db.boundsForExisting rows) = .ok () := by
  rw [World.rows, h]
  exact H.clean.verify

theorem verify_equivalent {staging : String} (hstaging : w.tables staging = some H.staged)
    (htable : w.tables table = some H.staged) : (do
    let expected ← w.rows staging
    let actual ← w.rows table
    verifyEquivalentVectorTables T.db.boundsForExisting expected actual) = .ok () := by
  rw [World.rows, World.rows, hstaging, htable]
  exact H.clean.equivalent

/-- The staged phase ends with the decision to switch. -/
theorem runs_beginSwitch (hsmooth : smooth → H.Smooth) (h : At H smooth lease cp w) (hrdb : cp.rdbPhase = .verified)
    (hconfig : T.vectorConfig = some table) (hphase : cp.vectorPhase.needsStaging = true) :
    Runs H smooth lease (T.beginSwitch lease table (T.stagingTable table) cp) (fun cp' w' => At H smooth lease cp' w' ∧
      cp'.rdbPhase = .verified ∧ cp'.vectorPhase.needsStaging = true ∧ cp'.vectorPhase ≠ .staged) w := by
  rw [beginSwitch]
  split
  · next hnot => exact ⟨h, hrdb, hphase, hnot⟩
  · next hnot =>
    simp only [ne_eq, not_not] at hnot
    have hvectors := h.sound.vectors
    simp only [Holding.VectorsSound, hnot] at hvectors
    obtain ⟨hswitching, table', hnamed, hcanonical, hstaging⟩ := hvectors
    obtain rfl := Option.some.inj (hconfig.symm.trans hnamed.config)
    refine Program.wp_bind.mpr ((runs_open h (Option.isSome_iff_exists.mpr ⟨_, hstaging⟩)).imp fun _ w₁ h₁ => ?_)
    obtain ⟨-, rfl⟩ := h₁
    refine Program.wp_bind.mpr (runs_read h (not_of_ok (verify_staging hstaging)) fun _ _ => ?_)
    refine Program.wp_bind.mpr ((runs_verifyBeforeSwitch hsmooth h hcanonical hstaging hswitching).imp fun _ w₂ h₂ => ?_)
    subst h₂
    have hv := Checkpoint.validate_ok.mp h.sound.valid
    have hnames := hv.staging hphase
    have hsound : H.Sound { cp with vectorPhase := .switching } w₂.columns w₂.tables := by
      refine ⟨Checkpoint.validate_ok.mpr ⟨hv.last, fun _ => hnames, fun h' => (by cases h'),
        fun h' => (by cases h'), fun h' => (by cases h'), fun h' => (by cases h'), fun h' => ?_⟩,
        h.sound.rdb, fun _ => hrdb, table, ⟨hconfig, hnamed.canonical, hnamed.staging, hnamed.origin⟩, hstaging⟩
      cases hnot.symm.trans (hv.cleanup h')
    exact Program.wp_bind.mpr ((runs_persist h hsound fun _ h' => (by cases h')).imp
      fun _ w₅ h₅ => ⟨h₅.1, hrdb, rfl, fun h' => (by cases h')⟩)

end
section
variable {H : Holding T} {smooth : Prop} {self : ℕ} {lease : TaskLease} {cp cp' : Checkpoint} {w : World} {table : String}
  {rows : VectorTable}

/-- While the switch is under way, only the staging table binds the checkpoint. -/
theorem At.switchingInv (h : At H smooth lease cp w) (hconfig : T.vectorConfig = some table)
    (hphase : cp.vectorPhase = .switching) {tables : VectorTables}
    (hstaging : tables (T.stagingTable table) = some H.staged) (lock : Option ℕ) (label : StepLabel) :
    Inv H smooth label { w with lock, tables } := by
  have hstored := h.stored
  have hsound := h.sound
  refine ⟨⟨h.good.row, ?_⟩, fun _ => .inr fun h' => ?_⟩
  · show H.Sound (storedCheckpoint w.row) w.columns tables
    rw [hstored]
    refine ⟨hsound.valid, hsound.rdb, hsound.verified, ?_⟩
    have hvectors := hsound.vectors
    simp only [Holding.VectorsSound, hphase] at hvectors ⊢
    obtain ⟨table', hnamed, -⟩ := hvectors
    obtain rfl := Option.some.inj (hconfig.symm.trans hnamed.config)
    exact ⟨table, hnamed, hstaging⟩
  · change (storedCheckpoint w.row).vectorPhase = _ at h'
    rw [hstored, hphase] at h'
    cases h'

/-- The canonical table is dropped, created, and filled from the staging table. -/
theorem tx_replaceTable (h : At H smooth lease cp w) (hconfig : T.vectorConfig = some table)
    (hphase : cp.vectorPhase = .switching) (hstaging : w.tables (T.stagingTable table) = some H.staged) :
    Program.wp (fun _ => True) (Inv H smooth)
      (fun _ w' => w' = { w with lock := some self, tables := w.tables.set table (some H.staged) }) (fun _ _ => False)
      (T.replaceTableFromStaging self table (T.stagingTable table)) { w with lock := some self } := by
  have hinv : ∀ rows label, Inv H smooth label { w with lock := some self, tables := w.tables.set table rows } :=
    fun rows label => h.switchingInv hconfig hphase ((set_other _ (stagingTable_ne table) _).trans hstaging) _ label
  have hread : World.rows { w with lock := some self } (T.stagingTable table) = .ok H.staged := by
    rw [World.rows, hstaging]
  refine Program.wp_bind.mpr (tx_read (h.switchingInv hconfig hphase hstaging _ _) hread ?_)
  have hdrop : VectorTables.dropIfExists table w.tables = .ok (w.tables.set table none) := rfl
  refine Program.wp_bind.mpr (tx_step (h.switchingInv hconfig hphase hstaging _ _) rfl hdrop ?_)
  have hcreate : VectorTables.openOrCreate table (w.tables.set table none) = .ok (w.tables.set table (some [])) := by
    simp [VectorTables.openOrCreate, set_set]
  refine Program.wp_bind.mpr (tx_step (hinv none _) rfl hcreate ?_)
  have hloop := Program.wp_forEach (V := fun _ : Clock => True) (I := Inv H smooth) (E := fun _ _ => False)
    (f := fun batch => fencedStep self (VectorTables.append table batch))
    (J := fun rest w' => ∃ done, done ++ rest.flatten = H.staged ∧
      w' = { w with lock := some self, tables := w.tables.set table (some done) }) (l := T.batches H.staged)
    (s := { w with lock := some self, tables := w.tables.set table (some []) })
    (fun batch rest w' hw' => ?_) ⟨[], by simpa using T.batches_flatten _, rfl⟩
  · refine hloop.imp fun _ w' hw' => ?_
    obtain ⟨done, hdone, rfl⟩ := hw'
    rw [List.flatten_nil, List.append_nil] at hdone
    rw [hdone]
  · obtain ⟨done, hdone, rfl⟩ := hw'
    have happend : VectorTables.append table batch (w.tables.set table (some done)) =
        .ok (w.tables.set table (some (done ++ batch))) := by
      simp [VectorTables.append, set_set]
    refine tx_step (hinv (some done) _) rfl happend ⟨done ++ batch, ?_, rfl⟩
    simpa using hdone

/-- **The cut-over** leaves the staged rows in both tables. -/
theorem runs_cutover (h : At H smooth lease cp w) (hrdb : cp.rdbPhase = .verified)
    (hconfig : T.vectorConfig = some table) (hphase : cp.vectorPhase.needsStaging = true)
    (hnot : cp.vectorPhase ≠ .staged) :
    Runs H smooth lease (T.cutover self lease table (T.stagingTable table) cp) (fun cp' w' => At H smooth lease cp' w' ∧
      cp'.rdbPhase = .verified ∧ (cp'.vectorPhase = .canonicalReady ∨ cp'.vectorPhase = .indexesVerified)) w := by
  rw [cutover]
  split
  · next hphase' =>
    refine ⟨h, hrdb, ?_⟩
    revert hphase hnot hphase'
    cases cp.vectorPhase <;> simp [VectorPhase.needsStaging]
  · next hswitching =>
    simp only [ne_eq, not_not] at hswitching
    have hvectors := h.sound.vectors
    simp only [Holding.VectorsSound, hswitching] at hvectors
    obtain ⟨table', hnamed, hstaging⟩ := hvectors
    obtain rfl := Option.some.inj (hconfig.symm.trans hnamed.config)
    refine Program.wp_bind.mpr ((runs_open h (Option.isSome_iff_exists.mpr ⟨_, hstaging⟩)).imp fun _ w₁ h₁ => ?_)
    obtain ⟨-, rfl⟩ := h₁
    refine Program.wp_bind.mpr (runs_read h (not_of_ok (verify_staging hstaging)) fun _ _ => ?_)
    have hv := Checkpoint.validate_ok.mp h.sound.valid
    have hnames := hv.staging hphase
    set tables := w₁.tables.set table (some H.staged) with htables
    have htable : tables table = some H.staged := set_same _ _ _
    have hstaging' : tables (T.stagingTable table) = some H.staged :=
      (set_other _ (stagingTable_ne table) _).trans hstaging
    have hsound : H.Sound { cp with vectorPhase := .canonicalReady } w₁.columns tables := by
      refine ⟨Checkpoint.validate_ok.mpr ⟨hv.last, fun _ => hnames, fun h' => (by cases h'),
        fun h' => (by cases h'), fun h' => (by cases h'), fun h' => (by cases h'), fun h' => ?_⟩,
        h.sound.rdb, fun _ => hrdb, table, ⟨hconfig, hnamed.canonical, hnamed.staging, hnamed.origin⟩, htable, hstaging'⟩
      cases hswitching.symm.trans (hv.cleanup h')
    have hinv := fun label => h.switchingInv hconfig hswitching hstaging' (some self) label
    refine Program.wp_bind.mpr ((runs_fenced h (Program.wp_bind.mpr
      ((tx_replaceTable h hconfig hswitching hstaging).imp fun _ w' hw' => ?_)) (hinv _) hsound
      fun _ h' => (by cases h')).imp fun _ w₂ h₂ => ⟨h₂.1, hrdb, .inl rfl⟩)
    subst hw'
    have hopen : ∀ name, tables name = some H.staged → VectorTables.openOrCreate name tables = .ok tables := by
      intro name hname
      simp [VectorTables.openOrCreate, hname]
    refine Program.wp_bind.mpr (tx_step (hinv _) rfl (hopen table htable) ?_)
    refine Program.wp_bind.mpr (tx_step (hinv _) rfl (hopen _ hstaging') ?_)
    refine tx_read (hinv _) (?_ : _ = Except.ok ()) rfl
    simp only [World.rows, htable, hstaging']
    exact H.clean.identical

/-- The indexes are built once both tables hold the staged rows. -/
theorem runs_buildIndexes (h : At H smooth lease cp w) (hrdb : cp.rdbPhase = .verified)
    (hconfig : T.vectorConfig = some table)
    (hphase : cp.vectorPhase = .canonicalReady ∨ cp.vectorPhase = .indexesVerified) :
    Runs H smooth lease (T.buildIndexes self lease table (T.stagingTable table) cp) (fun cp' w' =>
      At H smooth lease cp' w' ∧ cp'.rdbPhase = .verified ∧ cp'.vectorPhase = .indexesVerified) w := by
  rw [buildIndexes]
  split
  · next hnot => exact ⟨h, hrdb, hphase.resolve_left hnot⟩
  · next hready =>
    simp only [ne_eq, not_not] at hready
    have hvectors := h.sound.vectors
    simp only [Holding.VectorsSound, hready] at hvectors
    obtain ⟨table', hnamed, htable, hstaging⟩ := hvectors
    obtain rfl := Option.some.inj (hconfig.symm.trans hnamed.config)
    refine Program.wp_bind.mpr ((runs_open h (Option.isSome_iff_exists.mpr ⟨_, htable⟩)).imp fun _ w₁ h₁ => ?_)
    obtain ⟨-, rfl⟩ := h₁
    refine Program.wp_bind.mpr ((runs_open h (Option.isSome_iff_exists.mpr ⟨_, hstaging⟩)).imp fun _ w₂ h₂ => ?_)
    obtain ⟨-, rfl⟩ := h₂
    refine Program.wp_bind.mpr (runs_read h (not_of_ok (verify_equivalent hstaging htable)) fun _ _ => ?_)
    have hv := Checkpoint.validate_ok.mp h.sound.valid
    have hnames := hv.staging (by rw [hready]; rfl)
    have hsound : H.Sound { cp with
        indexOutcomes := some { fts := .rebuilt, ann := T.annOutcome }, vectorPhase := .indexesVerified }
        w₂.columns w₂.tables := by
      refine ⟨Checkpoint.validate_ok.mpr ⟨hv.last, fun _ => hnames, fun h' => (by cases h'), fun h' => (by cases h'),
        fun h' => (by cases h'), fun _ => by simp, fun _ => rfl⟩, h.sound.rdb, fun _ => hrdb, table,
        ⟨hconfig, hnamed.canonical, hnamed.staging, hnamed.origin⟩, htable, .inl hstaging⟩
    have hlocked : ∀ label, Inv H smooth label { w₂ with lock := some self } := fun label =>
      ⟨⟨h.good.row, h.good.sound⟩, fun hs => .inr (h.strict hs)⟩
    have hopen : VectorTables.openOrCreate table w₂.tables = .ok w₂.tables := by
      simp [VectorTables.openOrCreate, htable]
    refine Program.wp_bind.mpr ((runs_fenced h (tx_step (hlocked _) rfl hopen rfl) (hlocked _) hsound
      fun _ _ table' hconfig' => ?_).imp fun _ w₃ h₃ => ⟨h₃.1, hrdb, rfl⟩)
    obtain rfl := Option.some.inj (hconfig.symm.trans hconfig')
    exact hstaging

theorem runs_verifyBeforeCleanup (h : At H smooth lease cp w) (htable : w.tables table = some H.staged)
    (hstaging : w.tables (T.stagingTable table) = some H.staged ∨
      cp.stagingCleanupStarted = true ∧ w.tables (T.stagingTable table) = none) :
    Runs H smooth lease (T.verifyBeforeCleanup lease table (T.stagingTable table) cp) (fun _ w' => w' = w) w := by
  refine Program.wp_bind.mpr (runs_read h (not_of_ok rfl) fun _ hexists => ?_)
  cases hexists
  rcases hstaging with hstaging | ⟨hstarted, hnone⟩
  · rw [hstaging]
    refine Program.wp_bind.mpr ((runs_open h (Option.isSome_iff_exists.mpr ⟨_, hstaging⟩)).imp fun _ w₁ h₁ => ?_)
    obtain ⟨-, rfl⟩ := h₁
    exact runs_read h (not_of_ok (verify_equivalent hstaging htable)) fun _ _ => rfl
  · rw [hnone]
    exact runs_lift h (not_of_ok (check_ok.mpr hstarted)) fun _ _ => rfl

/-- **The clean-up**: the staging table is dropped, and the task says it has migrated. -/
theorem runs_cleanupStaging (h : At H smooth lease cp w) (hrdb : cp.rdbPhase = .verified)
    (hconfig : T.vectorConfig = some table) (hphase : cp.vectorPhase = .indexesVerified) :
    Runs H smooth lease (T.cleanupStaging self lease table (T.stagingTable table) cp) (fun cp' w' =>
      At H smooth lease cp' w' ∧ cp'.rdbPhase = .verified ∧ cp'.vectorPhase = .completed ∧
        cp'.vectorOutcome = some "migrated") w := by
  rw [cleanupStaging]
  split
  · next hnot => exact absurd hphase hnot
  · have hvectors := h.sound.vectors
    simp only [Holding.VectorsSound, hphase] at hvectors
    obtain ⟨table', hnamed, htable, hstaging⟩ := hvectors
    obtain rfl := Option.some.inj (hconfig.symm.trans hnamed.config)
    refine Program.wp_bind.mpr ((runs_open h (Option.isSome_iff_exists.mpr ⟨_, htable⟩)).imp fun _ w₁ h₁ => ?_)
    obtain ⟨-, rfl⟩ := h₁
    refine Program.wp_bind.mpr ((runs_verifyBeforeCleanup h htable hstaging).imp fun _ w₂ h₂ => ?_)
    subst h₂
    have hv := Checkpoint.validate_ok.mp h.sound.valid
    have hnames := hv.staging (by rw [hphase]; rfl)
    have hindexes := hv.indexes hphase
    have hstarted : H.Sound { cp with stagingCleanupStarted := true } w₂.columns w₂.tables := by
      refine ⟨Checkpoint.validate_ok.mpr ⟨hv.last, fun _ => hnames, hv.ended, hv.outcome, hv.migrated, hv.indexes,
        fun _ => hphase⟩, h.sound.rdb, fun _ => hrdb, ?_⟩
      simp only [Holding.VectorsSound, hphase]
      exact ⟨table, ⟨hconfig, hnamed.canonical, hnamed.staging, hnamed.origin⟩, htable,
        hstaging.imp_right fun h' => ⟨trivial, h'.2⟩⟩
    refine Program.wp_bind.mpr ((runs_persist h hstarted fun hs _ => h.strict' hs hphase).imp fun _ w₃ h₃ => ?_)
    obtain ⟨h₃, htables⟩ := h₃
    have htable₃ : w₃.tables table = some H.staged := by rw [htables]; exact htable
    set tables := w₃.tables.set (T.stagingTable table) none with hdef
    have htable' : tables table = some H.staged := (set_other _ (stagingTable_ne table).symm _).trans htable₃
    have hdone : H.Sound { cp with
        vectorPhase := .completed, stagingTableName := none, stagingOrigin := none, stagingCleanupStarted := false
        vectorOutcome := some "migrated" } w₃.columns tables := by
      refine ⟨Checkpoint.validate_ok.mpr ⟨hv.last, fun h' => (by cases h'), fun _ => ⟨rfl, rfl⟩, fun h' => (by cases h'),
        fun _ _ => ⟨hnames.1, hindexes⟩, fun h' => (by cases h'), fun h' => (by cases h')⟩, h₃.sound.rdb, fun _ => hrdb, ?_⟩
      exact .inr ⟨rfl, table, hconfig, htable', set_same _ _ _⟩
    have hlocked : Inv H smooth .plain { w₃ with lock := some self } :=
      ⟨⟨h₃.good.row, h₃.good.sound⟩, fun hs => .inr (h₃.strict hs)⟩
    -- the staging table is gone before the checkpoint that says so
    have hdropped : Inv H smooth .cleanupCommit { w₃ with lock := some self, tables } := by
      refine ⟨⟨h₃.good.row, ?_⟩, fun _ => .inl rfl⟩
      show H.Sound (storedCheckpoint w₃.row) w₃.columns tables
      have hsound := h₃.sound
      rw [h₃.stored]
      refine ⟨hsound.valid, hsound.rdb, hsound.verified, ?_⟩
      simp only [Holding.VectorsSound, hphase]
      exact ⟨table, ⟨hconfig, hnamed.canonical, hnamed.staging, hnamed.origin⟩, htable',
        .inr ⟨trivial, set_same _ _ _⟩⟩
    have hdrop : VectorTables.dropIfExists (T.stagingTable table) w₃.tables = .ok tables := rfl
    exact Program.wp_bind.mpr ((runs_fenced h₃ (tx_step hlocked rfl hdrop rfl) hdropped hdone
      fun _ h' => (by cases h')).imp fun _ w₄ h₄ => ⟨h₄.1, hrdb, rfl, rfl⟩)

end

/-! ## Beginning and end -/

section
variable {H : Holding T} {smooth : Prop} {self : ℕ} {lease : TaskLease} {cp cp' : Checkpoint} {w : World} {table : String}
  {rows : VectorTable}

/-- The vector part has ended. -/
def Ended (H : Holding T) (smooth : Prop) (lease : TaskLease) (w : World) : Prop :=
  ∃ cp, At H smooth lease cp w ∧ cp.rdbPhase = .verified ∧ cp.vectorPhase = .completed

theorem runs_notRequired (h : At H smooth lease cp w) (hrdb : cp.rdbPhase = .verified)
    (hphase : cp.vectorPhase = .pending ∨ cp.vectorPhase = .notRequired) (hflight : T.legacyInFlight = false)
    (hcanonical : H.canonical = none) (htables : ∀ table, T.vectorConfig = some table → w.tables table = none) :
    Runs H smooth lease (T.notRequired lease cp) (fun _ w' => Ended H smooth lease w') w := by
  have hv := Checkpoint.validate_ok.mp h.sound.valid
  have hnames : cp.stagingTableName = none ∧ cp.stagingOrigin = none := by
    have hvectors := h.sound.vectors
    rcases hphase with hphase | hphase
    all_goals
      simp only [Holding.VectorsSound, hphase] at hvectors
      exact ⟨hvectors.1, hvectors.2.1⟩
  have hcleanup : cp.stagingCleanupStarted = false := by
    by_contra hstarted
    have hindexed := hv.cleanup (by simpa using hstarted)
    rcases hphase with hphase | hphase <;> cases hphase.symm.trans hindexed
  have hmiddle : H.Sound { cp with vectorPhase := .notRequired, vectorOutcome := none } w.columns w.tables := by
    refine ⟨Checkpoint.validate_ok.mpr ⟨hv.last, fun h' => (by cases h'), fun h' => (by cases h'), fun _ => rfl,
      fun h' => (by cases h'), fun h' => (by cases h'), fun h' => ?_⟩, h.sound.rdb, fun _ => hrdb,
      ⟨hnames.1, hnames.2, hcanonical, hflight, htables⟩⟩
    cases hcleanup.symm.trans h'
  refine Program.wp_bind.mpr ((runs_persist h hmiddle fun _ h' => (by cases h')).imp fun _ w₁ h₁ => ?_)
  obtain ⟨h₁, htables₁⟩ := h₁
  have hdone : H.Sound { cp with vectorPhase := .completed, vectorOutcome := some "not_required" } w₁.columns w₁.tables := by
    refine ⟨Checkpoint.validate_ok.mpr ⟨hv.last, fun h' => (by cases h'), fun _ => hnames, fun h' => (by cases h'),
      fun _ h' => ?_, fun h' => (by cases h'), fun h' => ?_⟩, h₁.sound.rdb, fun _ => hrdb,
      .inl ⟨rfl, hcanonical, hflight, by rw [htables₁]; exact htables⟩⟩
    · exact absurd (Option.some.inj h') (by decide)
    · cases hcleanup.symm.trans h'
  exact Program.wp_bind.mpr ((runs_persist h₁ hdone fun _ h' => (by cases h')).imp fun _ w₂ h₂ => ⟨_, h₂.1, hrdb, rfl⟩)

/-- A legacy cut-over that is under way is taken over; otherwise the checkpoint is left alone. -/
theorem runs_adoptLegacy (hsmooth : smooth → H.Smooth) {legacy : Option (LegacyVectorState × Option String)}
    (h : At H smooth lease cp w) (hrdb : cp.rdbPhase = .verified) (hconfig : T.vectorConfig = some table)
    (hlegacy : T.legacyVectorState = .ok legacy) (hcompleted : cp.vectorPhase ≠ .completed) :
    Runs H smooth lease (T.adoptLegacy lease table (w.tables table).isSome legacy cp) (fun cp' w' =>
      At H smooth lease cp' w' ∧ cp'.rdbPhase = .verified ∧ w'.tables = w.tables ∧ cp'.vectorPhase ≠ .completed ∧
        (cp'.vectorPhase = .pending → T.legacyInFlight = false)) w := by
  unfold adoptLegacy
  split
  · next hphase => exact ⟨h, hrdb, rfl, hcompleted, fun h' => absurd h' hphase⟩
  · next hphase =>
    simp only [ne_eq, not_not] at hphase
    have hvectors := h.sound.vectors
    simp only [Holding.VectorsSound, hphase] at hvectors
    obtain ⟨-, -, -, htables⟩ := hvectors
    obtain ⟨hcanonical, hstaging⟩ := htables table hconfig
    split
    · next state name =>
      split
      · next hflight =>
        have hin : T.legacyInFlight = true := by
          rw [legacyInFlight, hlegacy]
          rcases hflight with rfl | rfl <;> rfl
        refine Program.wp_bind.mpr (runs_lift h (fun e he hs => ?_) fun _ _ => ?_)
        · obtain ⟨legacy', hlegacy', hfacts⟩ := (hsmooth hs).legacy
          obtain rfl := Except.ok.inj (hlegacy.symm.trans hlegacy')
          obtain ⟨table', hconfig', hname⟩ := (hfacts state name rfl).2 hflight
          obtain rfl := Option.some.inj (hconfig.symm.trans hconfig')
          rw [check_ok.mpr (decide_eq_true hname)] at he
          cases he
        · have hsome : (w.tables (legacyStagingName table)).isSome = true := by rw [hstaging hin]; rfl
          refine Program.wp_bind.mpr (runs_read h (not_of_ok (check_ok.mpr hsome)) fun _ _ => ?_)
          have hstagingTable : T.stagingTable table = legacyStagingName table := if_pos hin
          have horigin : T.originName = "legacy_thread_time_fields_v1" := if_pos hin
          have hv := Checkpoint.validate_ok.mp h.sound.valid
          have hsound : H.Sound { cp with
              vectorPhase := if state = .staged then .staged else .switching
              canonicalTableName := some table, stagingTableName := some (legacyStagingName table)
              stagingOrigin := some "legacy_thread_time_fields_v1" } w.columns w.tables := by
            have hnamed : ∀ cp' : Checkpoint, cp'.canonicalTableName = some table →
                cp'.stagingTableName = some (legacyStagingName table) →
                cp'.stagingOrigin = some "legacy_thread_time_fields_v1" → Named T table cp' :=
              fun cp' h₁ h₂ h₃ => ⟨hconfig, h₁, hstagingTable ▸ h₂, horigin ▸ h₃⟩
            have hcleanup : cp.stagingCleanupStarted = true → False := fun h' => by
              cases hphase.symm.trans (hv.cleanup h')
            split
            · next hstate =>
              refine ⟨Checkpoint.validate_ok.mpr ⟨hv.last, fun _ => ⟨by simp, by simp, by simp⟩, fun h' => (by cases h'),
                fun h' => (by cases h'), fun h' => (by cases h'), fun h' => (by cases h'), fun h' => (hcleanup h').elim⟩,
                h.sound.rdb, fun _ => hrdb, ?_, table, hnamed _ rfl rfl rfl, hcanonical, ?_⟩
              · rw [legacySwitching, hlegacy, hstate]
                rfl
              · rw [hstagingTable]
                exact hstaging hin
            · refine ⟨Checkpoint.validate_ok.mpr ⟨hv.last, fun _ => ⟨by simp, by simp, by simp⟩, fun h' => (by cases h'),
                fun h' => (by cases h'), fun h' => (by cases h'), fun h' => (by cases h'), fun h' => (hcleanup h').elim⟩,
                h.sound.rdb, fun _ => hrdb, table, hnamed _ rfl rfl rfl, ?_⟩
              rw [hstagingTable]
              exact hstaging hin
          refine Program.wp_bind.mpr ((runs_persist h hsound fun _ h' => ?_).imp fun _ w₁ h₁ =>
            ⟨h₁.1, hrdb, h₁.2, ?_, fun h' => ?_⟩)
          · dsimp only at h'
            split at h' <;> cases h'
          · dsimp only
            split <;> simp
          · dsimp only at h'
            split at h' <;> cases h'
      · next hnot =>
        have hout : T.legacyInFlight = false := by
          rw [legacyInFlight, hlegacy]
          simp only [not_or] at hnot
          simp [hnot]
        split
        · next hmissing =>
          refine h.fails (fun hs => ?_) _
          obtain ⟨legacy', hlegacy', hfacts⟩ := (hsmooth hs).legacy
          obtain rfl := Except.ok.inj (hlegacy.symm.trans hlegacy')
          have hsome := (hfacts state name rfl).1 hmissing.1 (by simp [hconfig])
          have hnone := hmissing.2
          rw [hcanonical] at hnone
          exact hsome (by simpa using hnone)
        · exact ⟨h, hrdb, rfl, hcompleted, fun _ => hout⟩
    · refine ⟨h, hrdb, rfl, hcompleted, fun _ => ?_⟩
      rw [legacyInFlight, hlegacy]

theorem Holding.VectorsSound.named {tables : VectorTables} (h : H.VectorsSound cp tables)
    (hphase : cp.vectorPhase.needsStaging = true) (hconfig : T.vectorConfig = some table) : Named T table cp := by
  have hany : ∃ table, Named T table cp := by
    cases hp : cp.vectorPhase with
    | staged | switching | canonicalReady | indexesVerified =>
      simp only [Holding.VectorsSound, hp] at h
      first
        | exact ⟨h.2.choose, h.2.choose_spec.1⟩
        | exact ⟨h.choose, h.choose_spec.1⟩
    | _ => simp [hp, VectorPhase.needsStaging] at hphase
  obtain ⟨table', hnamed⟩ := hany
  obtain rfl := Option.some.inj (hconfig.symm.trans hnamed.config)
  exact hnamed

theorem Named.stagingNameOf (h : Named T table cp) : stagingNameOf table cp = .ok (T.stagingTable table) := by
  rw [MessageTimesTask.stagingNameOf, h.origin, originName, stagingTable]
  cases T.legacyInFlight <;> rfl

/-- Before clean-up has started, the staging table holds the staged rows. -/
theorem At.stagingThere (h : At H smooth lease cp w) (hconfig : T.vectorConfig = some table)
    (hphase : cp.vectorPhase.needsStaging = true) (hs : smooth) : (w.tables (T.stagingTable table)).isSome = true := by
  have hvectors := h.sound.vectors
  cases hp : cp.vectorPhase with
  | indexesVerified => rw [h.strict' hs hp table hconfig]; rfl
  | staged =>
    simp only [Holding.VectorsSound, hp] at hvectors
    obtain ⟨-, table', hnamed, -, hstaging⟩ := hvectors
    obtain rfl := Option.some.inj (hconfig.symm.trans hnamed.config)
    rw [hstaging]; rfl
  | switching =>
    simp only [Holding.VectorsSound, hp] at hvectors
    obtain ⟨table', hnamed, hstaging⟩ := hvectors
    obtain rfl := Option.some.inj (hconfig.symm.trans hnamed.config)
    rw [hstaging]; rfl
  | canonicalReady =>
    simp only [Holding.VectorsSound, hp] at hvectors
    obtain ⟨table', hnamed, -, hstaging⟩ := hvectors
    obtain rfl := Option.some.inj (hconfig.symm.trans hnamed.config)
    rw [hstaging]; rfl
  | _ => simp [hp, VectorPhase.needsStaging] at hphase

/-- **The migration of the vector table**, from whatever phase it had reached. -/
theorem runs_migrateVector (hsmooth : smooth → H.Smooth) (h : At H smooth lease cp w) (hrdb : cp.rdbPhase = .verified)
    (hconfig : T.vectorConfig = some table) (hphase : cp.vectorPhase = .pending ∨ cp.vectorPhase.needsStaging = true)
    (hpending : cp.vectorPhase = .pending → T.legacyInFlight = false ∧ (w.tables table).isSome) :
    Runs H smooth lease (T.migrateVector self lease table cp) (fun _ w' => Ended H smooth lease w') w := by
  have hname : stagingNameOf table cp = .ok (T.stagingTable table) := by
    rcases hphase with hp | hp
    · have hvectors := h.sound.vectors
      simp only [Holding.VectorsSound, hp] at hvectors
      rw [MessageTimesTask.stagingNameOf, hvectors.2.1, stagingTable, (hpending hp).1]
      rfl
    · exact (h.sound.vectors.named hp hconfig).stagingNameOf
  refine Program.wp_bind.mpr (runs_lift h (not_of_ok hname) fun staging hstaging => ?_)
  obtain rfl := Except.ok.inj (hname.symm.trans hstaging)
  refine Program.wp_bind.mpr ((runs_stage hsmooth h hrdb hconfig hphase hpending).imp fun cp₁ w₁ h₁ => ?_)
  obtain ⟨h₁, hrdb₁, hphase₁⟩ := h₁
  have hnamed := h₁.sound.vectors.named hphase₁ hconfig
  refine Program.wp_bind.mpr (runs_lift h₁ (not_of_ok (check_ok.mpr (decide_eq_true hnamed.staging))) fun _ _ => ?_)
  refine Program.wp_bind.mpr (runs_read h₁ (fun e he hs => ?_) fun _ _ => ?_)
  · rw [check_ok.mpr (h₁.stagingThere hconfig hphase₁ hs)] at he
    cases he
  refine Program.wp_bind.mpr ((runs_beginSwitch hsmooth h₁ hrdb₁ hconfig hphase₁).imp fun cp₂ w₂ h₂ => ?_)
  obtain ⟨h₂, hrdb₂, hphase₂, hnot⟩ := h₂
  refine Program.wp_bind.mpr ((runs_cutover h₂ hrdb₂ hconfig hphase₂ hnot).imp fun cp₃ w₃ h₃ => ?_)
  obtain ⟨h₃, hrdb₃, hphase₃⟩ := h₃
  refine Program.wp_bind.mpr ((runs_buildIndexes h₃ hrdb₃ hconfig hphase₃).imp fun cp₄ w₄ h₄ => ?_)
  obtain ⟨h₄, hrdb₄, hphase₄⟩ := h₄
  refine Program.wp_bind.mpr ((runs_cleanupStaging h₄ hrdb₄ hconfig hphase₄).imp fun cp₅ w₅ h₅ => ?_)
  obtain ⟨h₅, hrdb₅, hphase₅, houtcome⟩ := h₅
  refine runs_lift h₅ (fun e he => ?_) fun _ _ => ⟨cp₅, h₅, hrdb₅, hphase₅⟩
  rw [houtcome] at he
  cases he

/-- What has ended is answered again. -/
theorem runs_completedOutcome (h : At H smooth lease cp w) (hrdb : cp.rdbPhase = .verified)
    (hphase : cp.vectorPhase = .completed) :
    Runs H smooth lease (T.completedOutcome cp) (fun _ w' => Ended H smooth lease w') w := by
  have hended : Ended H smooth lease w := ⟨cp, h, hrdb, hphase⟩
  have hvectors := h.sound.vectors
  simp only [Holding.VectorsSound, hphase] at hvectors
  rcases hvectors with ⟨houtcome, -⟩ | ⟨houtcome, table, hconfig, htable, -⟩
  · refine Program.wp_bind.mpr (runs_lift h (fun e he => ?_) fun outcome ho => ?_)
    · rw [houtcome] at he
      cases he
    · rw [houtcome] at ho
      cases ho
      rw [if_neg (by decide)]
      exact hended
  · refine Program.wp_bind.mpr (runs_lift h (fun e he => ?_) fun outcome ho => ?_)
    · rw [houtcome] at he
      cases he
    · rw [houtcome] at ho
      cases ho
      rw [if_pos rfl, hconfig]
      have hsome : (w.tables table).isSome = true := by rw [htable]; rfl
      exact Program.wp_bind.mpr (runs_read h (not_of_ok (check_ok.mpr hsome)) fun _ _ => hended)

/-- **The vector part** ends, from whatever phase it had reached. -/
theorem runs_syncVector (hsmooth : smooth → H.Smooth) (h : At H smooth lease cp w) (hrdb : cp.rdbPhase = .verified) :
    Runs H smooth lease (T.syncVector self lease cp) (fun _ w' => Ended H smooth lease w') w := by
  refine Program.wp_bind.mpr (runs_lift h (not_of_ok (check_ok.mpr (decide_eq_true hrdb))) fun _ _ => ?_)
  split
  · next hcompleted => exact runs_completedOutcome h hrdb hcompleted
  · next hnot =>
    refine Program.wp_bind.mpr (runs_lift h (fun e he hs => ?_) fun legacy hlegacy => ?_)
    · obtain ⟨legacy, hok, -⟩ := (hsmooth hs).legacy
      rw [hok] at he
      cases he
    have hvectors := h.sound.vectors
    split
    · next hconfig =>
      have hfree : cp.vectorPhase.needsStaging = false := by
        cases hp : cp.vectorPhase with
        | staged | switching | canonicalReady | indexesVerified =>
          simp only [Holding.VectorsSound, hp] at hvectors
          first
            | cases hconfig.symm.trans hvectors.2.choose_spec.1.config
            | cases hconfig.symm.trans hvectors.choose_spec.1.config
        | _ => rfl
      have hphase : cp.vectorPhase = .pending ∨ cp.vectorPhase = .notRequired := by
        revert hfree hnot
        cases cp.vectorPhase <;> simp [VectorPhase.needsStaging]
      have hcheck : (!cp.vectorPhase.needsStaging) = true := by rw [hfree]; rfl
      refine Program.wp_bind.mpr (runs_lift h (not_of_ok (check_ok.mpr hcheck)) fun _ _ => ?_)
      refine Program.wp_bind.mpr (runs_lift h (fun e he hs => ?_) fun _ hok => ?_)
      · obtain ⟨legacy', hok, hfacts⟩ := (hsmooth hs).legacy
        obtain rfl := Except.ok.inj (hlegacy.symm.trans hok)
        have hnone : (legacy.all fun l => l.1 ≠ .staged && l.1 ≠ .switching) = true := by
          rcases legacy with _ | ⟨state, name⟩
          · rfl
          · have hstate : ¬ (state = .staged ∨ state = .switching) := fun hstate => by
              obtain ⟨table, hsome, -⟩ := (hfacts state name rfl).2 hstate
              cases hconfig.symm.trans hsome
            simpa using not_or.mp hstate
        rw [check_ok.mpr hnone] at he
        cases he
      · have hflight : T.legacyInFlight = false := by
          have hall := check_ok.mp hok
          rw [legacyInFlight, hlegacy]
          rcases legacy with _ | ⟨state, name⟩
          · rfl
          · simpa using hall
        exact runs_notRequired h hrdb hphase hflight (H.unconfigured hconfig)
          fun table hsome => by cases hconfig.symm.trans hsome
    · next table hconfig =>
      refine Program.wp_bind.mpr (runs_read h (not_of_ok rfl) fun _ hexists => ?_)
      cases hexists
      refine Program.wp_bind.mpr ((runs_adoptLegacy hsmooth h hrdb hconfig hlegacy hnot).imp fun cp₁ w₁ h₁ => ?_)
      obtain ⟨h₁, hrdb₁, htables, hnot₁, hpending⟩ := h₁
      have hvectors₁ := h₁.sound.vectors
      have hphase : cp₁.vectorPhase = .pending ∨ cp₁.vectorPhase = .notRequired ∨ cp₁.vectorPhase.needsStaging = true := by
        revert hnot₁
        cases cp₁.vectorPhase <;> simp [VectorPhase.needsStaging]
      split
      · next hmissing =>
        simp only [Bool.and_eq_true, Bool.not_eq_true', Option.isSome_eq_false_iff, Option.isNone_iff_eq_none] at hmissing
        have hnone : ∀ table', T.vectorConfig = some table' → w₁.tables table' = none := fun table' hconfig' => by
          obtain rfl := Option.some.inj (hconfig.symm.trans hconfig')
          rw [htables]
          exact hmissing.1
        rcases hphase with hp | hp | hp
        · simp only [Holding.VectorsSound, hp] at hvectors₁
          have hcanonical := (hvectors₁.2.2.2 table hconfig).1
          exact runs_notRequired h₁ hrdb₁ (.inl hp) (hpending hp) (hcanonical.symm.trans (hnone table hconfig)) hnone
        · simp only [Holding.VectorsSound, hp] at hvectors₁
          exact runs_notRequired h₁ hrdb₁ (.inr hp) hvectors₁.2.2.2.1 hvectors₁.2.2.1 hnone
        · cases hmissing.2.symm.trans hp
      · next hthere =>
        rcases hphase with hp | hp | hp
        · refine runs_migrateVector hsmooth h₁ hrdb₁ hconfig (.inl hp) fun _ => ⟨hpending hp, ?_⟩
          simp only [hp, VectorPhase.needsStaging, Bool.not_false, Bool.and_true, Bool.not_eq_true', Bool.not_eq_false] at hthere
          rw [htables]
          exact hthere
        · exfalso
          simp only [Holding.VectorsSound, hp] at hvectors₁
          have hnone := hvectors₁.2.2.2.2 table hconfig
          rw [htables] at hnone
          exact hthere (by simp [hnone, hp, VectorPhase.needsStaging])
        · exact runs_migrateVector hsmooth h₁ hrdb₁ hconfig (.inr hp) fun h' => by rw [h'] at hp; cases hp

end

end MemoryStore.DataMigration.MessageTimesTask
