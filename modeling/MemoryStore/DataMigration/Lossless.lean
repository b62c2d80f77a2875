/-
What a message times migration promises about the rows of the vector table, from the
state in which it begins to any state it can reach.
-/
import MemoryStore.DataMigration.ClaimedRun

namespace MemoryStore.DataMigration.MessageTimesTask

variable (T : MessageTimesTask)

/-- The staging table that is named: by the checkpoint, or by the legacy record before it is taken over. -/
def StagingNamed (w : World) (name : String) : Prop :=
  (storedCheckpoint w.row).stagingTableName = some name ∨
    (storedCheckpoint w.row).vectorPhase = .pending ∧ T.legacyInFlight = true ∧
      ∃ table, T.vectorConfig = some table ∧ name = legacyStagingName table

/-- **Every row that must survive** is in the canonical table or in the staging table that is named: the table holds
the rows of the source, or what a migration makes of them. -/
def Survives (source : VectorTable) (w : World) : Prop :=
  ∃ table rows, T.vectorConfig = some table ∧ (rows = source ∨ Migrated T.db.boundsForExisting source rows) ∧
    (w.tables table = some rows ∨ ∃ name, StagingNamed T w name ∧ w.tables name = some rows)

/-- A checkpoint that says staged or later, before clean-up has started, has a staging table that is complete. -/
def StagingComplete (source : VectorTable) (w : World) : Prop :=
  (storedCheckpoint w.row).vectorPhase.needsStaging = true → (storedCheckpoint w.row).stagingCleanupStarted = false →
    ∃ name rows, (storedCheckpoint w.row).stagingTableName = some name ∧ w.tables name = some rows ∧
      Migrated T.db.boundsForExisting source rows

/-- The task has never run. The source is the canonical table, if there is one; a legacy cut-over that is under way
has staged its rows. -/
structure Begins (source : Option VectorTable) (w : World) : Prop where
  row : w.row = none
  lock : w.lock = none
  unconfigured : T.vectorConfig = none → source = none
  canonical : T.legacyInFlight = false → ∀ table, T.vectorConfig = some table → w.tables table = source
  legacy : T.legacyInFlight = true → ∀ table, T.vectorConfig = some table → ∃ rows staged, source = some rows ∧
    w.tables (legacyStagingName table) = some staged ∧ Clean T.db.boundsForExisting staged ∧
    Migrated T.db.boundsForExisting rows staged

variable {T}

section
variable {source : Option VectorTable} {w : World} {H : Holding T} {rows : VectorTable}

/-- What the task holds on to stands for the source. -/
structure Holding.Holds (H : Holding T) (source : Option VectorTable) : Prop where
  canonical : T.legacyInFlight = false → H.canonical = source
  unconfigured : T.vectorConfig = none → source = none
  migrated : ∀ rows, source = some rows → Migrated T.db.boundsForExisting rows H.staged

theorem clean_nil (bounds : ℤ → Option MessageBounds) : Clean bounds [] :=
  ⟨List.nodup_nil, fun _ hr => absurd hr List.not_mem_nil⟩

theorem valid_begin : ({} : Checkpoint).validate = .ok () := rfl

/-- A task that has never run is sound. -/
theorem Begins.holding (h : Begins T source w) :
    ∃ H : Holding T, H.canonical = T.vectorConfig.bind w.tables ∧ H.Holds source ∧ H.Good w := by
  have hsound : ∀ H : Holding T, H.canonical = T.vectorConfig.bind w.tables →
      (T.legacyInFlight = true → ∀ table, T.vectorConfig = some table →
        w.tables (legacyStagingName table) = some H.staged) → H.Good w := by
    intro H hcanonical hlegacy
    refine ⟨fun row hrow => (nomatch h.row.symm.trans hrow), ?_⟩
    rw [h.row]
    refine ⟨valid_begin, trivial, fun hphase => absurd rfl hphase, rfl, rfl, rfl, fun table hconfig => ⟨?_, fun hin => ?_⟩⟩
    · rw [hcanonical, hconfig]
      rfl
    · exact hlegacy hin table hconfig
  cases hconfig : T.vectorConfig with
  | none =>
    have hbind : T.vectorConfig.bind w.tables = none := by rw [hconfig]; rfl
    refine ⟨⟨none, [], fun _ => rfl, clean_nil _, fun _ rows h' => (nomatch h')⟩, rfl,
      ⟨fun _ => (h.unconfigured hconfig).symm, fun _ => h.unconfigured hconfig, fun rows hrows =>
        (nomatch (h.unconfigured hconfig).symm.trans hrows)⟩,
      hsound _ hbind.symm fun _ table hsome => (nomatch hconfig.symm.trans hsome)⟩
  | some table =>
    have hbind : T.vectorConfig.bind w.tables = w.tables table := by rw [hconfig]; rfl
    have hnot : ∀ (p : Prop), T.vectorConfig = none → p := fun p hnone => nomatch hnone.symm.trans hconfig
    cases hflight : T.legacyInFlight with
    | true =>
      obtain ⟨rows, staged, rfl, hstaging, hclean, hmigrated⟩ := h.legacy hflight table hconfig
      refine ⟨⟨w.tables table, staged, hnot _, hclean, fun hout => (nomatch hflight.symm.trans hout)⟩, rfl,
        ⟨fun hout => (nomatch hflight.symm.trans hout), hnot _, fun rows' hrows' =>
          Option.some.inj hrows' ▸ hmigrated⟩,
        hsound _ hbind.symm fun _ table' hconfig' => ?_⟩
      obtain rfl := Option.some.inj (hconfig.symm.trans hconfig')
      exact hstaging
    | false =>
      have hcanonical := h.canonical hflight table hconfig
      cases hsource : source with
      | none =>
        exact ⟨⟨w.tables table, [], hnot _, clean_nil _, fun _ rows h' =>
          (nomatch (hcanonical.trans hsource).symm.trans h')⟩, rfl,
          ⟨fun _ => hcanonical.trans hsource, hnot _, fun rows hrows => (nomatch hrows)⟩,
          hsound _ hbind.symm fun hin => (nomatch hflight.symm.trans hin)⟩
      | some rows =>
        refine ⟨⟨w.tables table, stagedRows T.db.boundsForExisting rows, hnot _, stagedRows_clean _ _,
          fun _ rows' h' => ?_⟩, rfl, ⟨fun _ => hcanonical.trans hsource, hnot _, fun rows' hrows' => ?_⟩,
          hsound _ hbind.symm fun hin => (nomatch hflight.symm.trans hin)⟩
        · rw [Option.some.inj ((hcanonical.trans hsource).symm.trans h')]
        · rw [← Option.some.inj hrows']
          exact stagedRows_migrated _ _

/-- In a sound state, every row that must survive is there. -/
theorem Holding.Good.survives (hgood : H.Good w) (hholds : H.Holds source) (hsource : source = some rows) :
    Survives T rows w := by
  have hmigrated := hholds.migrated rows hsource
  obtain ⟨table, hconfig⟩ : ∃ table, T.vectorConfig = some table := by
    cases hconfig : T.vectorConfig with
    | none => cases (hholds.unconfigured hconfig).symm.trans hsource
    | some table => exact ⟨table, rfl⟩
  have hsame : ∀ {table'}, T.vectorConfig = some table' → table' = table := fun h' =>
    Option.some.inj (h'.symm.trans hconfig)
  have hvectors := hgood.sound.vectors
  have hgone : H.canonical = none → T.legacyInFlight = false → False := fun hnone hout => by
    rw [hholds.canonical hout, hsource] at hnone
    cases hnone
  cases hp : (storedCheckpoint w.row).vectorPhase with
  | pending =>
    simp only [Holding.VectorsSound, hp] at hvectors
    obtain ⟨hcanonical, hlegacy⟩ := hvectors.2.2.2 table hconfig
    cases hflight : T.legacyInFlight with
    | true => exact ⟨table, H.staged, hconfig, .inr hmigrated, .inr ⟨_, .inr ⟨hp, hflight, table, hconfig, rfl⟩, hlegacy hflight⟩⟩
    | false => exact ⟨table, rows, hconfig, .inl rfl, .inl (by rw [hcanonical, hholds.canonical hflight, hsource])⟩
  | notRequired =>
    simp only [Holding.VectorsSound, hp] at hvectors
    exact (hgone hvectors.2.2.1 hvectors.2.2.2.1).elim
  | staged =>
    simp only [Holding.VectorsSound, hp] at hvectors
    obtain ⟨-, table', hnamed, -, hstaging⟩ := hvectors
    exact ⟨table, H.staged, hconfig, .inr hmigrated, .inr ⟨_, .inl hnamed.staging, hstaging⟩⟩
  | switching =>
    simp only [Holding.VectorsSound, hp] at hvectors
    obtain ⟨table', hnamed, hstaging⟩ := hvectors
    exact ⟨table, H.staged, hconfig, .inr hmigrated, .inr ⟨_, .inl hnamed.staging, hstaging⟩⟩
  | canonicalReady =>
    simp only [Holding.VectorsSound, hp] at hvectors
    obtain ⟨table', hnamed, htable, -⟩ := hvectors
    obtain rfl := hsame hnamed.config
    exact ⟨table', H.staged, hconfig, .inr hmigrated, .inl htable⟩
  | indexesVerified =>
    simp only [Holding.VectorsSound, hp] at hvectors
    obtain ⟨table', hnamed, htable, -⟩ := hvectors
    obtain rfl := hsame hnamed.config
    exact ⟨table', H.staged, hconfig, .inr hmigrated, .inl htable⟩
  | completed =>
    simp only [Holding.VectorsSound, hp] at hvectors
    rcases hvectors with ⟨-, hnone, hout, -⟩ | ⟨-, table', hconfig', htable, -⟩
    · exact (hgone hnone hout).elim
    · obtain rfl := hsame hconfig'
      exact ⟨table', H.staged, hconfig, .inr hmigrated, .inl htable⟩

theorem Holding.Good.stagingComplete (hgood : H.Good w) (hholds : H.Holds source) (hsource : source = some rows) :
    StagingComplete T rows w := by
  intro hphase hcleanup
  have hmigrated := hholds.migrated rows hsource
  have hvectors := hgood.sound.vectors
  cases hp : (storedCheckpoint w.row).vectorPhase with
  | staged =>
    simp only [Holding.VectorsSound, hp] at hvectors
    obtain ⟨-, table', hnamed, -, hstaging⟩ := hvectors
    exact ⟨_, H.staged, hnamed.staging, hstaging, hmigrated⟩
  | switching =>
    simp only [Holding.VectorsSound, hp] at hvectors
    obtain ⟨table', hnamed, hstaging⟩ := hvectors
    exact ⟨_, H.staged, hnamed.staging, hstaging, hmigrated⟩
  | canonicalReady =>
    simp only [Holding.VectorsSound, hp] at hvectors
    obtain ⟨table', hnamed, -, hstaging⟩ := hvectors
    exact ⟨_, H.staged, hnamed.staging, hstaging, hmigrated⟩
  | indexesVerified =>
    simp only [Holding.VectorsSound, hp] at hvectors
    obtain ⟨table', hnamed, -, hstaging | ⟨hstarted, -⟩⟩ := hvectors
    · exact ⟨_, H.staged, hnamed.staging, hstaging, hmigrated⟩
    · cases hcleanup.symm.trans hstarted
  | _ => simp [hp, VectorPhase.needsStaging] at hphase

end

/-! ## A small database -/

/-- The vector of a thread with one memory. -/
def loneRow : ThreadVectorRecord where
  threadId := 1
  vectorKind := "content"
  chunkIndex := 0
  beginPosition := 0
  endPosition := 1
  userId := 1
  memoryKind := 1
  content := "a"
  description := none
  labels := []
  embedding := [1]
  embeddingModel := none
  channel := none
  createdAt := 1
  updatedAt := 1
  firstMessageAt := none
  lastMessageAt := none
  indexedAt := 1

def loneTask : MessageTimesTask where
  identity := "thread-message-times-v1"
  digest := "digest"
  db := { threadIds := [1], threadMemory := [(1, 7)], memories := [(7, 5)], sorted := List.pairwise_singleton _ _ }
  legacy := none
  vectorConfig := some "thread_vectors"
  batchSize := 10
  batchSize_pos := by decide
  batches := fun rows => [rows]
  batches_flatten := by simp
  annOutcome := .skippedDisabled
  rounds := 3

/-- The world before the task has ever run. -/
def loneWorld (rows : VectorTable) : World where
  columns := fun _ => (none, none)
  row := none
  lock := none
  tables := fun name => if name = "thread_vectors" then some rows else none

theorem loneWorld_begins (rows : VectorTable) : Begins loneTask (some rows) (loneWorld rows) where
  row := rfl
  lock := rfl
  unconfigured := fun h => (nomatch h)
  canonical := fun _ table h => by
    cases h
    rfl
  legacy := fun h => (nomatch h)

def earlyClock : Clock := ⟨0, by decide⟩

def lateClock : Clock := ⟨1000000, by decide⟩

end MemoryStore.DataMigration.MessageTimesTask
