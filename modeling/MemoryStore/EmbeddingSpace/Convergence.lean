/-
The startup decision converges: the records it plans lead, however many of them
were written before a crash, to a decision that plans the rest, and no plan
ever serves tables of two spaces.
-/
import MemoryStore.EmbeddingSpace.StartupRules

namespace MemoryStore.EmbeddingSpace

variable {tables tables' : List TableObservation} {t : TableObservation} {current : SpaceComponents}
  {rdbHasTargets : Bool} {writes applied : List RecordWrite}

/-! ## Writing the records -/

/-- A table observed again after a record write: on its rows nothing changed, and the labels of a
recorded table are no longer scanned. -/
def RecordWrite.apply (w : RecordWrite) (t : TableObservation) : TableObservation :=
  if t.table = w.table then { t with record := { t.record with space := some w.space }, rowModels := none } else t

/-- A table observed again after some writes. -/
def TableObservation.after (writes : List RecordWrite) (t : TableObservation) : TableObservation :=
  writes.foldl (fun t w => w.apply t) t

/-- The tables observed again after some writes. -/
def afterWrites (writes : List RecordWrite) (tables : List TableObservation) : List TableObservation :=
  tables.map (·.after writes)

@[simp] theorem RecordWrite.apply_table (w : RecordWrite) (t : TableObservation) : (w.apply t).table = t.table := by
  unfold RecordWrite.apply
  split <;> rfl

@[simp] theorem RecordWrite.apply_isEmpty (w : RecordWrite) (t : TableObservation) :
    (w.apply t).isEmpty = t.isEmpty := by
  unfold RecordWrite.apply
  split <;> rfl

@[simp] theorem RecordWrite.apply_marker (w : RecordWrite) (t : TableObservation) :
    (w.apply t).record.marker = t.record.marker := by
  unfold RecordWrite.apply
  split <;> rfl

@[simp] theorem TableObservation.after_isEmpty (writes : List RecordWrite) (t : TableObservation) :
    (t.after writes).isEmpty = t.isEmpty := by
  induction writes generalizing t with
  | nil => rfl
  | cons w writes ih => exact (ih (w.apply t)).trans (w.apply_isEmpty t)

@[simp] theorem TableObservation.after_marker (writes : List RecordWrite) (t : TableObservation) :
    (t.after writes).record.marker = t.record.marker := by
  induction writes generalizing t with
  | nil => rfl
  | cons w writes ih => exact (ih (w.apply t)).trans (w.apply_marker t)

/-- A table some writes name ends in the record of one of them; any other stays as it was. -/
theorem TableObservation.after_cases : ∀ (writes : List RecordWrite) (t : TableObservation),
    (∃ w ∈ writes, w.table = t.table ∧ (t.after writes).record.space = some w.space) ∨
      ((∀ w ∈ writes, w.table ≠ t.table) ∧ t.after writes = t)
  | [], t => .inr ⟨by simp, rfl⟩
  | w :: writes, t => by
    have hstep : t.after (w :: writes) = (w.apply t).after writes := rfl
    rw [hstep]
    rcases TableObservation.after_cases writes (w.apply t) with ⟨w', hw', htab, hs⟩ | ⟨hno, he⟩
    · exact .inl ⟨w', List.mem_cons_of_mem w hw', by simpa using htab, hs⟩
    · by_cases htab : w.table = t.table
      · refine .inl ⟨w, List.mem_cons_self, htab, ?_⟩
        rw [he, RecordWrite.apply, if_pos htab.symm]
      · have hne : w.apply t = t := by rw [RecordWrite.apply, if_neg fun h => htab h.symm]
        refine .inr ⟨?_, he.trans hne⟩
        intro w' hw'
        rcases List.mem_cons.1 hw' with rfl | hw'
        · exact htab
        · simpa using hno w' hw'

/-! ## What a start plans -/

/-- Every write records the current space. -/
def InSpace (current : SpaceComponents) (writes : List RecordWrite) : Prop :=
  ∀ w ∈ writes, w.space.spaceId = current.spaceId

/-- The tables of a start: nothing is stored, or each is let through by rules 6 to 8. -/
def Startable (current : SpaceComponents) (rdbHasTargets : Bool) (tables : List TableObservation) : Prop :=
  Unmarked tables ∧ (NothingStored tables rdbHasTargets ∨ ∀ t ∈ tables, t.Admitted current)

/-- The writes leave no table outside the current space. -/
def Completes (current : SpaceComponents) (tables : List TableObservation) (writes : List RecordWrite) : Prop :=
  ∀ t ∈ tables, t.record.RecordedIn current.spaceId ∨ ∃ w ∈ writes, w.table = t.table

/-- **A start** is decided exactly on startable tables, and its writes bring each
table that is not yet recorded in the current space there. -/
theorem decide_start_iff : (∃ writes, decide tables current rdbHasTargets = some (.start writes)) ↔
    Startable current rdbHasTargets tables := by
  rcases decide_cases tables current rdbHasTargets with
    ⟨hun, hno, hd⟩ | ⟨hun, hno, hadm, hd⟩ | ⟨hne, -, id, hp, hd⟩ | ⟨hfail, -, err, hd⟩
  · exact ⟨fun _ => ⟨hun, .inl hno⟩, fun _ => ⟨_, hd⟩⟩
  · exact ⟨fun _ => ⟨hun, .inr hadm⟩, fun _ => ⟨_, hd⟩⟩
  · rw [hd]
    refine ⟨by simp, fun h => ?_⟩
    obtain ⟨t, ht⟩ := List.exists_mem_of_ne_nil tables hne
    exact absurd ((h.1 t ht).symm.trans (hp t ht)) (by simp)
  · rw [hd]
    refine ⟨by simp, fun ⟨hun, h⟩ => ?_⟩
    obtain ⟨hno, t, ht, hna⟩ := hfail hun
    rcases h with h | h
    · exact absurd h hno
    · exact absurd (h t ht) hna

theorem decide_start_writes (h : decide tables current rdbHasTargets = some (.start writes)) :
    InSpace current writes ∧ Completes current tables writes ∧
      ((∀ t ∈ tables, t.record.RecordedIn current.spaceId) → writes = []) := by
  rcases decide_cases tables current rdbHasTargets with
    ⟨-, -, hd⟩ | ⟨-, -, hadm, hd⟩ | ⟨-, -, id, -, hd⟩ | ⟨-, -, err, hd⟩
  · obtain rfl : emptyWrites tables current = writes := by simpa [hd] using h
    unfold emptyWrites
    refine ⟨?_, ?_, ?_⟩
    · intro w hw
      obtain ⟨t, -, rfl⟩ := List.mem_map.1 hw
      rfl
    · intro t ht
      by_cases hr : t.record.RecordedIn current.spaceId
      · exact .inl hr
      · exact .inr ⟨_, List.mem_map_of_mem (List.mem_filter.2 ⟨ht, by simpa using hr⟩), rfl⟩
    · intro hall
      rw [List.map_eq_nil_iff, List.filter_eq_nil_iff]
      intro t ht
      simpa using hall t ht
  · obtain rfl : _ = writes := by simpa [hd] using h
    refine ⟨?_, ?_, ?_⟩
    · intro w hw
      obtain ⟨t, -, rfl⟩ := List.mem_map.1 hw
      rfl
    · intro t ht
      by_cases hs : t.record.space = none
      · exact .inr ⟨_, List.mem_map_of_mem (List.mem_filter.2 ⟨ht, by simpa using hs⟩), rfl⟩
      · exact .inl ((hadm t ht).1.recordedIn hs)
    · intro hall
      rw [List.map_eq_nil_iff, List.filter_eq_nil_iff]
      intro t ht hs
      have hr := hall t ht
      simp [TableRecord.RecordedIn, Option.isNone_iff_eq_none.1 hs] at hr
  · simp [hd] at h
  · simp [hd] at h

/-! ## Crashes between the writes -/

theorem Startable.afterWrites (h : Startable current rdbHasTargets tables) (hw : InSpace current writes) :
    Startable current rdbHasTargets (afterWrites writes tables) := by
  obtain ⟨hun, hrest⟩ := h
  constructor
  · intro t' ht'
    obtain ⟨t, ht, rfl⟩ := List.mem_map.1 ht'
    rw [TableObservation.after_marker]
    exact hun t ht
  · rcases hrest with ⟨hempty, hrdb⟩ | hadm
    · refine .inl ⟨?_, hrdb⟩
      intro t' ht'
      obtain ⟨t, ht, rfl⟩ := List.mem_map.1 ht'
      rw [TableObservation.after_isEmpty]
      exact hempty t ht
    · refine .inr ?_
      intro t' ht'
      obtain ⟨t, ht, rfl⟩ := List.mem_map.1 ht'
      rcases t.after_cases writes with ⟨w, hmem, -, hs⟩ | ⟨-, he⟩
      · constructor
        · intro s hs'
          obtain rfl := Option.some.inj (hs.symm.trans hs')
          exact hw w hmem
        · simp [hs]
      · rw [he]
        exact hadm t ht

theorem Completes.recorded (h : Completes current tables writes) (hw : InSpace current writes) :
    ∀ t ∈ afterWrites writes tables, t.record.RecordedIn current.spaceId := by
  intro t' ht'
  obtain ⟨t, ht, rfl⟩ := List.mem_map.1 ht'
  rcases t.after_cases writes with ⟨w, hmem, -, hs⟩ | ⟨hno, he⟩
  · simp [TableRecord.RecordedIn, hs, hw w hmem]
  · rw [he]
    rcases h t ht with hr | ⟨w, hmem, htab⟩
    · exact hr
    · exact absurd htab (hno w hmem)

/-! ## The order of the tables -/

inductive DecisionKind where
  | start | rebuildingStart | failure
  deriving DecidableEq, Repr

def StartupDecision.kind : StartupDecision → DecisionKind
  | .start _ => .start
  | .startRebuilding _ => .rebuildingStart
  | .fail _ => .failure

/-- **A rebuilding start** is decided exactly on the tables of one pending attempt in the current space. -/
theorem decide_rebuilding_iff {attemptId : String} :
    decide tables current rdbHasTargets = some (.startRebuilding attemptId) ↔
      tables ≠ [] ∧ PendingOf attemptId tables ∧ ∀ t ∈ tables, t.Agrees current := by
  have hun : ∀ id, tables ≠ [] → PendingOf id tables → ¬ Unmarked tables := by
    intro id hne hp hun
    obtain ⟨t, ht⟩ := List.exists_mem_of_ne_nil tables hne
    exact absurd ((hun t ht).symm.trans (hp t ht)) (by simp)
  rcases decide_cases tables current rdbHasTargets with
    ⟨hu, -, hd⟩ | ⟨hu, -, -, hd⟩ | ⟨hne, hag, id, hp, hd⟩ | ⟨-, hfail, err, hd⟩
  · rw [hd]
    exact ⟨by simp, fun ⟨hne, hp, _⟩ => absurd hu (hun _ hne hp)⟩
  · rw [hd]
    exact ⟨by simp, fun ⟨hne, hp, _⟩ => absurd hu (hun _ hne hp)⟩
  · rw [hd]
    constructor
    · intro h
      obtain rfl : id = attemptId := by simpa using h
      exact ⟨hne, hp, hag⟩
    · rintro ⟨-, hp', -⟩
      obtain ⟨t, ht⟩ := List.exists_mem_of_ne_nil tables hne
      have := (hp t ht).symm.trans (hp' t ht)
      simpa using this
  · rw [hd]
    refine ⟨by simp, fun ⟨hne, hp, hag⟩ => ?_⟩
    obtain ⟨t, ht, hdis⟩ := hfail _ hne hp
    exact absurd (hag t ht) hdis

theorem decide_ne_none (tables : List TableObservation) (current : SpaceComponents) (rdbHasTargets : Bool) :
    decide tables current rdbHasTargets ≠ none := by
  rcases decide_cases tables current rdbHasTargets with
    ⟨-, -, hd⟩ | ⟨-, -, -, hd⟩ | ⟨-, -, id, -, hd⟩ | ⟨-, -, err, hd⟩
  all_goals rw [hd]; exact Option.some_ne_none _

theorem Startable.perm (h : tables.Perm tables') (hs : Startable current rdbHasTargets tables) :
    Startable current rdbHasTargets tables' := by
  obtain ⟨hun, hrest⟩ := hs
  refine ⟨fun t ht => hun t (h.mem_iff.2 ht), ?_⟩
  rcases hrest with ⟨hempty, hrdb⟩ | hadm
  · exact .inl ⟨fun t ht => hempty t (h.mem_iff.2 ht), hrdb⟩
  · exact .inr fun t ht => hadm t (h.mem_iff.2 ht)

theorem decide_kind_perm (h : tables.Perm tables') : (decide tables current rdbHasTargets).map StartupDecision.kind =
    (decide tables' current rdbHasTargets).map StartupDecision.kind := by
  have hstart : (∃ ws, decide tables current rdbHasTargets = some (.start ws)) ↔
      ∃ ws, decide tables' current rdbHasTargets = some (.start ws) := by
    rw [decide_start_iff, decide_start_iff]
    exact ⟨.perm h, .perm h.symm⟩
  have hrebuild : ∀ id, decide tables current rdbHasTargets = some (.startRebuilding id) ↔
      decide tables' current rdbHasTargets = some (.startRebuilding id) := by
    intro id
    have hnil : tables = [] ↔ tables' = [] := ⟨fun he => by rw [he] at h; exact h.nil_eq.symm,
      fun he => by rw [he] at h; exact h.eq_nil⟩
    simp only [decide_rebuilding_iff, PendingOf, h.mem_iff, ne_eq, hnil]
  obtain ⟨d, hd⟩ := Option.ne_none_iff_exists'.1 (decide_ne_none tables current rdbHasTargets)
  obtain ⟨d', hd'⟩ := Option.ne_none_iff_exists'.1 (decide_ne_none tables' current rdbHasTargets)
  rw [hd, hd'] at hstart hrebuild ⊢
  cases d with
  | start ws =>
    obtain ⟨ws', he⟩ := hstart.1 ⟨ws, rfl⟩
    rw [Option.some.inj he]
    rfl
  | startRebuilding id =>
    rw [Option.some.inj ((hrebuild id).1 rfl)]
  | fail err =>
    cases d' with
    | start ws =>
      obtain ⟨ws', he⟩ := hstart.2 ⟨ws, rfl⟩
      exact absurd (Option.some.inj he) (by simp)
    | startRebuilding id => exact absurd (Option.some.inj ((hrebuild id).2 rfl)) (by simp)
    | fail err' => rfl

/-- **Startup converges and never mixes spaces.** The decision never panics. A
start is on unmarked tables, its writes bring every non-empty table into the
current space, and after any prefix of them the decision is a start again,
after all of them one with nothing left to write. A rebuilding start is on the
tables of one pending attempt in the current space and on no others. Which of
the three the decision is does not depend on the order of the tables. -/
theorem startup_converges (tables : List TableObservation) (current : SpaceComponents) (rdbHasTargets : Bool) :
    decide tables current rdbHasTargets ≠ none ∧
    (∀ writes, decide tables current rdbHasTargets = some (.start writes) →
      (∀ t ∈ tables, t.record.marker = none) ∧
      (∀ t ∈ tables, t.isEmpty = false → t.record.RecordedIn current.spaceId ∨
        ∃ w ∈ writes, w.table = t.table ∧ w.space.spaceId = current.spaceId) ∧
      (∀ applied, applied <+: writes →
        ∃ rest, decide (afterWrites applied tables) current rdbHasTargets = some (.start rest)) ∧
      decide (afterWrites writes tables) current rdbHasTargets = some (.start []) ∧
      ∀ t ∈ afterWrites writes tables, t.record.RecordedIn current.spaceId) ∧
    (∀ attemptId, decide tables current rdbHasTargets = some (.startRebuilding attemptId) ↔
      tables ≠ [] ∧ (∀ t ∈ tables, t.record.marker = some ⟨.pending, attemptId⟩) ∧
        ∀ t ∈ tables, ∀ s, t.record.space = some s → s.spaceId = current.spaceId) ∧
    (∀ tables', tables.Perm tables' → (decide tables current rdbHasTargets).map StartupDecision.kind =
      (decide tables' current rdbHasTargets).map StartupDecision.kind) := by
  refine ⟨decide_ne_none tables current rdbHasTargets, ?_, fun _ => decide_rebuilding_iff,
    fun _ => decide_kind_perm⟩
  intro writes h
  have hstart := decide_start_iff.1 ⟨writes, h⟩
  obtain ⟨hspace, hcomplete, -⟩ := decide_start_writes h
  have hrecorded := hcomplete.recorded hspace
  refine ⟨hstart.1, ?_, ?_, ?_, hrecorded⟩
  · intro t ht _
    rcases hcomplete t ht with hr | ⟨w, hw, htab⟩
    · exact .inl hr
    · exact .inr ⟨w, hw, htab, hspace w hw⟩
  · intro applied hpre
    exact decide_start_iff.2 (hstart.afterWrites fun w hw => hspace w (hpre.subset hw))
  · obtain ⟨rest, hrest⟩ := decide_start_iff.2 (hstart.afterWrites hspace)
    rw [hrest, (decide_start_writes hrest).2.2 hrecorded]

end MemoryStore.EmbeddingSpace
