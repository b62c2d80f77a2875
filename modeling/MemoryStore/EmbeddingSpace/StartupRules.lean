/-
What each outcome of the startup decision says about the tables, and what
becomes of the decision once some of its writes have been applied.

The rules are tried in order, but every outcome turns on facts about the single
tables: which markers they carry, whether they are empty, and whether the space
each is recorded in, or could be recorded in, is the current one.
-/
import MemoryStore.EmbeddingSpace.Startup

namespace MemoryStore.EmbeddingSpace

variable {tables tables' : List TableObservation} {t : TableObservation} {current : SpaceComponents}
  {rdbHasTargets : Bool} {writes applied : List RecordWrite}

/-! ## Single tables -/

/-- Whatever space the table is recorded in is the current one. -/
def TableObservation.Agrees (t : TableObservation) (current : SpaceComponents) : Prop :=
  ∀ s, t.record.space = some s → s.spaceId = current.spaceId

/-- Rule 8 can tell the space of an unrecorded table: its rows carry one label. -/
def TableObservation.OneLabel (t : TableObservation) : Prop :=
  let models := t.rowModels.getD .default
  models.hasUnlabeled = false ∧ models.names.card = 1

/-- Rules 6 to 8 let the table through. -/
def TableObservation.Admitted (t : TableObservation) (current : SpaceComponents) : Prop :=
  t.Agrees current ∧ (t.record.space = none → t.isEmpty = false → t.OneLabel)

/-- The record rules 7 and 8 write. -/
def TableObservation.firstWrite (current : SpaceComponents) (t : TableObservation) : RecordWrite :=
  ⟨t.table, .new current (!t.isEmpty)⟩

theorem mismatch_eq_none : mismatch t current = none ↔ t.Agrees current := by
  unfold mismatch TableObservation.Agrees
  cases hs : t.record.space with
  | none => simp
  | some s =>
    simp only [Option.bind_some, Option.some.injEq]
    constructor
    · intro h s' hs'
      subst hs'
      by_contra hne
      simp [hne] at h
    · intro h
      simp [h s rfl]

theorem TableObservation.Agrees.recordedIn (h : t.Agrees current) (hs : t.record.space ≠ none) :
    t.record.RecordedIn current.spaceId := by
  obtain ⟨s, hs⟩ := Option.ne_none_iff_exists'.1 hs
  simp [TableRecord.RecordedIn, hs, h s hs]

/-! ## Rules 5 to 8 -/

/-- **The recording loop** lets all tables through or none, and records those unrecorded. -/
theorem recordWrites_eq_ok : ∀ {tables : List TableObservation} {writes : List RecordWrite},
    recordWrites current tables = .ok writes ↔ (∀ t ∈ tables, t.Admitted current) ∧
      writes = (tables.filter fun t => t.record.space.isNone).map (·.firstWrite current)
  | [], writes => by simp [recordWrites, eq_comm]
  | t :: rest, writes => by
    have ih : ∀ ws, recordWrites current rest = .ok ws ↔ (∀ t ∈ rest, t.Admitted current) ∧
        ws = (rest.filter fun t => t.record.space.isNone).map (·.firstWrite current) :=
      fun ws => recordWrites_eq_ok
    have hcons : ∀ w, (recordWrites current rest).map (w :: ·) = .ok writes ↔ (∀ t ∈ rest, t.Admitted current) ∧
        writes = w :: (rest.filter fun t => t.record.space.isNone).map (·.firstWrite current) := by
      intro w
      cases hr : recordWrites current rest with
      | error err =>
        simp only [Except.map, reduceCtorEq, false_iff]
        rintro ⟨h, -⟩
        simpa [hr] using (ih _).2 ⟨h, rfl⟩
      | ok ws =>
        obtain ⟨h, rfl⟩ := (ih ws).1 hr
        simp only [Except.map, Except.ok.injEq]
        exact ⟨fun he => ⟨h, he.symm⟩, fun he => he.2.symm⟩
    simp only [List.mem_cons, forall_eq_or_imp, List.filter_cons]
    unfold recordWrites
    cases hs : t.record.space with
    | some s =>
      have hadm : t.Admitted current ↔ mismatch t current = none := by
        rw [mismatch_eq_none]
        simp [TableObservation.Admitted, hs]
      cases hm : mismatch t current with
      | some err => simp [hadm, hm]
      | none => simp [hadm, hm, ih]
    | none =>
      have hag : t.Agrees current := by simp [TableObservation.Agrees, hs]
      by_cases he : t.isEmpty = true
      · have hadm : t.Admitted current := ⟨hag, by simp [he]⟩
        have hw : t.firstWrite current = ⟨t.table, .new current false⟩ := by
          simp [TableObservation.firstWrite, he]
        simp [he, hcons, hadm, hw]
      · have hw : t.firstWrite current = ⟨t.table, .new current true⟩ := by
          simp [TableObservation.firstWrite, he]
        by_cases hl : t.OneLabel
        · have hadm : t.Admitted current := ⟨hag, fun _ _ => hl⟩
          have h₁ := hl.1
          have h₂ := hl.2
          simp [he, h₁, h₂, hcons, hadm, hw]
        · have hadm : ¬ t.Admitted current := fun h => hl (h.2 hs (by simpa using he))
          have hbad : (t.rowModels.getD .default).hasUnlabeled = true ∨
              ¬ (t.rowModels.getD .default).names.card = 1 := by
            by_contra hc
            push Not at hc
            exact hl ⟨by simpa using hc.1, hc.2⟩
          simp [he, hbad, hadm]

/-- When every record agrees with the current space, no two of them differ. -/
theorem recorded_card_le (h : ∀ t ∈ tables, t.Agrees current) :
    (tables.filterMap fun t => t.record.space.map SpaceRecord.spaceId).toFinset.card ≤ 1 := by
  refine Finset.card_le_one.2 fun a ha b hb => ?_
  have hone : ∀ c ∈ (tables.filterMap fun t => t.record.space.map SpaceRecord.spaceId).toFinset,
      c = current.spaceId := by
    intro c hc
    simp only [List.mem_toFinset, List.mem_filterMap, Option.map_eq_some_iff] at hc
    obtain ⟨t, ht, s, hs, rfl⟩ := hc
    exact h t ht s hs
  rw [hone a ha, hone b hb]

/-- Rules 5 to 8 start exactly when every table is let through; otherwise they fail. -/
theorem decideRecorded_cases (tables : List TableObservation) (current : SpaceComponents) :
    ((∀ t ∈ tables, t.Admitted current) ∧ decideRecorded tables current = some (.start
      ((tables.filter fun t => t.record.space.isNone).map (·.firstWrite current)))) ∨
    ((∃ t ∈ tables, ¬ t.Admitted current) ∧ ∃ err, decideRecorded tables current = some (.fail err)) := by
  by_cases hadm : ∀ t ∈ tables, t.Admitted current
  · have hcard := recorded_card_le fun t ht => (hadm t ht).1
    have hw := recordWrites_eq_ok.2 ⟨hadm, rfl⟩
    refine .inl ⟨hadm, ?_⟩
    simp [decideRecorded, Nat.not_lt.2 hcard, hw]
  · push Not at hadm
    refine .inr ⟨hadm, ?_⟩
    unfold decideRecorded
    simp only
    split
    · next hcard =>
      -- Two recorded spaces: one of them differs from the current one.
      have hne : ∃ t ∈ tables, ¬ t.Agrees current := by
        by_contra hall
        push Not at hall
        exact absurd (recorded_card_le hall) (Nat.not_le.2 hcard)
      obtain ⟨t, ht, hdis⟩ := hne
      unfold TableObservation.Agrees at hdis
      push Not at hdis
      obtain ⟨s, hs, hne⟩ := hdis
      cases hf : tables.find? fun t => t.record.space.any fun s => s.spaceId ≠ current.spaceId with
      | none =>
        have := List.find?_eq_none.1 hf t ht
        simp [hs, hne] at this
      | some culprit =>
        have hc := List.find?_some hf
        simp only
        cases hm : mismatch culprit current with
        | none =>
          rw [mismatch_eq_none] at hm
          obtain ⟨s', hs', hne'⟩ := by simpa [Option.any_eq_true] using hc
          exact absurd (hm s' hs') hne'
        | some err => exact ⟨err, rfl⟩
    · cases hw : recordWrites current tables with
      | error err => exact ⟨err, rfl⟩
      | ok writes =>
        obtain ⟨t, ht, hna⟩ := hadm
        exact absurd ((recordWrites_eq_ok.1 hw).1 t ht) hna

/-! ## The decision -/

/-- No table carries a rebuild marker. -/
def Unmarked (tables : List TableObservation) : Prop := ∀ t ∈ tables, t.record.marker = none

/-- Every table carries the pending marker of this attempt. -/
def PendingOf (attemptId : String) (tables : List TableObservation) : Prop :=
  ∀ t ∈ tables, t.record.marker = some ⟨.pending, attemptId⟩

/-- Nothing is stored: rule 3. -/
def NothingStored (tables : List TableObservation) (rdbHasTargets : Bool) : Prop :=
  (∀ t ∈ tables, t.isEmpty = true) ∧ rdbHasTargets = false

theorem firstWith_eq_none {markers : List MigrationMarker} {states : List MarkerState} :
    firstWith markers states = none ↔ ∀ m ∈ markers, m.state ∉ states := by
  simp [firstWith, List.find?_eq_none]

/-- The unmarked tables are decided by rules 3 and 5 to 8. -/
theorem decide_unmarked (h : Unmarked tables) : decide tables current rdbHasTargets =
    if tables.all (·.isEmpty) && !rdbHasTargets then some (.start (emptyWrites tables current))
    else decideRecorded tables current := by
  have hm : tables.filterMap (·.record.marker) = [] := by
    rw [List.filterMap_eq_nil_iff]
    exact h
  unfold decide
  cases tables with
  | nil => cases rdbHasTargets <;> rfl
  | cons t rest =>
    simp only [hm, firstWith, List.find?_nil, List.isEmpty_cons, List.isEmpty_nil, Bool.false_eq_true, if_false, if_true]

/-- A marker of an unfinished switch, finalize or cancel refuses the start. -/
theorem decide_unfinished {m : MigrationMarker} (ht : t ∈ tables) (hm : t.record.marker = some m)
    (hs : m.state ≠ .pending) : ∃ err, decide tables current rdbHasTargets = some (.fail err) := by
  have hne : tables.isEmpty = false := by simpa using List.ne_nil_of_mem ht
  have hmem : m ∈ tables.filterMap (·.record.marker) := List.mem_filterMap.2 ⟨t, ht, hm⟩
  unfold decide
  simp only [hne, Bool.false_eq_true, if_false]
  cases h₀ : firstWith (tables.filterMap (·.record.marker)) [.restoring, .discarding] with
  | some m' => exact ⟨_, rfl⟩
  | none =>
    cases h₁ : firstWith (tables.filterMap (·.record.marker)) [.committing] with
    | some m' => exact ⟨_, rfl⟩
    | none =>
      cases h₂ : firstWith (tables.filterMap (·.record.marker)) [.switching] with
      | some m' => exact ⟨_, rfl⟩
      | none =>
        have h₀ := firstWith_eq_none.1 h₀ m hmem
        have h₁ := firstWith_eq_none.1 h₁ m hmem
        have h₂ := firstWith_eq_none.1 h₂ m hmem
        cases hst : m.state <;> simp_all

/-- Where only pending markers are, and there is one, rules 2a and 4 decide. -/
theorem decide_pending (hp : ∀ t ∈ tables, ∀ m, t.record.marker = some m → m.state = .pending)
    {first : MigrationMarker} {others : List MigrationMarker}
    (hm : tables.filterMap (·.record.marker) = first :: others) :
    decide tables current rdbHasTargets = some (decidePending tables current (first :: others) first) := by
  have hne : tables.isEmpty = false := by
    cases tables with
    | nil => simp at hm
    | cons t rest => rfl
  have hstate : ∀ m ∈ first :: others, m.state = .pending := by
    intro m hmem
    rw [← hm] at hmem
    obtain ⟨t, ht, hmt⟩ := List.mem_filterMap.1 hmem
    exact hp t ht m hmt
  have hfirst : ∀ states, .pending ∉ states → firstWith (first :: others) states = none := by
    intro states hs
    exact firstWith_eq_none.2 fun m hmem => by rw [hstate m hmem]; exact hs
  unfold decide
  simp only [hne, hm, Bool.false_eq_true, if_false]
  rw [hfirst _ (by simp), hfirst _ (by simp), hfirst _ (by simp)]

/-- The markers of the tables are as many as the tables exactly when each has one. -/
theorem length_markers_eq : ∀ {tables : List TableObservation},
    (tables.filterMap (·.record.marker)).length = tables.length → ∀ t ∈ tables, t.record.marker ≠ none
  | [], _ => by simp
  | t :: rest, h => by
    have hle := List.length_filterMap_le (·.record.marker) rest
    cases hm : t.record.marker with
    | none =>
      simp only [List.filterMap_cons, hm, List.length_cons] at h
      omega
    | some m =>
      simp only [List.filterMap_cons, hm, List.length_cons, Nat.add_right_cancel_iff] at h
      intro t' ht'
      rcases List.mem_cons.1 ht' with rfl | ht'
      · simp [hm]
      · exact length_markers_eq h t' ht'

theorem PendingOf.markers {attemptId : String} : ∀ {tables : List TableObservation}, PendingOf attemptId tables →
    tables.filterMap (·.record.marker) = List.replicate tables.length ⟨.pending, attemptId⟩
  | [], _ => rfl
  | t :: rest, h => by
    have ih := PendingOf.markers fun t' ht' => h t' (List.mem_cons_of_mem t ht')
    simp only [List.filterMap_cons, h t List.mem_cons_self, ih, List.length_cons, List.replicate_succ]

theorem findSome_mismatch_eq_none : (tables.findSome? fun t => mismatch t current) = none ↔
    ∀ t ∈ tables, t.Agrees current := by
  simp [List.findSome?_eq_none_iff, mismatch_eq_none]

/-- What rule 2a checks: each table is marked, and all for one attempt. -/
theorem pendingOf_iff (hp : ∀ t ∈ tables, ∀ m, t.record.marker = some m → m.state = .pending)
    {first : MigrationMarker} {others : List MigrationMarker}
    (hm : tables.filterMap (·.record.marker) = first :: others) :
    PendingOf first.attemptId tables ↔ (first :: others).length = tables.length ∧
      ((first :: others).map (·.attemptId)).toFinset.card = 1 := by
  constructor
  · intro h
    have hrep := h.markers
    rw [hm] at hrep
    have hlen : (first :: others).length = tables.length := by rw [hrep, List.length_replicate]
    refine ⟨hlen, ?_⟩
    rw [hrep, List.map_replicate, List.toFinset_replicate_of_ne_zero (by rw [← hlen]; simp)]
    exact Finset.card_singleton _
  · rintro ⟨hlen, hcard⟩ t ht
    obtain ⟨id, hid⟩ := Finset.card_eq_one.1 hcard
    have hone : ∀ m ∈ first :: others, m.attemptId = id := by
      intro m hmem
      rw [← Finset.mem_singleton, ← hid, List.mem_toFinset]
      exact List.mem_map_of_mem hmem
    obtain ⟨m, hmt⟩ := Option.ne_none_iff_exists'.1 (length_markers_eq (hm ▸ hlen) t ht)
    have hmem : m ∈ first :: others := by
      rw [← hm]
      exact List.mem_filterMap.2 ⟨t, ht, hmt⟩
    have hid' : m.attemptId = first.attemptId := (hone m hmem).trans (hone first List.mem_cons_self).symm
    rw [hmt, ← hid', ← hp t ht m hmt]

/-- Rules 2a and 4 start a rebuild exactly when it is one attempt's and no record differs. -/
theorem decidePending_cases (hp : ∀ t ∈ tables, ∀ m, t.record.marker = some m → m.state = .pending)
    {first : MigrationMarker} {others : List MigrationMarker}
    (hm : tables.filterMap (·.record.marker) = first :: others) (current : SpaceComponents) :
    (PendingOf first.attemptId tables ∧ (∀ t ∈ tables, t.Agrees current) ∧
      decidePending tables current (first :: others) first = .startRebuilding first.attemptId) ∨
    ((PendingOf first.attemptId tables → ∃ t ∈ tables, ¬ t.Agrees current) ∧
      ∃ err, decidePending tables current (first :: others) first = .fail err) := by
  have hiff := pendingOf_iff hp hm
  unfold decidePending
  by_cases hall : PendingOf first.attemptId tables
  · obtain ⟨hlen, hcard⟩ := hiff.1 hall
    rw [if_neg (by rw [hlen, hcard]; simp)]
    cases hf : tables.findSome? fun t => mismatch t current with
    | none => exact .inl ⟨hall, findSome_mismatch_eq_none.1 hf, rfl⟩
    | some err =>
      refine .inr ⟨fun _ => ?_, err, rfl⟩
      by_contra hag
      push Not at hag
      rw [findSome_mismatch_eq_none.2 hag] at hf
      cases hf
  · rw [if_pos]
    · exact .inr ⟨fun h => absurd h hall, _, rfl⟩
    · rw [hiff] at hall
      by_contra hc
      simp only [Bool.or_eq_true, decide_eq_true_eq, not_or, not_not] at hc
      exact hall hc

/-- **The three outcomes.** The decision never panics, and which it is turns on
the markers, the emptiness and the records of the single tables. -/
theorem decide_cases (tables : List TableObservation) (current : SpaceComponents) (rdbHasTargets : Bool) :
    (Unmarked tables ∧ NothingStored tables rdbHasTargets ∧
      decide tables current rdbHasTargets = some (.start (emptyWrites tables current))) ∨
    (Unmarked tables ∧ ¬ NothingStored tables rdbHasTargets ∧ (∀ t ∈ tables, t.Admitted current) ∧
      decide tables current rdbHasTargets = some (.start
        ((tables.filter fun t => t.record.space.isNone).map (·.firstWrite current)))) ∨
    (tables ≠ [] ∧ (∀ t ∈ tables, t.Agrees current) ∧
      ∃ attemptId, PendingOf attemptId tables ∧
        decide tables current rdbHasTargets = some (.startRebuilding attemptId)) ∨
    ((Unmarked tables → ¬ NothingStored tables rdbHasTargets ∧ ∃ t ∈ tables, ¬ t.Admitted current) ∧
      (∀ attemptId, tables ≠ [] → PendingOf attemptId tables → ∃ t ∈ tables, ¬ t.Agrees current) ∧
      ∃ err, decide tables current rdbHasTargets = some (.fail err)) := by
  by_cases hun : Unmarked tables
  · rw [decide_unmarked hun]
    by_cases hno : NothingStored tables rdbHasTargets
    · refine .inl ⟨hun, hno, ?_⟩
      rw [if_pos]
      simpa [NothingStored] using hno
    · rw [if_neg (by simpa [NothingStored] using hno)]
      rcases decideRecorded_cases tables current with ⟨hadm, hd⟩ | ⟨hna, err, hd⟩
      · exact .inr (.inl ⟨hun, hno, hadm, hd⟩)
      · refine .inr (.inr (.inr ⟨fun _ => ⟨hno, hna⟩, fun attemptId hne hp => ?_, err, hd⟩))
        obtain ⟨t, ht⟩ := List.exists_mem_of_ne_nil tables hne
        exact absurd ((hun t ht).symm.trans (hp t ht)) (by simp)
  · by_cases hpend : ∀ t ∈ tables, ∀ m, t.record.marker = some m → m.state = .pending
    · cases hm : tables.filterMap (·.record.marker) with
      | nil => exact absurd (fun t ht => List.filterMap_eq_nil_iff.1 hm t ht) hun
      | cons first others =>
        rw [decide_pending hpend hm]
        have hne : tables ≠ [] := by
          rintro rfl
          simp at hm
        rcases decidePending_cases hpend hm current with ⟨hall, hag, hd⟩ | ⟨hdis, err, hd⟩
        · exact .inr (.inr (.inl ⟨hne, hag, first.attemptId, hall, by rw [hd]⟩))
        · refine .inr (.inr (.inr ⟨fun h => absurd h hun, fun attemptId _ hp => hdis ?_, err, by rw [hd]⟩))
          have hmem : first ∈ tables.filterMap (·.record.marker) := by
            rw [hm]
            exact List.mem_cons_self
          obtain ⟨t, ht, hmt⟩ := List.mem_filterMap.1 hmem
          obtain rfl : first = ⟨.pending, attemptId⟩ := Option.some.inj (hmt.symm.trans (hp t ht))
          exact hp
    · push Not at hpend
      obtain ⟨t, ht, m, hmt, hs⟩ := hpend
      refine .inr (.inr (.inr ⟨fun h => absurd h hun, fun attemptId _ hp => ?_, decide_unfinished ht hmt hs⟩))
      have := hp t ht
      rw [hmt] at this
      exact absurd (congrArg MigrationMarker.state (Option.some.inj this)) hs

end MemoryStore.EmbeddingSpace
