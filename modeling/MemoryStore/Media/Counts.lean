/-
Reference counts over every run of the media protocol. A call on memories keeps
them by `Operation.tx_spec`; no other transaction touches a count, inserts a row
that is named already, or deletes one that is referenced. So the counts are
exact between any two steps, and the scan for desynchronised ones finds nothing.
-/
import MemoryStore.Conversation.OperationSpec
import MemoryStore.Media.System

namespace MemoryStore.Media

open Conversation Table

variable {s s' : Store}

/-! ## Transactions that leave memories alone -/

/-- What every transaction on media leaves of the database. -/
structure Untouched (s s' : Store) : Prop where
  memories : s'.memories = s.memories
  threads : s'.threads = s.threads
  threadMemories : s'.threadMemories = s.threadMemories
  threadLabels : s'.threadLabels = s.threadLabels
  later : s.nextId ≤ s'.nextId
  /-- A row that was there before has the count it had. -/
  counts : ∀ row' ∈ s'.mediaObjects, row'.id < s.nextId →
    ∃ row ∈ s.mediaObjects, row.id = row'.id ∧ row.refCount = row'.refCount
  /-- A referenced row stays. -/
  kept : ∀ row ∈ s.mediaObjects, 0 < row.refCount → ∃ row' ∈ s'.mediaObjects, row'.id = row.id

/-- From a sound state, a sound state in which memories and counts are what they were. -/
def SafeStep (s s' : Store) : Prop := s.Sound → s'.Sound ∧ Untouched s s'

theorem Untouched.refl (s : Store) : Untouched s s where
  memories := rfl
  threads := rfl
  threadMemories := rfl
  threadLabels := rfl
  later := Nat.le_refl _
  counts row hrow _ := ⟨row, hrow, rfl, rfl⟩
  kept row hrow _ := ⟨row, hrow, rfl⟩

theorem Untouched.trans {s'' : Store} (h : Untouched s s') (h' : Untouched s' s'') (hs : s.Sound) :
    Untouched s s'' where
  memories := h'.memories.trans h.memories
  threads := h'.threads.trans h.threads
  threadMemories := h'.threadMemories.trans h.threadMemories
  threadLabels := h'.threadLabels.trans h.threadLabels
  later := Nat.le_trans h.later h'.later
  counts row'' hrow hlt := by
    obtain ⟨row', hrow', hid', hcount'⟩ := h'.counts row'' hrow (Nat.lt_of_lt_of_le hlt h.later)
    obtain ⟨row, hrow, hid, hcount⟩ := h.counts row' hrow' (hid' ▸ hlt)
    exact ⟨row, hrow, hid.trans hid', hcount.trans hcount'⟩
  kept row hrow hpos := by
    obtain ⟨row', hrow', hid⟩ := h.kept row hrow hpos
    obtain ⟨r, hr, hrid, hcount⟩ := h.counts row' hrow' (hid ▸ hs.valid.mediaId_lt row hrow)
    have hsame : r = row := List.inj_on_of_nodup_map hs.valid.mediaIds hr hrow (hrid.trans hid)
    subst hsame
    obtain ⟨row'', hrow'', hid'⟩ := h'.kept row' hrow' (hcount ▸ hpos)
    exact ⟨row'', hrow'', hid'.trans hid⟩

instance : Std.Refl SafeStep := ⟨fun s h => ⟨h, .refl s⟩⟩

instance : IsTrans Store SafeStep :=
  ⟨fun _ _ _ h h' hs => ⟨(h' (h hs).1).1, (h hs).2.trans (h' (h hs).1).2 hs⟩⟩

/-- A transaction that keeps sound states sound, and memories and counts as they are. -/
abbrev Safe {α : Type} (m : StoreTx α) : Prop := Tx.Does SafeStep (fun _ => True) m

/-! ## The statements on media rows -/

theorem safe_bumpId (s : Store) : SafeStep s { s with nextId := s.nextId + 1 } := by
  intro hs
  have h := (Midway.begin hs).bumpId
  refine ⟨h.sound rfl rfl, ?_⟩
  exact { Untouched.refl s with later := Nat.le_succ _ }

theorem generateId_safe : Safe generateId :=
  Tx.Does.bind (fun _ => refl_of SafeStep _) fun _ => Tx.Does.bind (fun s => safe_bumpId s) fun _ => Tx.Does.pure _

/-- An update that leaves id, hash and count, and takes no referenced row out of use. -/
theorem safe_modifyMedia (s : Store) (id : Nat) {g : MediaObjectRow → Bool} {f : MediaObjectRow → MediaObjectRow}
    (hf : ∀ row, (f row).id = row.id) (hsha : ∀ row, (f row).sha256 = row.sha256)
    (hcount : ∀ row, (f row).refCount = row.refCount)
    (hlive : ∀ row, g row = true → 0 < row.refCount →
      row.gcState ≠ .deletedFailed ∧ row.gcState ≠ .deleting →
      (f row).gcState ≠ .deletedFailed ∧ (f row).gcState ≠ .deleting) :
    SafeStep s (s.modifyMedia id g f) := by
  intro hs
  have hback : ∀ row' ∈ (s.modifyMedia id g f).mediaObjects, ∃ row ∈ s.mediaObjects,
      row.id = row'.id ∧ row.refCount = row'.refCount := by
    intro row' hrow'
    obtain ⟨row, hrow, rfl⟩ := mem_modifyWhere.1 hrow'
    refine ⟨row, hrow, ?_, ?_⟩
    · split
      · exact (hf row).symm
      · rfl
    · split
      · exact (hcount row).symm
      · rfl
  have hforth : ∀ row ∈ s.mediaObjects, ∃ row' ∈ (s.modifyMedia id g f).mediaObjects, row'.id = row.id := by
    intro row hrow
    refine ⟨_, mem_modifyWhere.2 ⟨row, hrow, rfl⟩, ?_⟩
    split
    · exact hf row
    · rfl
  refine ⟨⟨hs.valid.modifyMedia hf hsha, hs.bounds, ?_, ?_, ?_⟩, ⟨rfl, rfl, rfl, rfl, Nat.le_refl _, ?_, ?_⟩⟩
  · intro row' hrow'
    obtain ⟨row, hrow, hid, hc⟩ := hback row' hrow'
    rw [← hid, ← hc]
    exact hs.counted.count row hrow
  · intro k hk
    obtain ⟨row, hrow, hid⟩ := Store.findMedia_isSome.1 (hs.counted.named k hk)
    obtain ⟨row', hrow', hid'⟩ := hforth row hrow
    exact Store.findMedia_isSome.2 ⟨row', hrow', hid'.trans hid⟩
  · intro row' hrow' hpos
    obtain ⟨row, hrow, rfl⟩ := mem_modifyWhere.1 hrow'
    by_cases hg : (decide (row.id = id) && g row) = true
    · rw [if_pos hg] at hpos ⊢
      rw [hcount] at hpos
      simp only [Bool.and_eq_true] at hg
      exact hlive row hg.2 hpos (hs.counted.live row hrow hpos)
    · rw [if_neg hg] at hpos ⊢
      exact hs.counted.live row hrow hpos
  · exact fun row' hrow' _ => hback row' hrow'
  · exact fun row hrow _ => hforth row hrow

/-- A delete of rows nothing refers to. -/
theorem safe_deleteMedia (s : Store) {q : MediaObjectRow → Bool} (hq : ∀ row, q row = true → row.refCount = 0) :
    SafeStep s (s.deleteMedia q) := by
  intro hs
  have hmem : ∀ row, row ∈ (s.deleteMedia q).mediaObjects ↔ row ∈ s.mediaObjects ∧ q row = false := by
    intro row
    simp [Store.deleteMedia]
  have hkept : ∀ row ∈ s.mediaObjects, 0 < row.refCount → row ∈ (s.deleteMedia q).mediaObjects := by
    intro row hrow hpos
    refine (hmem row).2 ⟨hrow, ?_⟩
    by_contra hc
    have := hq row (by simpa using hc)
    omega
  refine ⟨⟨?_, hs.bounds, ?_, ?_, ?_⟩, ⟨rfl, rfl, rfl, rfl, Nat.le_refl _, ?_, ?_⟩⟩
  · exact { hs.valid with
      mediaIds := hs.valid.mediaIds.sublist (List.filter_sublist.map _)
      mediaId_lt := fun row hrow => hs.valid.mediaId_lt row ((hmem row).1 hrow).1
      sha256 := hs.valid.sha256.filter _ }
  · exact fun row hrow => hs.counted.count row ((hmem row).1 hrow).1
  · intro k hk
    obtain ⟨row, hrow, rfl⟩ := Store.findMedia_isSome.1 (hs.counted.named k hk)
    refine Store.findMedia_isSome.2 ⟨row, hkept row hrow ?_, rfl⟩
    have hpos : 0 < (s.actualRefCount row.id : Int) + 0 := hk
    have := hs.counted.count row hrow
    omega
  · exact fun row hrow => hs.counted.live row ((hmem row).1 hrow).1
  · exact fun row hrow _ => ⟨row, ((hmem row).1 hrow).1, rfl, rfl⟩
  · exact fun row hrow hpos => ⟨row, hkept row hrow hpos, rfl⟩

/-- The insert of a row with a new id and a new hash. -/
theorem safe_insertMedia (s : Store) {row : MediaObjectRow} (hnew : ∀ r ∈ s.mediaObjects, r.id ≠ row.id)
    (hlt : row.id < s.nextId) (hsha : row.sha256.isSome → ∀ r ∈ s.mediaObjects, r.sha256 ≠ row.sha256)
    (hcount : row.refCount = 0) (hs : s.Sound) : (s.insertMedia row).Sound := by
  have hmem : ∀ r, r ∈ (s.insertMedia row).mediaObjects ↔ r ∈ s.mediaObjects ∨ r = row := by
    intro r
    simp [Store.insertMedia]
  refine ⟨?_, hs.bounds, ?_, ?_, ?_⟩
  · refine { hs.valid with mediaIds := ?_, mediaId_lt := ?_, sha256 := ?_ }
    · simp only [Store.insertMedia, List.map_append, List.map_cons, List.map_nil, List.nodup_append]
      refine ⟨hs.valid.mediaIds, by simp, ?_⟩
      intro a ha b hb he
      obtain ⟨r, hr, rfl⟩ := List.mem_map.1 ha
      exact hnew r hr (he.trans (List.mem_singleton.1 hb))
    · intro r hr
      rcases (hmem r).1 hr with hr | rfl
      · exact hs.valid.mediaId_lt r hr
      · exact hlt
    · exact hs.valid.sha256.append fun hp r hr _ => hsha hp r hr
  · intro r hr
    rcases (hmem r).1 hr with hr | rfl
    · exact hs.counted.count r hr
    · have hzero : s.actualRefCount r.id = 0 := by
        by_contra hc
        obtain ⟨r', hr', hid⟩ := Store.findMedia_isSome.1 (hs.counted.named r.id (by omega))
        exact hnew r' hr' hid
      show (r.refCount : Int) = s.actualRefCount r.id + 0
      rw [hcount, hzero]
      rfl
  · intro k hk
    obtain ⟨r, hr, hid⟩ := Store.findMedia_isSome.1 (hs.counted.named k hk)
    exact Store.findMedia_isSome.2 ⟨r, (hmem r).2 (.inl hr), hid⟩
  · intro r hr hpos
    rcases (hmem r).1 hr with hr | rfl
    · exact hs.counted.live r hr hpos
    · omega

/-- An insert leaves the counts there are. -/
theorem untouched_insertMedia (s : Store) {row : MediaObjectRow} (hnew : s.nextId ≤ row.id) :
    Untouched s { s.insertMedia row with nextId := s.nextId + 1 } where
  memories := rfl
  threads := rfl
  threadMemories := rfl
  threadLabels := rfl
  later := Nat.le_succ _
  counts r hr hlt := by
    rcases List.mem_append.1 hr with hr | hr
    · exact ⟨r, hr, rfl, rfl⟩
    · obtain rfl := List.mem_singleton.1 hr
      omega
  kept r hr _ := ⟨r, List.mem_append_left _ hr, rfl⟩

/-- An id is drawn, and a row inserted under it. -/
theorem safe_insertFresh (s : Store) {row : MediaObjectRow} (hid : row.id = s.nextId)
    (hsha : row.sha256.isSome → ∀ r ∈ s.mediaObjects, r.sha256 ≠ row.sha256) (hcount : row.refCount = 0) :
    SafeStep s (Store.insertMedia { s with nextId := s.nextId + 1 } row) := by
  intro hs
  have hnew : ∀ r ∈ s.mediaObjects, r.id ≠ row.id := by
    intro r hr he
    have := hs.valid.mediaId_lt r hr
    omega
  refine ⟨?_, untouched_insertMedia s (by omega)⟩
  exact safe_insertMedia { s with nextId := s.nextId + 1 } hnew (by simp only; omega) hsha hcount (safe_bumpId s hs).1

theorem Store.findMediaBySha256_none {sha256 : String} (h : (s.findMediaBySha256 sha256).isSome = false) :
    ∀ r ∈ s.mediaObjects, r.sha256 ≠ some sha256 := by
  intro r hr he
  have hnone : s.findMediaBySha256 sha256 = none := by simpa using h
  exact absurd (List.find?_eq_none.1 hnone r hr) (by simp [he])

/-! ## Every transaction of the protocol -/

theorem modifyMedia_safe (id : Nat) {g : MediaObjectRow → Bool} {f : MediaObjectRow → MediaObjectRow}
    (hf : ∀ row, (f row).id = row.id) (hsha : ∀ row, (f row).sha256 = row.sha256)
    (hcount : ∀ row, (f row).refCount = row.refCount)
    (hlive : ∀ row, g row = true → 0 < row.refCount →
      row.gcState ≠ .deletedFailed ∧ row.gcState ≠ .deleting →
      (f row).gcState ≠ .deletedFailed ∧ (f row).gcState ≠ .deleting) : Safe (modifyMedia id g f) :=
  fun s => safe_modifyMedia s id hf hsha hcount hlive

theorem claimPromote_safe (now : Int) (id : Nat) : Safe (claimPromote now id) :=
  modifyMedia_safe id (fun _ => rfl) (fun _ => rfl) (fun _ => rfl) fun _ _ _ _ => by simp [MediaObjectRow.setState]

theorem confirmPromote_safe (now : Int) (id : Nat) (uri : String) (backend : Backend) (byteSize : Option Int)
    {gcState : GcState} (hg : gcState = .active ∨ gcState = .orphan) :
    Safe (confirmPromote now id uri backend byteSize gcState) :=
  modifyMedia_safe id (fun _ => rfl) (fun _ => rfl) (fun _ => rfl) fun _ _ _ _ => by rcases hg with rfl | rfl <;> simp

theorem registerPromote_safe (now : Int) (id : Nat) (uri : String) (backend : Backend) (byteSize : Option Int)
    {gcState : GcState} (hg : gcState = .active ∨ gcState = .orphan) :
    Safe (registerPromote now id uri backend byteSize gcState) :=
  modifyMedia_safe id (fun _ => rfl) (fun _ => rfl) (fun _ => rfl) fun _ _ _ _ => by rcases hg with rfl | rfl <;> simp

theorem confirmReservation_safe (now : Int) (id : Nat) (uri : String) (backend : Backend) (byteSize : Option Int) :
    Safe (confirmReservation now id uri backend byteSize) :=
  modifyMedia_safe id (fun _ => rfl) (fun _ => rfl) (fun _ => rfl) fun _ _ _ h => h

theorem revertPromoting_safe (now : Int) (id : Nat) : Safe (revertPromoting now id) :=
  modifyMedia_safe id (fun _ => rfl) (fun _ => rfl) (fun _ => rfl) fun _ _ _ _ => by simp [MediaObjectRow.setState]

theorem revertDeleting_safe (now : Int) (id : Nat) : Safe (revertDeleting now id) :=
  modifyMedia_safe id (fun _ => rfl) (fun _ => rfl) (fun _ => rfl) fun _ _ _ _ => by simp [MediaObjectRow.setState]

theorem claimDeleting_safe (now : Int) (id : Nat) : Safe (claimDeleting now id) :=
  modifyMedia_safe id (fun _ => rfl) (fun _ => rfl) (fun _ => rfl) fun row hg hpos _ => by
    simp only [MediaObjectRow.unreferenced, Bool.and_eq_true, decide_eq_true_eq] at hg
    omega

theorem reclaimDeletedFailed_safe (now : Int) (id : Nat) : Safe (reclaimDeletedFailed now id) :=
  modifyMedia_safe id (fun _ => rfl) (fun _ => rfl) (fun _ => rfl) fun row hg hpos _ => by
    simp only [MediaObjectRow.unreferenced, Bool.and_eq_true, decide_eq_true_eq] at hg
    omega

theorem markDeleteFailed_safe (now : Int) (id : Nat) : Safe (markDeleteFailed now id) :=
  modifyMedia_safe id (fun _ => rfl) (fun _ => rfl) (fun _ => rfl) fun row hg _ hlive => by
    simp only [MediaObjectRow.inStates, List.mem_singleton, decide_eq_true_eq] at hg
    exact absurd hg hlive.2

theorem deleteIfUnreferenced_safe (id : Nat) : Safe (deleteIfUnreferenced id) := by
  refine Tx.Does.bind (fun _ => refl_of SafeStep _) fun _ => Tx.Does.bind (fun s => ?_) fun _ => Tx.Does.pure _
  refine safe_deleteMedia s fun row hq => ?_
  simp only [MediaObjectRow.deletable, MediaObjectRow.unreferenced, Bool.and_eq_true, decide_eq_true_eq] at hq
  exact hq.2.1

theorem deleteRowTx_safe (now : Int) (id : Nat) : Safe (deleteRowTx now id) := by
  refine (deleteIfUnreferenced_safe id).bind fun ok => Tx.Does.ite (fun _ => Tx.Does.pure _) fun _ => ?_
  exact (markDeleteFailed_safe now id).bind fun _ => Tx.Does.pure _

/-- An id is drawn and a reservation made under it, unless its hash is taken. -/
theorem insertReservation_safe {α : Type} (now : Int) (header : MediaHeader) (sha256 : String)
    {next : Nat → Bool → StoreTx α} (hnext : ∀ id inserted, Safe (next id inserted)) :
    Safe (do
      let mediaId ← generateId
      let inserted ← insertReservation now mediaId header sha256
      next mediaId inserted) := by
  intro s
  unfold generateId insertReservation
  simp only [Tx.wp_bind, Tx.wp_reads, Tx.wp_writes, Tx.wp_pure, Tx.wp_get]
  split
  · next hfound =>
    rw [Tx.wp_pure]
    exact (hnext _ _ _).imp fun _ s' h' => trans_of SafeStep (safe_bumpId s) h'
  · next hfree =>
    have hfree' : (s.findMediaBySha256 sha256).isSome = false := by
      simpa [Store.findMediaBySha256] using hfree
    simp only [Tx.wp_bind, Tx.wp_writes, Tx.wp_pure]
    refine (hnext _ _ _).imp fun _ s' h' => trans_of SafeStep (safe_insertFresh s rfl (fun _ r hr => ?_) rfl) h'
    exact Store.findMediaBySha256_none hfree' r hr

theorem reserveUpload_safe (now : Int) (u : Upload) : Safe (reserveUpload now u) := by
  refine insertReservation_safe now _ _ fun id inserted => Tx.Does.get.bind fun s => ?_
  split
  · exact Tx.Does.pure _
  · exact Tx.Does.pure _
  · exact Tx.Does.fail trivial

theorem registerManagedTx_safe [MediaConfig] (now : Int) (p : RegisterParams) (sha256 : Sha256Hex) (byteSize : Int) :
    Safe (registerManagedTx now p sha256 byteSize) := by
  refine insertReservation_safe now _ _ fun id inserted => Tx.Does.get.bind fun s => ?_
  split
  · exact (confirmReservation_safe _ _ _ _ _).bind fun _ => Tx.Does.pure _
  · refine Tx.Does.ite (fun _ => ?_) fun _ => Tx.Does.pure _
    refine (registerPromote_safe _ _ _ _ _ ?_).bind fun _ => Tx.Does.pure _
    split
    · exact .inl rfl
    · exact .inr rfl
  · exact Tx.Does.fail trivial

theorem registerUrlTx_safe (now : Int) (p : RegisterParams) : Safe (registerUrlTx now p) := by
  intro s
  unfold registerUrlTx generateId insertUrl
  simp only [Tx.wp_bind, Tx.wp_reads, Tx.wp_writes, Tx.wp_pure]
  exact safe_insertFresh s rfl (fun h => by simp [MediaHeader.row] at h) rfl

theorem insertUnresolvable_safe (now : Int) (header : MediaHeader) (sha256 : Sha256Hex) :
    Safe (insertUnresolvable now header sha256) := by
  intro s
  unfold insertUnresolvable generateId
  simp only [Tx.wp_bind, Tx.wp_reads, Tx.wp_writes, Tx.wp_pure, Tx.wp_get]
  split
  · exact safe_bumpId s
  · next hfree =>
    have hfree' : (s.findMediaBySha256 sha256.value).isSome = false := by
      simpa [Store.findMediaBySha256] using hfree
    exact safe_insertFresh s rfl (fun _ r hr => Store.findMediaBySha256_none hfree' r hr) rfl

/-! ## Every step -/

/-- A task that is about to set a count, or a state of its own, sets none that breaks the counts. -/
def Task.Counts : Task → Prop
  | .confirmPromote _ _ gcState => gcState = .active ∨ gcState = .orphan
  | .reconcile _ => False
  | _ => True

theorem finishDelete_counts (id : Nat) (row : MediaObjectRow) : (finishDelete id row).Counts := by
  unfold finishDelete
  split <;> trivial

theorem handleUploadConflict_counts (u : Upload) (row : MediaObjectRow) :
    ∀ task ∈ handleUploadConflict u row, task.Counts := by
  unfold handleUploadConflict
  intro task hmem
  split at hmem <;> · obtain rfl := List.mem_singleton.1 hmem; trivial

/-- A step does what is safe, and goes on as what counts. -/
def Stepped.Safe (s : Store) (stepped : Stepped) : Prop := SafeStep s stepped.1 ∧ ∀ task ∈ stepped.2.2, task.Counts

theorem transact_safe {α : Type} {m : StoreTx α} {objects : Objects} {next : α → List Task} (hm : Safe m)
    (hnext : ∀ a, ∀ task ∈ next a, task.Counts) : Stepped.Safe s (transact s objects m next) := by
  unfold transact
  cases hrun : m s with
  | ok r => exact ⟨(hm s).ok hrun, hnext r.1⟩
  | error e => exact ⟨refl_of SafeStep s, fun task hmem => by simp at hmem⟩

theorem Task.step_safe [MediaConfig] (now : Int) (outcome : Outcome) (s : Store) (objects : Objects) {task : Task}
    (h : task.Counts) : Stepped.Safe s (task.step now outcome s objects) := by
  have hstay : ∀ (o : Objects) (tasks : List Task), (∀ t ∈ tasks, t.Counts) → Stepped.Safe s (s, o, tasks) :=
    fun o tasks ht => ⟨refl_of SafeStep s, ht⟩
  have hnone : ∀ t ∈ ([] : List Task), t.Counts := fun t ht => by simp at ht
  cases task with
  | putTemp u => cases outcome <;> exact hstay _ _ (by simp [Task.Counts])
  | reserve u =>
    refine transact_safe (reserveUpload_safe now u) fun a => ?_
    cases a with
    | inl id => simp [Task.Counts]
    | inr row => exact handleUploadConflict_counts u row
  | copyFresh u id =>
    simp only [Task.step]
    refine hstay _ _ ?_
    split <;> simp [Task.Counts]
  | rollBack u id => exact transact_safe (deleteIfUnreferenced_safe id) fun _ => by simp [Task.Counts]
  | confirmFresh u id =>
    refine transact_safe (confirmReservation_safe _ _ _ _ _) fun ok => ?_
    split <;> simp [Task.Counts]
  | claimPromote u id =>
    refine transact_safe (claimPromote_safe now id) fun ok => ?_
    split <;> simp [Task.Counts]
  | rereadPromote u id =>
    simp only [Task.step]
    split
    · exact hstay _ _ hnone
    · exact hstay _ _ (handleUploadConflict_counts u _)
  | copyPromote u id =>
    simp only [Task.step]
    refine hstay _ _ ?_
    split <;> simp [Task.Counts]
  | readRefCount u id =>
    simp only [Task.step]
    split
    · exact hstay _ _ hnone
    · refine hstay _ _ fun t ht => ?_
      obtain rfl := List.mem_singleton.1 ht
      show _ ∨ _
      split
      · exact .inl rfl
      · exact .inr rfl
  | confirmPromote u id gcState =>
    refine transact_safe (confirmPromote_safe _ _ _ _ _ h) fun ok => ?_
    split <;> simp [Task.Counts]
  | dropTemp tkey => exact hstay _ _ hnone
  | headObject p sha256 byteSize =>
    simp only [Task.step]
    split
    · refine hstay _ _ ?_
      split <;> simp [Task.Counts]
    · exact hstay _ _ hnone
  | registerManaged p sha256 byteSize => exact transact_safe (registerManagedTx_safe now p sha256 byteSize) fun _ => hnone
  | registerUrl p => exact transact_safe (registerUrlTx_safe now p) fun _ => hnone
  | readForDelete id =>
    simp only [Task.step]
    split
    · exact hstay _ _ hnone
    · split
      · exact hstay _ _ hnone
      · exact hstay _ _ (by simp [Task.Counts])
  | claimForDelete id row =>
    refine transact_safe (claimDeleting_safe now id) fun ok => ?_
    split
    · simpa using finishDelete_counts id row
    · exact hnone
  | deleteObject id row =>
    simp only [Task.step]
    refine hstay _ _ ?_
    split <;> simp [Task.Counts]
  | markFailed id => exact transact_safe (markDeleteFailed_safe now id) fun _ => hnone
  | deleteRow id => exact transact_safe (deleteRowTx_safe now id) fun _ => hnone
  | claimThenFinish row =>
    refine transact_safe (claimDeleting_safe now row.id) fun ok => ?_
    split
    · simpa using finishDelete_counts row.id row
    · exact hnone
  | deleteReservationFinal row sha256 => exact hstay _ _ (by simp [Task.Counts])
  | deleteReservationRow row => exact transact_safe (deleteIfUnreferenced_safe row.id) fun _ => hnone
  | deletePromotingFinal row sha256 => exact hstay _ _ (by simp [Task.Counts])
  | revertPromoting row => exact transact_safe (revertPromoting_safe now row.id) fun _ => hnone
  | revertDeleting row => exact transact_safe (revertDeleting_safe now row.id) fun _ => hnone
  | reclaimFailed row =>
    refine transact_safe (reclaimDeletedFailed_safe now row.id) fun ok => ?_
    split
    · simpa using finishDelete_counts row.id row
    · exact hnone
  | reconcile d => exact h.elim
  | rereadReconciled id =>
    simp only [Task.step]
    split
    · exact hstay _ _ hnone
    · exact hstay _ _ (by simp [Task.Counts])
  | deleteTemp key => exact hstay _ _ hnone

/-! ## Every run -/

structure System.Sound (σ : System) : Prop where
  store : σ.store.Sound
  tasks : ∀ task ∈ σ.tasks, task.Counts

theorem System.sound_new : System.new.Sound := ⟨Store.sound_empty, fun task h => by simp [System.new] at h⟩

theorem System.sound_become {tasks : List Task} {stepped : Stepped} (hs : s.Sound) (ht : ∀ task ∈ tasks, task.Counts)
    (h : Stepped.Safe s stepped) : (System.become tasks stepped).Sound where
  store := (h.1 hs).1
  tasks task hmem := by
    rcases List.mem_append.1 hmem with hmem | hmem
    · exact ht task hmem
    · exact h.2 task hmem

/-- The scan for desynchronised counts finds none. -/
theorem listRefCountDesync_nil (hs : s.Sound) : s.listRefCountDesync = [] := by
  unfold Store.listRefCountDesync
  rw [List.map_eq_nil_iff, List.filter_eq_nil_iff]
  intro row hrow hc
  have := hs.counted.count row hrow
  simp only [Bool.and_eq_true, decide_eq_true_eq] at hc
  exact hc.2 (by omega)

theorem Sweep.task_counts (scan : Sweep) (row : MediaObjectRow) : (scan.task row).Counts := by
  cases scan with
  | confirmedOrphans => trivial
  | reservations =>
    show (reservationRecoveryPlan row).Counts
    unfold reservationRecoveryPlan
    split <;> trivial
  | promoting =>
    show (promotingRecoveryPlan row).Counts
    unfold promotingRecoveryPlan
    split <;> trivial
  | deleting => trivial
  | deletedFailed => trivial

theorem registerTask_counts [MediaConfig] (p : RegisterParams) : ∀ task ∈ registerTask p, task.Counts := by
  intro task hmem
  unfold registerTask at hmem
  split at hmem
  · obtain rfl := List.mem_singleton.1 hmem; trivial
  all_goals
    repeat' split at hmem
    all_goals first
      | (obtain rfl := List.mem_singleton.1 hmem; trivial)
      | simp at hmem

/-- Any action but a call on memories: the counts are left as they are. -/
theorem Action.exec_safe [Deployment] [MediaConfig] {σ : System} (hσ : σ.Sound) {a : Action}
    (ha : ∀ now op, a ≠ .call now op) : SafeStep σ.store (a.exec σ).store ∧ (a.exec σ).Sound := by
  have hadd : ∀ tasks : List Task, (∀ task ∈ tasks, task.Counts) →
      SafeStep σ.store σ.store ∧ System.Sound { σ with tasks := σ.tasks ++ tasks } := by
    intro tasks ht
    refine ⟨refl_of SafeStep _, hσ.store, fun task hmem => ?_⟩
    rcases List.mem_append.1 hmem with hmem | hmem
    · exact hσ.tasks task hmem
    · exact ht task hmem
  have hbecome : ∀ {tasks : List Task} {stepped : Stepped}, (∀ task ∈ tasks, task.Counts) →
      Stepped.Safe σ.store stepped →
      SafeStep σ.store (System.become tasks stepped).store ∧ (System.become tasks stepped).Sound :=
    fun ht h => ⟨h.1, System.sound_become hσ.store ht h⟩
  have herase : ∀ i, ∀ task ∈ σ.tasks.eraseIdx i, task.Counts := fun i task hmem =>
    hσ.tasks task (List.mem_of_mem_eraseIdx hmem)
  cases a with
  | call now op => exact absurd rfl (ha now op)
  | upload header sha256 byteCount =>
    exact hbecome hσ.tasks (transact_safe generateId_safe fun _ => by simp [Task.Counts])
  | putExternally now key byteSize => exact ⟨refl_of SafeStep _, hσ.store, hσ.tasks⟩
  | register p => exact hadd _ (registerTask_counts p)
  | delete id => exact hadd _ (by simp [Task.Counts])
  | insertUnresolvable now header sha256 =>
    exact hbecome hσ.tasks (transact_safe (insertUnresolvable_safe now header sha256) fun _ => by simp)
  | sweep scan before row =>
    simp only [Action.exec]
    split
    · exact hadd [scan.task row] (by simpa using scan.task_counts row)
    · exact ⟨refl_of SafeStep _, hσ⟩
  | sweepRefCountDesync d =>
    simp only [Action.exec]
    rw [listRefCountDesync_nil hσ.store, if_neg (by simp)]
    exact ⟨refl_of SafeStep _, hσ⟩
  | sweepTempResidue now graceSec key =>
    simp only [Action.exec]
    split
    · exact hadd _ (by simp [Task.Counts])
    · exact ⟨refl_of SafeStep _, hσ⟩
  | step i now outcome =>
    simp only [Action.exec]
    split
    · exact ⟨refl_of SafeStep _, hσ⟩
    · next task hget =>
      exact hbecome (herase i) (Task.step_safe now outcome σ.store σ.objects
        (hσ.tasks task (List.mem_of_getElem? hget)))
  | crash i => exact ⟨refl_of SafeStep _, hσ.store, herase i⟩

/-- A call that commits: its account is settled, and the rows it claimed are to be finished. -/
theorem Action.exec_call [Deployment] [MediaConfig] {σ : System} (hσ : σ.Sound) (now : Int) (op : Operation) :
    (Action.exec σ (.call now op)).Sound := by
  simp only [Action.exec, transact]
  cases hrun : op.tx now σ.store with
  | error e =>
    refine ⟨hσ.store, fun task hmem => ?_⟩
    rcases List.mem_append.1 hmem with hmem | hmem
    · exact hσ.tasks task hmem
    · simp at hmem
  | ok r =>
    obtain ⟨p, h, hc⟩ := (op.tx_spec hσ.store now).ok hrun
    refine ⟨h.sound hc.bounds hc.owed, fun task hmem => ?_⟩
    rcases List.mem_append.1 hmem with hmem | hmem
    · exact hσ.tasks task hmem
    · obtain ⟨job, -, rfl⟩ := List.mem_map.1 hmem
      exact finishDelete_counts job.1 job.2

theorem Action.exec_sound [Deployment] [MediaConfig] {σ : System} (hσ : σ.Sound) (a : Action) : (a.exec σ).Sound := by
  by_cases ha : ∃ now op, a = .call now op
  · obtain ⟨now, op, rfl⟩ := ha
    exact exec_call hσ now op
  · exact (exec_safe hσ fun now op he => ha ⟨now, op, he⟩).2

/-- **Every reachable state is sound.** -/
theorem Reachable.sound [Deployment] [MediaConfig] {σ : System} (h : Reachable σ) : σ.Sound :=
  Run.Reaches.invariant (I := System.Sound) (fun _ a hσ _ => Action.exec_sound hσ a) h System.sound_new

end MemoryStore.Media

/-!
The two aggregates the database keeps by hand, over every run: the reference
counts of the media objects, and the message bounds of the threads.
-/

namespace MemoryStore.Media

open Conversation

/-- A server that keeps its media in files, under the default prefix. -/
@[reducible] def fileServer : MediaConfig := ⟨.file, rfl, "memories/"⟩

/-- A deployment that takes an unspecified kind as raw, and any metadata as JSON. -/
@[reducible] def lenient : Deployment := ⟨true, fun _ => true⟩

/-! ## Reference counts -/

/-- The counts are exact, and nothing that follows from a count goes wrong. -/
structure CountsExact [Deployment] [MediaConfig] (σ : System) : Prop where
  /-- `ref_count` is the number of memories that name the row. -/
  exact : ∀ row ∈ σ.store.mediaObjects, row.refCount = σ.store.actualRefCount row.id
  /-- No memory names a missing row. -/
  named : ∀ memory ∈ σ.store.memories, ∀ id, memory.data.mediaObjectId = some id → (σ.store.findMedia id).isSome
  /-- A referenced row is neither deleted-failed nor deleting. -/
  live : ∀ row ∈ σ.store.mediaObjects, 0 < row.refCount → row.gcState ≠ .deletedFailed ∧ row.gcState ≠ .deleting
  /-- No action deletes a referenced row. -/
  kept : ∀ a, ∀ row ∈ σ.store.mediaObjects, 0 < row.refCount → ((Action.exec σ a).store.findMedia row.id).isSome
  /-- The underflow guard of the decrement is never hit. -/
  noUnderflow : ∀ now op id, (Operation.tx now op) σ.store ≠ .error (.refCountUnderflow id)
  /-- A call that fails leaves every count, with the rest of the database. -/
  failed : ∀ now op e, (Operation.tx now op) σ.store = .error e → (Action.exec σ (.call now op)).store = σ.store
  /-- So does every step of a media operation or of a cleanup, and every crash. -/
  otherwise : ∀ a, (∀ now op, a ≠ .call now op) → ∀ id row row', σ.store.findMedia id = some row →
    (Action.exec σ a).store.findMedia id = some row' → row'.refCount = row.refCount

/-- A call deletes no media row. -/
theorem Midway.media_kept {s s' : Store} {p : Pending} (h : Midway s p s') (hs : s.Valid) {row : MediaObjectRow}
    (hrow : row ∈ s.mediaObjects) : (s'.findMedia row.id).isSome := by
  have hstep := h.media row.id
  rw [hs.findMedia_iff.2 ⟨hrow, rfl⟩] at hstep
  cases hfind : s'.findMedia row.id with
  | none => rw [hfind] at hstep; exact hstep.elim
  | some r => rfl

theorem Untouched.refCount_eq {s s' : Store} (h : Untouched s s') (hs : s.Valid) {id : Nat} {row row' : MediaObjectRow}
    (hrow : s.findMedia id = some row) (hrow' : s'.findMedia id = some row') : row'.refCount = row.refCount := by
  obtain ⟨hmem, hid⟩ := hs.findMedia_iff.1 hrow
  obtain ⟨hmem', hid'⟩ := Store.findMedia_mem hrow'
  obtain ⟨r, hr, hrid, hcount⟩ := h.counts row' hmem' (by rw [hid', ← hid]; exact hs.mediaId_lt row hmem)
  have hsame : r = row := List.inj_on_of_nodup_map hs.mediaIds hr hmem (by rw [hrid, hid', hid])
  rw [← hsame, hcount]

/-- **Media reference counts are exact**, in every state a run of calls, media
operations and cleanups leads to, crashes included. -/
theorem media_ref_counts_exact [Deployment] [MediaConfig] {σ : System} (h : Reachable σ) : CountsExact σ where
  exact row hrow := by
    have := h.sound.store.counted.count row hrow
    omega
  named memory hmem id hid := by
    have := Store.actualRefCount_pos hmem hid
    exact h.sound.store.counted.named id (by omega)
  live := h.sound.store.counted.live
  kept a row hrow hpos := by
    have hs := h.sound.store
    by_cases ha : ∃ now op, a = .call now op
    · obtain ⟨now, op, rfl⟩ := ha
      simp only [Action.exec, System.become, transact]
      cases hrun : op.tx now σ.store with
      | error e => exact Store.findMedia_isSome.2 ⟨row, hrow, rfl⟩
      | ok r =>
        obtain ⟨p, hmid, -⟩ := (op.tx_spec hs now).ok hrun
        exact Midway.media_kept hmid hs.valid hrow
    · have hstep := (Action.exec_safe h.sound fun now op he => ha ⟨now, op, he⟩).1
      obtain ⟨row', hrow', hid⟩ := (hstep hs).2.kept row hrow hpos
      exact Store.findMedia_isSome.2 ⟨row', hrow', hid⟩
  noUnderflow now op id he := by
    have := (op.tx_spec h.sound.store now).error he
    simp [AppError.benign] at this
  failed now op e he := by
    simp only [Action.exec, System.become, transact, he]
  otherwise a ha id row row' hrow hrow' :=
    (((Action.exec_safe h.sound ha).1 h.sound.store).2).refCount_eq h.sound.store.valid hrow hrow'

/-- A content is uploaded, and a memory created that names it. -/
def linkedUpload : List Action :=
  [.upload ⟨2, "image/png", none, none, none⟩
      ⟨"0000000000000000000000000000000000000000000000000000000000000000", by decide⟩ 1,
    .step 0 0 .done, .step 0 0 .done, .step 0 0 .done, .step 0 0 .done, .step 0 0 .done,
    .call 0 (.createMemory .none ⟨[], some 1, "", 2, none, none, 0, 0, 1, none, some 2, 1⟩)]

theorem media_ref_counts_exact_linkedUpload :
    @CountsExact lenient fileServer (Run.execAll (@exec lenient fileServer) linkedUpload .new) :=
  @media_ref_counts_exact lenient fileServer _ (Run.reaches_execAll (fun _ _ _ => trivial) _)

/-! ## Message bounds -/

/-- When the memories attached to a thread were sent. -/
def attachedTimes (s : Store) (threadId : Nat) : Set Int :=
  {t | ∃ a ∈ s.threadMemories, a.threadId = threadId ∧ ∃ memory ∈ s.memories, memory.id = a.memoryId ∧
    memory.data.createdAt = t}

/-- The bounds of every thread are those of its messages. -/
structure BoundsExact (s : Store) : Prop where
  first : ∀ row ∈ s.threads, ∀ t, row.firstMessageAt = some t ↔ IsLeast (attachedTimes s row.id) t
  last : ∀ row ∈ s.threads, ∀ t, row.lastMessageAt = some t ↔ IsGreatest (attachedTimes s row.id) t
  firstAbsent : ∀ row ∈ s.threads, row.firstMessageAt = none ↔ ∀ a ∈ s.threadMemories, a.threadId ≠ row.id
  lastAbsent : ∀ row ∈ s.threads, row.lastMessageAt = none ↔ ∀ a ∈ s.threadMemories, a.threadId ≠ row.id

theorem mem_messageTimes {s : Store} (hs : s.Valid) {threadId : Nat} {t : Int} :
    t ∈ s.messageTimes threadId ↔ t ∈ attachedTimes s threadId := by
  simp only [Store.messageTimes, List.mem_filterMap, List.mem_filter, decide_eq_true_eq, attachedTimes,
    Set.mem_setOf_eq, Option.map_eq_some_iff]
  constructor
  · rintro ⟨a, ⟨ha, hthread⟩, memory, hfind, rfl⟩
    exact ⟨a, ha, hthread, memory, (Store.findMemory_mem hfind).1, (Store.findMemory_mem hfind).2, rfl⟩
  · rintro ⟨a, ha, hthread, memory, hmem, hid, rfl⟩
    exact ⟨a, ⟨ha, hthread⟩, memory, hs.findMemory_iff.2 ⟨hmem, hid⟩, rfl⟩

/-- No time, no message: every attached memory is there. -/
theorem messageTimes_eq_nil {s : Store} (hs : s.Valid) {threadId : Nat} :
    s.messageTimes threadId = [] ↔ ∀ a ∈ s.threadMemories, a.threadId ≠ threadId := by
  constructor
  · intro h a ha he
    obtain ⟨memory, hfind⟩ := Option.isSome_iff_exists.1 (hs.attachedMemory a ha)
    have hmem : memory.data.createdAt ∈ s.messageTimes threadId :=
      (mem_messageTimes hs).2 ⟨a, ha, he, memory, (Store.findMemory_mem hfind).1, (Store.findMemory_mem hfind).2, rfl⟩
    rw [h] at hmem
    simp at hmem
  · intro h
    rw [List.eq_nil_iff_forall_not_mem]
    intro t ht
    obtain ⟨a, ha, hthread, -⟩ := (mem_messageTimes hs).1 ht
    exact h a ha hthread

theorem isLeast_iff {s : Store} (hs : s.Valid) (threadId : Nat) (t : Int) :
    (s.messageTimes threadId).min? = some t ↔ IsLeast (attachedTimes s threadId) t := by
  rw [List.min?_eq_some_iff, IsLeast, lowerBounds]
  simp only [mem_messageTimes hs, Set.mem_setOf_eq]

theorem isGreatest_iff {s : Store} (hs : s.Valid) (threadId : Nat) (t : Int) :
    (s.messageTimes threadId).max? = some t ↔ IsGreatest (attachedTimes s threadId) t := by
  rw [List.max?_eq_some_iff, IsGreatest, upperBounds]
  simp only [mem_messageTimes hs, Set.mem_setOf_eq]

/-- **Thread message bounds are exact**, in every committed state. -/
theorem thread_message_bounds_exact [Deployment] [MediaConfig] {σ : System} (h : Reachable σ) :
    BoundsExact σ.store := by
  have hs := h.sound.store
  have hbounds : ∀ row ∈ σ.store.threads, row.firstMessageAt = (σ.store.messageTimes row.id).min? ∧
      row.lastMessageAt = (σ.store.messageTimes row.id).max? := by
    intro row hrow
    have := hs.bounds row hrow (Set.notMem_empty _)
    simpa [ThreadRow.messageBounds, Store.messageBounds] using this
  refine ⟨fun row hrow t => ?_, fun row hrow t => ?_, fun row hrow => ?_, fun row hrow => ?_⟩
  · rw [(hbounds row hrow).1]
    exact isLeast_iff hs.valid row.id t
  · rw [(hbounds row hrow).2]
    exact isGreatest_iff hs.valid row.id t
  · rw [(hbounds row hrow).1, List.min?_eq_none_iff]
    exact messageTimes_eq_nil hs.valid
  · rw [(hbounds row hrow).2, List.max?_eq_none_iff]
    exact messageTimes_eq_nil hs.valid

/-- A thread with one memory, and one without. -/
def twoThreads : List Action :=
  [.call 5 (.createThread ⟨none, some 1, none, none, none, none, [], none, 1⟩),
    .call 6 (.createThread ⟨none, some 1, none, none, none, none, [], none, 1⟩),
    .call 7 (.addMemory .none 1 ⟨[], some 1, "hello", 1, none, none, 0, 0, 1, none, none, 1⟩)]

theorem thread_message_bounds_exact_twoThreads :
    BoundsExact (Run.execAll (@exec lenient fileServer) twoThreads .new).store :=
  @thread_message_bounds_exact lenient fileServer _ (Run.reaches_execAll (fun _ _ _ => trivial) _)

end MemoryStore.Media
