/-
Who may do what to a media row. A task that has reserved a row, claimed it for
promotion or claimed it for deletion is the only one to take it out of that
state again: the state is its lock. `Moves` says what a step may do to a row by
the locks its task holds on it, and `Fits` what every task relies on; what one
task relies on, no step of another moves.
-/
import MemoryStore.Media.Counts

namespace MemoryStore.Media

open Conversation Table

/-! ## Locks -/

inductive Lock where
  /-- The row is a reservation, and so not confirmed by others. -/
  | reservation
  /-- The row is promoting. -/
  | promotion
  /-- The row is deleting. -/
  | deletion
  deriving DecidableEq, Repr

/-- The lock a task holds. -/
def Task.lock : Task → Option (Lock × Nat)
  | copyFresh _ id | rollBack _ id | confirmFresh _ id => some (.reservation, id)
  | deleteReservationFinal row _ | deleteReservationRow row => some (.reservation, row.id)
  | copyPromote _ id | readRefCount _ id | confirmPromote _ id _ => some (.promotion, id)
  | deletePromotingFinal row _ | revertPromoting row => some (.promotion, row.id)
  | deleteObject id _ | markFailed id | deleteRow id => some (.deletion, id)
  | revertDeleting row => some (.deletion, row.id)
  | _ => none

theorem Task.worksOn_of_lock {task : Task} {l : Lock} {id : Nat} (h : task.lock = some (l, id)) :
    task.worksOn = some id := by
  cases task <;> simp_all [Task.lock, Task.worksOn]

/-- No two tasks hold one lock. -/
def Exclusive (tasks : List Task) : Prop := (tasks.filterMap Task.lock).Nodup

theorem Exclusive.eraseIdx {tasks : List Task} (h : Exclusive tasks) (i : Nat) : Exclusive (tasks.eraseIdx i) :=
  h.sublist ((List.eraseIdx_sublist tasks i).filterMap Task.lock)

/-- The lock of a task is no other's. -/
theorem Exclusive.other : ∀ {tasks : List Task} {i : Nat} {task : Task} {l : Lock × Nat}, Exclusive tasks →
    tasks[i]? = some task → task.lock = some l → l ∉ (tasks.eraseIdx i).filterMap Task.lock
  | [], i, _, _, _, hget, _ => by simp at hget
  | t :: tasks, 0, task, l, h, hget, hl => by
    obtain rfl : t = task := by simpa using hget
    unfold Exclusive at h
    rw [List.filterMap_cons, hl] at h
    exact (List.nodup_cons.1 h).1
  | t :: tasks, i + 1, task, l, h, hget, hl => by
    have hget' : tasks[i]? = some task := by simpa using hget
    have hrest : Exclusive tasks := h.sublist ((List.sublist_cons_self t tasks).filterMap Task.lock)
    have ih := hrest.other hget' hl
    rw [List.eraseIdx_cons_succ, List.filterMap_cons]
    cases ht : t.lock with
    | none => exact ih
    | some l' =>
      rw [List.mem_cons, not_or]
      refine ⟨?_, ih⟩
      rintro rfl
      unfold Exclusive at h
      rw [List.filterMap_cons, ht] at h
      exact (List.nodup_cons.1 h).1 (List.mem_filterMap.2 ⟨task, List.mem_of_getElem? hget', hl⟩)

/-! ## Moves of a row -/

/-- A reservation that was never confirmed, or is being deleted as one. -/
def Unconfirmed (r : MediaObjectRow) : Prop := r.storageUri = none ∧ (r.gcState = .orphan ∨ r.gcState = .deleting)

/-- What a step may do to a row, by the locks its task holds on it. -/
structure Moves (held : Lock → Prop) (r r' : MediaObjectRow) : Prop where
  sha256 : r'.sha256 = r.sha256
  storageUri : r.storageUri.isSome → r'.storageUri.isSome
  deletion : r.gcState = .deleting → r'.gcState = .deleting ∨ held .deletion
  promotion : r.gcState = .promoting → (r'.gcState = .promoting ∧ r'.storageUri = r.storageUri) ∨ held .promotion
  reservation : Unconfirmed r → Unconfirmed r' ∨ held .reservation

theorem Moves.refl (held : Lock → Prop) (r : MediaObjectRow) : Moves held r r :=
  ⟨rfl, fun h => h, .inl, fun h => .inl ⟨h, rfl⟩, .inl⟩

/-- What a step may do to the row with some id: a row is deleted under its
deletion lock, or as a reservation. -/
def RowMoves (held : Lock → Prop) : Option MediaObjectRow → Option MediaObjectRow → Prop
  | some r, some r' => Moves held r r'
  | some r, none => (held .deletion ∧ r.gcState = .deleting) ∨ Unconfirmed r
  | none, some _ => False
  | none, none => True

theorem RowMoves.refl (held : Lock → Prop) (m : Option MediaObjectRow) : RowMoves held m m := by
  cases m with
  | none => trivial
  | some r => exact Moves.refl held r

/-- The locks of a task on one row. -/
def Task.holds (task : Task) (id : Nat) (l : Lock) : Prop := task.lock = some (l, id)

variable {s s' : Store} {held : Nat → Lock → Prop}

theorem rowMoves_modify {id : Nat} {g : MediaObjectRow → Bool} {f : MediaObjectRow → MediaObjectRow}
    (hf : ∀ row, (f row).id = row.id) (h : ∀ r, s.findMedia id = some r → g r = true → Moves (held id) r (f r))
    (k : Nat) : RowMoves (held k) (s.findMedia k) ((s.modifyMedia id g f).findMedia k) := by
  rw [Store.findMedia_modifyMedia hf]
  cases hfind : s.findMedia k with
  | none => trivial
  | some r =>
    rw [Option.map_some]
    split
    · next hg =>
      simp only [Bool.and_eq_true, decide_eq_true_eq] at hg
      have hk : k = id := (Store.findMedia_mem hfind).2.symm.trans hg.1
      subst hk
      exact h r hfind hg.2
    · exact Moves.refl _ r

theorem rowMoves_delete (hs : s.Valid) {q : MediaObjectRow → Bool}
    (h : ∀ r, s.findMedia r.id = some r → q r = true →
      (held r.id .deletion ∧ r.gcState = .deleting) ∨ Unconfirmed r) (k : Nat) :
    RowMoves (held k) (s.findMedia k) ((s.deleteMedia q).findMedia k) := by
  have hfilter : (s.deleteMedia q).findMedia k = (s.findMedia k).filter fun row => !q row :=
    find?_filter_of_nodup hs.mediaIds _ k
  rw [hfilter]
  cases hfind : s.findMedia k with
  | none => trivial
  | some r =>
    obtain ⟨-, rfl⟩ := Store.findMedia_mem hfind
    by_cases hq : q r = true
    · simp only [Option.filter_some, hq, Bool.not_true, Bool.false_eq_true, if_false]
      exact h r hfind hq
    · simp only [Option.filter_some, Bool.not_eq_true] at hq ⊢
      rw [hq]
      exact Moves.refl _ r

/-! ## What a task relies on -/

/-- A row whose bytes the server was given has a hash; a row of an external URL has none. -/
def HashOrUrl (r : MediaObjectRow) : Prop :=
  (∃ sha256 : Sha256Hex, r.sha256 = some sha256.value) ∨
    r.sha256 = none ∧ r.storageBackend = .url ∧ r.storageUri.isSome ∧
      (r.gcState = .active ∨ r.gcState = .orphan ∨ r.gcState = .deleting)

theorem MediaObjectRow.sha_of_promoting {r : MediaObjectRow} (h : HashOrUrl r) (hp : r.gcState = .promoting) :
    ∃ sha256 : Sha256Hex, r.sha256 = some sha256.value := by
  rcases h with h | ⟨-, -, -, hs | hs | hs⟩
  · exact h
  all_goals simp [hp] at hs

theorem MediaObjectRow.sha_of_managed {r : MediaObjectRow} (h : HashOrUrl r) (hm : r.storageBackend.managed = true) :
    ∃ sha256 : Sha256Hex, r.sha256 = some sha256.value := by
  rcases h with h | ⟨-, hurl, -⟩
  · exact h
  · simp [hurl, Backend.managed] at hm

/-- The row a task has read is the row there is, but for its state. -/
structure Snapshot (s : Store) (id : Nat) (row : MediaObjectRow) : Prop where
  lt : id < s.nextId
  rowId : row.id = id
  shaped : HashOrUrl row
  same : ∀ r, s.findMedia id = some r → r.sha256 = row.sha256 ∧ (row.storageUri.isSome → r.storageUri.isSome)

/-- If the row is there, it has the property. -/
def IfThere (s : Store) (id : Nat) (P : MediaObjectRow → Prop) : Prop :=
  id < s.nextId ∧ ∀ r, s.findMedia id = some r → P r

/-- The row is there, and has the property. -/
def There (s : Store) (id : Nat) (P : MediaObjectRow → Prop) : Prop := ∃ r, s.findMedia id = some r ∧ P r

/-- The final key of a content. -/
def Sha256Hex.key [MediaConfig] (sha256 : Sha256Hex) : String := finalKey MediaConfig.s3Prefix sha256.value

/-- What a task relies on. -/
def Task.Fits [MediaConfig] (s : Store) (objects : Objects) : Task → Prop
  | putTemp u | reserve u => isTemp MediaConfig.s3Prefix u.tkey
  | copyFresh u id | rollBack u id =>
    isTemp MediaConfig.s3Prefix u.tkey ∧ IfThere s id fun r => r.sha256 = some u.sha256.value ∧ Unconfirmed r
  | confirmFresh u id =>
    isTemp MediaConfig.s3Prefix u.tkey ∧
      IfThere s id fun r => (r.sha256 = some u.sha256.value ∧ Unconfirmed r) ∧ objects.has u.sha256.key
  | claimPromote u id | rereadPromote u id =>
    isTemp MediaConfig.s3Prefix u.tkey ∧ IfThere s id fun r => r.sha256 = some u.sha256.value
  | copyPromote u id =>
    isTemp MediaConfig.s3Prefix u.tkey ∧
      There s id fun r => r.sha256 = some u.sha256.value ∧ r.gcState = .promoting
  | readRefCount u id | confirmPromote u id _ =>
    isTemp MediaConfig.s3Prefix u.tkey ∧
      (There s id fun r => r.sha256 = some u.sha256.value ∧ r.gcState = .promoting) ∧ objects.has u.sha256.key
  | dropTemp key | deleteTemp key => isTemp MediaConfig.s3Prefix key
  | headObject .. | registerManaged .. | registerUrl _ | readForDelete _ => True
  | claimForDelete id row => Snapshot s id row
  | claimThenFinish row | reclaimFailed row => Snapshot s row.id row
  | deleteObject id row =>
    Snapshot s id row ∧ row.storageBackend.managed ∧ row.storageUri.isSome ∧
      There s id fun r => r.gcState = .deleting
  | markFailed id => IfThere s id fun r => r.gcState = .deleting ∧ r.storageUri.isSome ∧ r.sha256.isSome
  | deleteRow id => IfThere s id fun r => r.gcState = .deleting
  | deleteReservationFinal row sha256 => IfThere s row.id fun r => r.sha256 = some sha256 ∧ Unconfirmed r
  | deleteReservationRow row => IfThere s row.id Unconfirmed
  | deletePromotingFinal row sha256 =>
    There s row.id fun r => r.sha256 = some sha256 ∧ r.gcState = .promoting ∧ r.storageUri = none
  | revertPromoting row => There s row.id fun r => r.gcState = .promoting
  | revertDeleting row => There s row.id fun r => r.gcState = .deleting ∧ r.storageUri.isSome
  | reconcile _ | rereadReconciled _ => False

/-- The row a task is about to confirm, and the key of the object it confirms it with. -/
def Task.target [MediaConfig] : Task → Option (Nat × String)
  | confirmFresh u id | readRefCount u id | confirmPromote u id _ => some (id, u.sha256.key)
  | _ => none

/-- A task relies on no object but the one it is about to confirm. -/
theorem Task.Fits.objects [MediaConfig] {objects objects' : Objects} {task : Task} (hfit : task.Fits s objects)
    (hspare : ∀ id key, task.target = some (id, key) → ∀ r, s.findMedia id = some r →
      objects.has key = true → objects'.has key = true) : task.Fits s objects' := by
  cases task with
  | confirmFresh u id =>
    obtain ⟨htemp, hlt, hrow⟩ := hfit
    exact ⟨htemp, hlt, fun r hr => ⟨(hrow r hr).1, hspare id _ rfl r hr (hrow r hr).2⟩⟩
  | readRefCount u id | confirmPromote u id gcState =>
    obtain ⟨htemp, ⟨r, hr, hp⟩, hhas⟩ := hfit
    exact ⟨htemp, ⟨r, hr, hp⟩, hspare id _ rfl r hr hhas⟩
  | _ => exact hfit

/-- The state a lock is held in. -/
def Lock.On (r : MediaObjectRow) : Lock → Prop
  | reservation => Unconfirmed r
  | promotion => r.gcState = .promoting
  | deletion => r.gcState = .deleting

/-- A row that is locked is in the state of its lock. -/
theorem Task.Fits.locked [MediaConfig] {objects : Objects} {task : Task} {l : Lock} {id : Nat}
    (hfit : task.Fits s objects) (hl : task.lock = some (l, id)) {r : MediaObjectRow} (hr : s.findMedia id = some r) :
    l.On r := by
  have there : ∀ {P : MediaObjectRow → Prop}, There s id P → P r := by
    rintro P ⟨r', hr', hp⟩
    rw [hr] at hr'
    cases hr'
    exact hp
  cases task <;> simp only [Task.lock, reduceCtorEq, Option.some.injEq, Prod.mk.injEq] at hl <;>
    obtain ⟨rfl, rfl⟩ := hl
  · exact (hfit.2.2 r hr).2
  · exact (hfit.2.2 r hr).2
  · exact (hfit.2.2 r hr).1.2
  · exact (there hfit.2).2
  · exact (there hfit.2.1).2
  · exact (there hfit.2.1).2
  · exact there hfit.2.2.2
  · exact (hfit.2 r hr).1
  · exact hfit.2 r hr
  · exact (hfit.2 r hr).2
  · exact hfit.2 r hr
  · exact (there hfit).2.1
  · exact there hfit
  · exact (there hfit).1

/-- What is locked has been drawn from the counter. -/
theorem Task.Fits.lock_lt [MediaConfig] {objects : Objects} {task : Task} {l : Lock} {id : Nat} (hs : s.Valid)
    (hfit : task.Fits s objects) (hl : task.lock = some (l, id)) : id < s.nextId := by
  have there : ∀ {P : MediaObjectRow → Prop}, There s id P → id < s.nextId := by
    rintro P ⟨r', hr', -⟩
    obtain ⟨hmem, rfl⟩ := Store.findMedia_mem hr'
    exact hs.mediaId_lt r' hmem
  cases task <;> simp only [Task.lock, reduceCtorEq, Option.some.injEq, Prod.mk.injEq] at hl <;>
    obtain ⟨rfl, rfl⟩ := hl
  · exact hfit.2.1
  · exact hfit.2.1
  · exact hfit.2.1
  · exact there hfit.2
  · exact there hfit.2.1
  · exact there hfit.2.1
  · exact hfit.1.lt
  · exact hfit.1
  · exact hfit.1
  · exact hfit.1
  · exact hfit.1
  · exact there hfit
  · exact there hfit
  · exact there hfit

/-! ## What stays -/

/-- A step by a task that holds other locks. -/
structure Step (held : Nat → Lock → Prop) (s s' : Store) : Prop where
  later : s.nextId ≤ s'.nextId
  rows : ∀ id < s.nextId, RowMoves (held id) (s.findMedia id) (s'.findMedia id)

theorem Step.refl (held : Nat → Lock → Prop) (s : Store) : Step held s s :=
  ⟨Nat.le_refl _, fun _ _ => RowMoves.refl _ _⟩

theorem Step.ifThere (h : Step held s s') {id : Nat} {P : MediaObjectRow → Prop} (hp : IfThere s id P)
    (hmove : ∀ r r', P r → Moves (held id) r r' → P r') : IfThere s' id P := by
  refine ⟨Nat.lt_of_lt_of_le hp.1 h.later, fun r' hr' => ?_⟩
  have hrow := h.rows id hp.1
  rw [hr'] at hrow
  cases hr : s.findMedia id with
  | none => rw [hr] at hrow; exact hrow.elim
  | some r =>
    rw [hr] at hrow
    exact hmove r r' (hp.2 r hr) hrow

theorem Step.there (h : Step held s s') (hs : s.Valid) {id : Nat} {P : MediaObjectRow → Prop} (hp : There s id P)
    (hmove : ∀ r r', P r → Moves (held id) r r' → P r')
    (hstays : ∀ r, P r → ¬((held id .deletion ∧ r.gcState = .deleting) ∨ Unconfirmed r)) : There s' id P := by
  obtain ⟨r, hr, hpr⟩ := hp
  obtain ⟨hmem, hid⟩ := Store.findMedia_mem hr
  have hrow := h.rows id (hid ▸ hs.mediaId_lt r hmem)
  rw [hr] at hrow
  cases hr' : s'.findMedia id with
  | none => rw [hr'] at hrow; exact absurd hrow (hstays r hpr)
  | some r' =>
    rw [hr'] at hrow
    exact ⟨r', hr', hmove r r' hpr hrow⟩

theorem Step.snapshot (h : Step held s s') {id : Nat} {row : MediaObjectRow} (hp : Snapshot s id row) :
    Snapshot s' id row := by
  have hif : IfThere s id fun r => r.sha256 = row.sha256 ∧ (row.storageUri.isSome → r.storageUri.isSome) :=
    ⟨hp.lt, hp.same⟩
  have hif' := h.ifThere hif fun r r' hr hm => ⟨hm.sha256.trans hr.1, fun hu => hm.storageUri (hr.2 hu)⟩
  exact ⟨hif'.1, hp.rowId, hp.shaped, hif'.2⟩

/-- **What one task relies on, no step of another moves.** -/
theorem Step.fits [MediaConfig] (h : Step held s s') (hs : s.Valid) {objects : Objects} {task : Task}
    (hfree : ∀ l id, task.lock = some (l, id) → ¬held id l) (hfit : task.Fits s objects) : task.Fits s' objects := by
  have unconfirmed : ∀ {id : Nat}, ¬held id .reservation → ∀ {r r' : MediaObjectRow}, Unconfirmed r →
      Moves (held id) r r' → Unconfirmed r' := fun hn r r' hr hm => (hm.reservation hr).resolve_right hn
  have promoting : ∀ {id : Nat}, ¬held id .promotion → ∀ {r r' : MediaObjectRow}, r.gcState = .promoting →
      Moves (held id) r r' → r'.gcState = .promoting ∧ r'.storageUri = r.storageUri :=
    fun hn r r' hr hm => (hm.promotion hr).resolve_right hn
  have deleting : ∀ {id : Nat}, ¬held id .deletion → ∀ {r r' : MediaObjectRow}, r.gcState = .deleting →
      Moves (held id) r r' → r'.gcState = .deleting := fun hn r r' hr hm => (hm.deletion hr).resolve_right hn
  have staysPromoting : ∀ {id : Nat} {r : MediaObjectRow}, r.gcState = .promoting →
      ¬((held id .deletion ∧ r.gcState = .deleting) ∨ Unconfirmed r) := by
    rintro id r hr (⟨-, hd⟩ | ⟨-, hd | hd⟩) <;> simp [hr] at hd
  cases task with
  | putTemp u => exact hfit
  | reserve u => exact hfit
  | copyFresh u id | rollBack u id =>
    have hn := hfree .reservation id rfl
    exact ⟨hfit.1, h.ifThere hfit.2 fun r r' hr hm => ⟨hm.sha256.trans hr.1, unconfirmed hn hr.2 hm⟩⟩
  | confirmFresh u id =>
    have hn := hfree .reservation id rfl
    exact ⟨hfit.1, h.ifThere hfit.2 fun r r' hr hm => ⟨⟨hm.sha256.trans hr.1.1, unconfirmed hn hr.1.2 hm⟩, hr.2⟩⟩
  | claimPromote u id | rereadPromote u id =>
    exact ⟨hfit.1, h.ifThere hfit.2 fun r r' hr hm => hm.sha256.trans hr⟩
  | copyPromote u id =>
    have hn := hfree .promotion id rfl
    exact ⟨hfit.1, h.there hs hfit.2 (fun r r' hr hm => ⟨hm.sha256.trans hr.1, (promoting hn hr.2 hm).1⟩)
      fun r hr => staysPromoting hr.2⟩
  | readRefCount u id | confirmPromote u id gcState =>
    have hn := hfree .promotion id rfl
    exact ⟨hfit.1, h.there hs hfit.2.1 (fun r r' hr hm => ⟨hm.sha256.trans hr.1, (promoting hn hr.2 hm).1⟩)
      fun r hr => staysPromoting hr.2, hfit.2.2⟩
  | dropTemp key => exact hfit
  | headObject p sha256 byteSize => trivial
  | registerManaged p sha256 byteSize => trivial
  | registerUrl p => trivial
  | readForDelete id => trivial
  | claimForDelete id row => exact h.snapshot hfit
  | claimThenFinish row => exact h.snapshot hfit
  | reclaimFailed row => exact h.snapshot hfit
  | deleteObject id row =>
    have hn := hfree .deletion id rfl
    obtain ⟨hsnap, hmanaged, huri, hthere⟩ := hfit
    have hboth : There s id fun r => r.gcState = .deleting ∧ r.storageUri.isSome := by
      obtain ⟨r, hr, hd⟩ := hthere
      exact ⟨r, hr, hd, (hsnap.same r hr).2 huri⟩
    obtain ⟨r', hr', hd', -⟩ := h.there hs hboth (fun r r' hr hm => ⟨deleting hn hr.1 hm, hm.storageUri hr.2⟩)
      (by
        rintro r ⟨-, hu⟩ (⟨hl, -⟩ | ⟨hnone, -⟩)
        · exact hn hl
        · simp [hnone] at hu)
    exact ⟨h.snapshot hsnap, hmanaged, huri, r', hr', hd'⟩
  | markFailed id =>
    have hn := hfree .deletion id rfl
    exact h.ifThere hfit fun r r' hr hm => ⟨deleting hn hr.1 hm, hm.storageUri hr.2.1, by rw [hm.sha256]; exact hr.2.2⟩
  | deleteRow id =>
    have hn := hfree .deletion id rfl
    exact h.ifThere hfit fun r r' hr hm => deleting hn hr hm
  | deleteReservationFinal row sha256 =>
    have hn := hfree .reservation row.id rfl
    exact h.ifThere hfit fun r r' hr hm => ⟨hm.sha256.trans hr.1, unconfirmed hn hr.2 hm⟩
  | deleteReservationRow row =>
    have hn := hfree .reservation row.id rfl
    exact h.ifThere hfit fun r r' hr hm => unconfirmed hn hr hm
  | deletePromotingFinal row sha256 =>
    have hn := hfree .promotion row.id rfl
    refine h.there hs hfit (fun r r' hr hm => ?_) fun r hr => staysPromoting hr.2.1
    obtain ⟨hstate, huri⟩ := promoting hn hr.2.1 hm
    exact ⟨hm.sha256.trans hr.1, hstate, huri.trans hr.2.2⟩
  | revertPromoting row =>
    have hn := hfree .promotion row.id rfl
    exact h.there hs hfit (fun r r' hr hm => (promoting hn hr hm).1) fun r hr => staysPromoting hr
  | revertDeleting row =>
    have hn := hfree .deletion row.id rfl
    refine h.there hs hfit (fun r r' hr hm => ⟨deleting hn hr.1 hm, hm.storageUri hr.2⟩) ?_
    rintro r ⟨-, hu⟩ (⟨hl, -⟩ | ⟨hnone, -⟩)
    · exact hn hl
    · simp [hnone] at hu
  | reconcile d => exact hfit
  | rereadReconciled id => exact hfit
  | deleteTemp key => exact hfit

end MemoryStore.Media
