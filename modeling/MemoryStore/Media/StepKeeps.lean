/-
Every step of a task keeps what `Kept` says, if it is orderly: a cleanup puts
back only a row that still has its object, Register takes a key only while the
object is there and the key is no other content's, and the object of a
reservation is deleted only while the reservation is in the table.
-/
import MemoryStore.Media.Keeping

namespace MemoryStore.Media

open Conversation Table

/-! ## Transactions, as they run -/

theorem generateId_bind {α : Type} (s : Store) (f : Nat → StoreTx α) :
    (generateId >>= f) s = f s.nextId { s with nextId := s.nextId + 1 } := rfl

theorem insertReservation_run (s : Store) (now : Int) (id : Nat) (header : MediaHeader) (sha256 : String) :
    insertReservation now id header sha256 s = match s.findMediaBySha256 sha256 with
      | some _ => .ok (false, s)
      | none => .ok (true, s.insertMedia (header.row now id (some sha256) .pending none .orphan)) := by
  unfold insertReservation
  rw [Tx.get_bind]
  cases s.findMediaBySha256 sha256 <;> rfl

theorem reserveUpload_run (s : Store) (now : Int) (u : Upload) :
    reserveUpload now u s = match s.findMediaBySha256 u.sha256.value with
      | some row => .ok (.inr row, { s with nextId := s.nextId + 1 })
      | none => .ok (.inl s.nextId,
          { s with
              nextId := s.nextId + 1
              mediaObjects := s.mediaObjects ++
                [u.mediaHeader.row now s.nextId (some u.sha256.value) .pending none .orphan] }) := by
  have hbump : Store.findMediaBySha256 { s with nextId := s.nextId + 1 } u.sha256.value =
      s.findMediaBySha256 u.sha256.value := rfl
  unfold reserveUpload
  rw [generateId_bind, Tx.bind_run, insertReservation_run, hbump]
  cases hfind : s.findMediaBySha256 u.sha256.value with
  | none => rfl
  | some row =>
    dsimp only
    rw [Tx.get_bind, hbump, hfind]
    rfl

theorem insertUnresolvable_run (s : Store) (now : Int) (header : MediaHeader) (sha256 : Sha256Hex) :
    insertUnresolvable now header sha256 s = match s.findMediaBySha256 sha256.value with
      | some _ => .ok ((), { s with nextId := s.nextId + 1 })
      | none => .ok ((),
          { s with
              nextId := s.nextId + 1
              mediaObjects := s.mediaObjects ++
                [header.row now s.nextId (some sha256.value) .unresolvable none .unresolvable] }) := by
  have hbump : Store.findMediaBySha256 { s with nextId := s.nextId + 1 } sha256.value =
      s.findMediaBySha256 sha256.value := rfl
  unfold insertUnresolvable
  rw [generateId_bind, Tx.get_bind, hbump]
  cases s.findMediaBySha256 sha256.value <;> rfl

/-- Registering what is new, what has no bytes, and what is there. -/
theorem registerManagedTx_run [MediaConfig] (s : Store) (hs : s.Valid) (now : Int) (p : RegisterParams) (sha256 : Sha256Hex)
    (byteSize : Int) :
    registerManagedTx now p sha256 byteSize s = match s.findMediaBySha256 sha256.value with
      | none => .ok ((),
          { s with
              nextId := s.nextId + 1
              mediaObjects := s.mediaObjects ++
                [(p.mediaHeader.row now s.nextId (some sha256.value) .pending none .orphan).confirmed now p.storageUri
                  MediaConfig.backend (some byteSize)] })
      | some row =>
        if row.inStates [.deletedFailed, .unresolvable] then
          .ok ((), Store.modifyMedia { s with nextId := s.nextId + 1 } row.id (·.inStates [.deletedFailed, .unresolvable])
            fun r => { r.confirmed now p.storageUri MediaConfig.backend (some byteSize) with
              gcState := if 0 < row.refCount then .active else .orphan })
        else .ok ((), { s with nextId := s.nextId + 1 }) := by
  have hbump : Store.findMediaBySha256 { s with nextId := s.nextId + 1 } sha256.value =
      s.findMediaBySha256 sha256.value := rfl
  unfold registerManagedTx
  rw [generateId_bind, Tx.bind_run, insertReservation_run, hbump]
  cases hfind : s.findMediaBySha256 sha256.value with
  | none =>
    have hother : s.mediaObjects.map
        (fun r => if (r.id = s.nextId && (r.inStates [.orphan] && r.storageUri.isNone)) = true then
          r.confirmed now p.storageUri MediaConfig.backend (some byteSize) else r) = s.mediaObjects := by
      conv_rhs => rw [← List.map_id s.mediaObjects]
      refine List.map_congr_left fun r hr => ?_
      have := hs.mediaId_lt r hr
      rw [if_neg (by simp; omega)]
      rfl
    show Except.ok ((), Store.modifyMedia (Store.insertMedia { s with nextId := s.nextId + 1 } _) _ _ _) = _
    simp only [Store.modifyMedia, Store.insertMedia, modifyWhere, List.map_append, List.map_cons, List.map_nil]
    rw [hother, if_pos (by simp [MediaHeader.row, MediaObjectRow.inStates])]
  | some row =>
    dsimp only
    rw [Tx.get_bind, hbump, hfind]
    dsimp only
    by_cases hstate : row.inStates [.deletedFailed, .unresolvable] = true
    · simp only [hstate, if_true]
      rfl
    · simp only [hstate]
      rfl

/-- A claimed row is unreferenced, so the delete hits it. -/
theorem deleteRowTx_run {s : Store} (hs : s.Sound) {id : Nat} (hrow : ∀ r, s.findMedia id = some r → r.gcState = .deleting)
    (now : Int) : deleteRowTx now id s = .ok ((), s.deleteMedia fun row => row.id = id && row.deletable) := by
  have hdeletable : ∀ r ∈ s.mediaObjects, r.id = id → r.deletable = true := by
    intro r hr hid
    have hd := hrow r (hs.valid.findMedia_iff.2 ⟨hr, hid⟩)
    have hzero : r.refCount = 0 := by
      by_contra hc
      exact (hs.counted.live r hr (by omega)).2 hd
    simp [MediaObjectRow.deletable, MediaObjectRow.unreferenced, MediaObjectRow.inStates, hd, hzero]
  unfold deleteRowTx
  rw [Tx.bind_run]
  show (if (s.mediaObjects.any fun row => row.id = id && row.deletable) = true then (pure () : StoreTx Unit) else do
    let _ ← markDeleteFailed now id
    pure ()) (s.deleteMedia fun row => row.id = id && row.deletable) = _
  split
  · rfl
  · next hno =>
    -- No row has the id, so the mark hits none.
    have hnone : ∀ r ∈ s.mediaObjects, r.id ≠ id := by
      intro r hr hid
      exact hno (List.any_eq_true.2 ⟨r, hr, by simp [hid, hdeletable r hr hid]⟩)
    show Except.ok ((), Store.modifyMedia (s.deleteMedia _) id _ _) = _
    have hsame : ∀ rows : List MediaObjectRow, (∀ r ∈ rows, r.id ≠ id) → ∀ g : MediaObjectRow → Bool,
        modifyWhere (fun row => row.id = id && g row) (·.setState now .deletedFailed) rows = rows := by
      intro rows hrows g
      conv_rhs => rw [← List.map_id rows]
      refine List.map_congr_left fun r hr => ?_
      rw [if_neg (by simp [hrows r hr])]
      rfl
    simp only [Store.modifyMedia]
    rw [hsame (s.deleteMedia _).mediaObjects fun r hr => hnone r (List.mem_filter.1 hr).1]

theorem transact_modifyMedia (s : Store) (objects : Objects) (id : Nat) (g : MediaObjectRow → Bool)
    (f : MediaObjectRow → MediaObjectRow) (next : Bool → List Task) :
    transact s objects (modifyMedia id g f) next =
      (s.modifyMedia id g f, objects, next (s.mediaObjects.any fun row => row.id = id && g row)) := rfl

theorem transact_deleteIfUnreferenced (s : Store) (objects : Objects) (id : Nat) (next : Bool → List Task) :
    transact s objects (deleteIfUnreferenced id) next =
      (s.deleteMedia fun row => row.id = id && row.deletable, objects,
        next (s.mediaObjects.any fun row => row.id = id && row.deletable)) := rfl

/-! ## Copies -/

theorem copyObject_mono (objects : Objects) (now : Int) (src dst : String) (outcome : Outcome) {key : String}
    (h : objects.has key = true) : (copyObject objects now src dst outcome).1.has key = true := by
  cases outcome with
  | done =>
    simp only [copyObject]
    split
    · exact (Objects.has_put _ _ _ _).2 (.inl h)
    · exact h
  | failed => exact h
  | torn => exact (Objects.has_put _ _ _ _).2 (.inl h)

theorem copyObject_has {objects : Objects} {now : Int} {src dst : String} {outcome : Outcome}
    (h : (copyObject objects now src dst outcome).2 = true) :
    (copyObject objects now src dst outcome).1.has dst = true := by
  cases outcome with
  | done =>
    simp only [copyObject] at h ⊢
    split at h
    · exact (Objects.has_put _ _ _ _).2 (.inr rfl)
    · simp at h
  | failed => simp [copyObject] at h
  | torn => simp [copyObject] at h

variable [MediaConfig] {σ : System}

/-! ## The condition -/

/-- Register takes the content: it is new, or its row has no bytes. -/
def Store.registers (s : Store) (sha256 : Sha256Hex) : Prop :=
  ∀ r, s.findMediaBySha256 sha256.value = some r → r.inStates [.deletedFailed, .unresolvable] = true

/-- The condition on a step of a task. -/
def Task.Orderly (σ : System) (outcome : Outcome) : Task → Prop
  | revertDeleting row => ∀ r, σ.store.findMedia row.id = some r → r.storageBackend.managed = true →
      ∀ key, r.storageUri = some key → σ.objects.has key = true
  | registerManaged p sha256 _ => Store.registers σ.store sha256 →
      σ.objects.has p.storageUri = true ∧ isTemp MediaConfig.s3Prefix p.storageUri = false ∧
        ∀ sha256', σ.Names p.storageUri sha256' → sha256' = sha256.value
  | deleteReservationFinal row _ => outcome = .done → (σ.store.findMedia row.id).isSome
  | _ => True

/-! ## Steps -/

variable {i : Nat} {task : Task} {u : Upload}

/-- What a task may go on to lock: what it locked, or what is not locked. -/
theorem System.Kept.rest_free (hσ : σ.Kept) (hget : σ.tasks[i]? = some task) {l : Lock × Nat}
    (h : task.lock = some l ∨ l ∉ σ.tasks.filterMap Task.lock) : l ∉ (σ.tasks.eraseIdx i).filterMap Task.lock := by
  rcases h with h | h
  · exact hσ.exclusive.other hget h
  · exact fun hmem => h (((List.eraseIdx_sublist σ.tasks i).filterMap Task.lock).subset hmem)

/-- The row a task is about to confirm is locked by it. -/
theorem Task.Fits.confirming {objects : Objects} {s : Store} (hfit : task.Fits s objects) {id : Nat} {key : String}
    (ht : task.target = some (id, key)) {r : MediaObjectRow} (hr : s.findMedia id = some r) :
    ∃ sha256 : Sha256Hex, key = sha256.key ∧ r.sha256 = some sha256.value ∧
      ∃ l, l ≠ .deletion ∧ l.On r ∧ task.lock = some (l, id) := by
  have there : ∀ {P : MediaObjectRow → Prop}, There s id P → P r := by
    rintro P ⟨r', hr', hp⟩
    rw [hr] at hr'
    cases hr'
    exact hp
  cases task <;> simp only [Task.target, reduceCtorEq, Option.some.injEq, Prod.mk.injEq] at ht <;>
    obtain ⟨rfl, rfl⟩ := ht
  · exact ⟨_, rfl, (hfit.2.2 r hr).1.1, .reservation, by simp, (hfit.2.2 r hr).1.2, rfl⟩
  · exact ⟨_, rfl, (there hfit.2.1).1, .promotion, by simp, (there hfit.2.1).2, rfl⟩
  · exact ⟨_, rfl, (there hfit.2.1).1, .promotion, by simp, (there hfit.2.1).2, rfl⟩

/-- The object of a row is deleted, when the row is not handed out and the key is its own. -/
theorem keeps_dropKey (hσ : σ.Kept) {held : Nat → Lock → Prop} {rest : List Task} (hrest : rest.Sublist σ.tasks)
    {fresh : Option (String × String)} {r : MediaObjectRow} (hr : r ∈ σ.store.mediaObjects) {key sha256 : String}
    (hsha : r.sha256 = some sha256) (hnames : σ.Names key sha256) (hn : ¬MediaAvailable r)
    (hlocks : ∀ l, l.On r → l = .deletion ∨ (l, r.id) ∉ rest.filterMap Task.lock) {next : List Task}
    (hnext : Next σ rest σ.store (σ.objects.delete key) next) :
    Keeps σ held rest fresh (σ.store, σ.objects.delete key, next) := by
  refine keeps_drop hσ (fun r' hr' ha hu => ?_) (fun task htask id k htarget r' hr' he => ?_) hnext
  · rcases (hσ.rows r' hr').shaped with ⟨sha, hsha'⟩ | ⟨-, hurl, -⟩
    · have hsame := hσ.row_eq hr hr' hsha hsha' hnames (.row hr' ⟨ha.1, hu, hsha'⟩)
      exact hn (hsame ▸ ha)
    · have := ha.1
      simp [hurl, Backend.managed] at this
  · obtain ⟨sha, hkey, hsha', l, hl, hon, hlock⟩ := (hσ.fits task (hrest.subset htask)).confirming htarget hr'
    obtain ⟨hmem, hid⟩ := Store.findMedia_mem hr'
    subst he hkey
    have hsame := hσ.row_eq hr hmem hsha hsha' hnames (.final sha)
    subst hsame hid
    rcases hlocks l hon with hd | hfree
    · exact hl hd
    · exact hfree (List.mem_filterMap.2 ⟨task, htask, hlock⟩)

/-! ## Rows -/

/-- A row that is withdrawn is not handed out. -/
theorem RowKept.withdrawn {objects : Objects} {r : MediaObjectRow} (h : RowKept objects r) (now : Int)
    {gcState : GcState} (hstate : gcState ≠ .active ∧ gcState ≠ .orphan)
    (hsha : gcState = .deleting ∨ r.sha256.isSome) : RowKept objects (r.setState now gcState) where
  shaped := by
    rcases h.shaped with hs | ⟨hnone, hurl, huri, -⟩
    · exact .inl hs
    · rcases hsha with hd | hsome
      · exact .inr ⟨hnone, hurl, huri, .inr (.inr hd)⟩
      · simp [hnone] at hsome
  lasting := h.lasting
  served ha := by
    rcases ha.2.2 with hs | hs
    · exact absurd hs hstate.1
    · exact absurd hs hstate.2

/-- A row with a hash, whose object is there. -/
theorem RowKept.ofKey {objects : Objects} {r : MediaObjectRow} {sha256 : Sha256Hex} {key : String}
    (hsha : r.sha256 = some sha256.value) (huri : r.storageUri = some key)
    (htemp : isTemp MediaConfig.s3Prefix key = false) (hhas : objects.has key = true) : RowKept objects r where
  shaped := .inl ⟨sha256, hsha⟩
  lasting _ k hk := by
    rw [huri] at hk
    cases hk
    exact htemp
  served _ k hk := by
    rw [huri] at hk
    cases hk
    exact hhas

/-! ## Claims for deletion -/

theorem finishDelete_next {s' : Store} {objects' : Objects} {rest : List Task} {id : Nat} {row : MediaObjectRow}
    (hsnap : Snapshot s' id row) (hread : ∀ key sha256, MediaRowNames row key sha256 → σ.Names key sha256)
    (hfree : (Lock.deletion, id) ∉ rest.filterMap Task.lock) (hthere : There s' id fun r => r.gcState = .deleting) :
    Next σ rest s' objects' [finishDelete id row] := by
  have hlock : ∀ l, some (Lock.deletion, id) = some l → l ∉ rest.filterMap Task.lock := by
    rintro l ⟨⟩
    exact hfree
  unfold finishDelete
  split
  · next hc =>
    simp only [Bool.and_eq_true] at hc
    refine .one (fun r hr => ?_) hlock ⟨hsnap, hc.1, hc.2, hthere⟩
    cases hr
    exact hread
  · refine .one (fun r hr => by simp [Task.read] at hr) hlock ⟨hsnap.lt, fun r hr => ?_⟩
    obtain ⟨r', hr', hd⟩ := hthere
    rw [hr] at hr'
    cases hr'
    exact hd

/-- A row no task has claimed is claimed for deletion, and its delete is to be finished. -/
theorem claim_keeps (hσ : σ.Kept) (hget : σ.tasks[i]? = some task) {id : Nat} {row : MediaObjectRow}
    (hread : task.read = some row) (hsnap : Snapshot σ.store id row) {g : MediaObjectRow → Bool}
    (hg : ∀ r, g r = true → r.gcState ≠ .deleting ∧ r.gcState ≠ .promoting) (now : Int)
    {held : Nat → Lock → Prop} {fresh : Option (String × String)} :
    Keeps σ held (σ.tasks.eraseIdx i) fresh
      (transact σ.store σ.objects (modifyMedia id g (·.setState now .deleting)) fun claimed =>
        if claimed then [finishDelete id row] else []) := by
  have hmove : ∀ r, σ.store.findMedia id = some r → g r = true → Moves (held id) r (r.setState now .deleting) := by
    intro r _ hgr
    obtain ⟨hd, hp⟩ := hg r hgr
    exact ⟨rfl, fun h => h, fun h => absurd h hd, fun h => absurd h hp, fun h => .inl ⟨h.1, .inr rfl⟩⟩
  have hstep : Step held σ.store (σ.store.modifyMedia id g (·.setState now .deleting)) :=
    ⟨Nat.le_refl _, fun k _ => rowMoves_modify (f := (·.setState now .deleting)) (fun _ => rfl) hmove k⟩
  rw [transact_modifyMedia]
  refine keeps_setState hσ hmove (fun r hr _ => ?_) ?_
  · exact (hσ.rows r (Store.findMedia_mem hr).1).withdrawn now (by simp) (.inl rfl)
  · split
    · next hit =>
      obtain ⟨r, hr, hgr⟩ := (hσ.sound.store.valid.any_media).1 hit
      obtain ⟨hmem, rfl⟩ := Store.findMedia_mem hr
      refine finishDelete_next (hstep.snapshot hsnap) (fun key sha256 hn => .read (List.mem_of_getElem? hget) hread hn)
        (hσ.rest_free hget (.inr (hσ.unlocked hmem (hg r hgr).1))) ?_
      exact ⟨_, Store.findMedia_modifyMedia_self (f := (·.setState now .deleting)) (fun _ => rfl) hr hgr, rfl⟩
    · exact .nil

/-! ## The steps of an upload -/

theorem handleUploadConflict_next {s' : Store} {objects' : Objects} {rest : List Task} {u : Upload} {row : MediaObjectRow}
    (htemp : isTemp MediaConfig.s3Prefix u.tkey = true)
    (hrow : IfThere s' row.id fun r => r.sha256 = some u.sha256.value) :
    Next σ rest s' objects' (handleUploadConflict u row) := by
  unfold handleUploadConflict
  split
  · exact .plain rfl rfl ⟨htemp, hrow⟩
  · exact .plain rfl rfl htemp

theorem reserve_keeps (hσ : σ.Kept) (hget : σ.tasks[i]? = some (.reserve u)) (now : Int) (outcome : Outcome)
    {held : Nat → Lock → Prop} {fresh : Option (String × String)} :
    Keeps σ held (σ.tasks.eraseIdx i) fresh ((Task.reserve u).step now outcome σ.store σ.objects) := by
  have htemp : isTemp MediaConfig.s3Prefix u.tkey = true := hσ.fits _ (List.mem_of_getElem? hget)
  have hs := hσ.sound.store.valid
  simp only [Task.step, transact, reserveUpload_run]
  cases hfind : σ.store.findMediaBySha256 u.sha256.value with
  | some row =>
    have hmem : row ∈ σ.store.mediaObjects := List.mem_of_find?_eq_some hfind
    have hsha : row.sha256 = some u.sha256.value := by simpa using List.find?_some hfind
    refine keeps_insert hσ [] (by simp) (by simp) (by simp) (by simp) (handleUploadConflict_next htemp ?_)
    refine ⟨Nat.lt_succ_of_lt (hs.mediaId_lt row hmem), fun r hr => ?_⟩
    rw [show Store.findMedia { σ.store with nextId := σ.store.nextId + 1 } row.id = some row from
      hs.findMedia_iff.2 ⟨hmem, rfl⟩] at hr
    cases hr
    exact hsha
  | none =>
    refine keeps_insert hσ _ rfl (fun r hr => ?_) (fun r hr => ?_) (fun r hr key sha256 hn => ?_)
      (.one (fun r hr => by simp [Task.read] at hr) (fun l hl => ?_) ⟨htemp, Nat.lt_succ_self _, fun r hr => ?_⟩)
    · obtain rfl := List.mem_singleton.1 hr
      rfl
    · obtain rfl := List.mem_singleton.1 hr
      refine ⟨.inl ⟨u.sha256, rfl⟩, fun _ key hkey => ?_, fun _ key hkey => ?_⟩
      · simp [MediaHeader.row] at hkey
      · simp [MediaHeader.row] at hkey
    · obtain rfl := List.mem_singleton.1 hr
      simp [MediaRowNames, MediaHeader.row] at hn
    · cases hl
      refine hσ.rest_free hget (.inr fun hmem => ?_)
      obtain ⟨task, htask, hl⟩ := List.mem_filterMap.1 hmem
      exact absurd ((hσ.fits task htask).lock_lt hs hl) (Nat.lt_irrefl _)
    · obtain ⟨hmem, hid⟩ := Store.findMedia_mem hr
      rcases List.mem_append.1 hmem with hmem | hmem
      · have := hs.mediaId_lt r hmem
        omega
      · obtain rfl := List.mem_singleton.1 hmem
        exact ⟨rfl, rfl, .inl rfl⟩

/-- A copy to the final key goes through, or leaves every object as it was. -/
theorem copy_keeps (hσ : σ.Kept) (outcome : Outcome) (now : Int) {rest : List Task} {held : Nat → Lock → Prop}
    {fresh : Option (String × String)} {copied failed : List Task}
    (hcopied : ∀ objects' : Objects, objects'.has u.sha256.key = true → Next σ rest σ.store objects' copied)
    (hfailed : ∀ objects' : Objects, Next σ rest σ.store objects' failed) :
    Keeps σ held rest fresh
      (σ.store, (copyObject σ.objects now u.tkey (finalKey MediaConfig.s3Prefix u.sha256.value) outcome).1,
        if (copyObject σ.objects now u.tkey (finalKey MediaConfig.s3Prefix u.sha256.value) outcome).2 then copied
        else failed) := by
  refine keeps_stay hσ (fun _ => copyObject_mono _ _ _ _ _) ?_
  split
  · next h => exact hcopied _ (copyObject_has h)
  · exact hfailed _

/-- A storage delete leaves the object, or removes it. -/
theorem keeps_deleteStored (hσ : σ.Kept) {key : String} {outcome : Outcome} {rest : List Task}
    {held : Nat → Lock → Prop} {fresh : Option (String × String)} {next : List Task}
    (hdone : outcome = .done → Keeps σ held rest fresh (σ.store, σ.objects.delete key, next))
    (hnext : Next σ rest σ.store σ.objects next) :
    Keeps σ held rest fresh (σ.store, (deleteStored σ.objects key outcome).1, next) := by
  cases outcome with
  | done => exact hdone rfl
  | failed => exact keeps_stay hσ (fun _ h => h) hnext
  | torn => exact keeps_stay hσ (fun _ h => h) hnext

/-! ## Every step -/

theorem registerManaged_keeps (hσ : σ.Kept) {p : RegisterParams} {sha256 : Sha256Hex} {byteSize : Int} (now : Int)
    {outcome : Outcome} (hord : (Task.registerManaged p sha256 byteSize).Orderly σ outcome) {rest : List Task}
    {held : Nat → Lock → Prop} :
    ∃ fresh, (∀ key a, fresh = some (key, a) → ∀ b, σ.Names key b → b = a) ∧
      Keeps σ held rest fresh ((Task.registerManaged p sha256 byteSize).step now outcome σ.store σ.objects) := by
  have hs := hσ.sound.store.valid
  simp only [Task.step, transact, registerManagedTx_run _ hs]
  have hfresh : Store.registers σ.store sha256 → ∀ key a, some (p.storageUri, sha256.value) = some (key, a) →
      ∀ b, σ.Names key b → b = a := by
    rintro hreg key a ⟨⟩
    exact (hord hreg).2.2
  cases hfind : σ.store.findMediaBySha256 sha256.value with
  | none =>
    have hreg : Store.registers σ.store sha256 := by
      intro r hr
      rw [hfind] at hr
      cases hr
    refine ⟨some (p.storageUri, sha256.value), hfresh hreg, keeps_insert hσ _ rfl (fun r hr => ?_) (fun r hr => ?_)
      (fun r hr key a hn => .inr ?_) .nil⟩
    · obtain rfl := List.mem_singleton.1 hr
      rfl
    · obtain rfl := List.mem_singleton.1 hr
      exact RowKept.ofKey (show _ = some sha256.value from rfl) rfl (hord hreg).2.1 (hord hreg).1
    · obtain rfl := List.mem_singleton.1 hr
      obtain ⟨-, hkey, hsha⟩ := hn
      cases hkey
      cases hsha
      rfl
  | some row =>
    have hmem : row ∈ σ.store.mediaObjects := List.mem_of_find?_eq_some hfind
    have hsha : row.sha256 = some sha256.value := by simpa using List.find?_some hfind
    by_cases hstate : row.inStates [.deletedFailed, .unresolvable] = true
    · have hreg : Store.registers σ.store sha256 := by
        intro r hr
        rw [hfind] at hr
        cases hr
        exact hstate
      have hrow : ∀ r, σ.store.findMedia row.id = some r → r = row := by
        intro r hr
        rw [hs.findMedia_iff.2 ⟨hmem, rfl⟩] at hr
        cases hr
        rfl
      simp only [hstate, if_true]
      refine ⟨some (p.storageUri, sha256.value), hfresh hreg, keeps_modify
        (g := (·.inStates [.deletedFailed, .unresolvable]))
        (f := fun r => { r.confirmed now p.storageUri MediaConfig.backend (some byteSize) with
              gcState := if 0 < row.refCount then .active else .orphan })
        hσ rfl (Nat.le_succ _) (fun _ => rfl) (fun r _ hg => ?_) (fun r hr _ => ?_) (fun r hr _ key a hn => .inr ?_) .nil⟩
      · simp only [MediaObjectRow.inStates, List.mem_cons, List.not_mem_nil, or_false, decide_eq_true_eq] at hg
        refine ⟨rfl, fun _ => rfl, fun h => ?_, fun h => ?_, fun h => ?_⟩
        · rcases hg with hg | hg <;> simp [hg] at h
        · rcases hg with hg | hg <;> simp [hg] at h
        · rcases hg with hg | hg <;> simp [Unconfirmed, hg] at h
      · exact RowKept.ofKey (show _ = some sha256.value by rw [← hsha, hrow r hr]; rfl) rfl (hord hreg).2.1 (hord hreg).1
      · obtain ⟨-, hkey, ha⟩ := hn
        cases hkey
        have ha' : r.sha256 = some a := ha
        rw [hrow r hr, hsha] at ha'
        cases ha'
        rfl
    · simp only [hstate]
      exact ⟨none, by simp, keeps_insert hσ [] (by simp) (by simp) (by simp) (by simp) .nil⟩

/-- **An orderly step keeps it all.** -/
theorem Task.step_keeps (hσ : σ.Kept) (hget : σ.tasks[i]? = some task) (now : Int) {outcome : Outcome}
    (hord : task.Orderly σ outcome) :
    ∃ fresh, (∀ key a, fresh = some (key, a) → ∀ b, σ.Names key b → b = a) ∧
      Keeps σ task.holds (σ.tasks.eraseIdx i) fresh (task.step now outcome σ.store σ.objects) := by
  have hs := hσ.sound.store.valid
  have hfit := hσ.fits task (List.mem_of_getElem? hget)
  have hrest := List.eraseIdx_sublist σ.tasks i
  have own : ∀ {l : Lock × Nat}, task.lock = some l → l ∉ (σ.tasks.eraseIdx i).filterMap Task.lock :=
    fun h => hσ.rest_free hget (.inl h)
  -- Every task but a registration brings no key into use.
  have old : ∀ {stepped : Stepped}, Keeps σ task.holds (σ.tasks.eraseIdx i) none stepped →
      ∃ fresh, (∀ key a, fresh = some (key, a) → ∀ b, σ.Names key b → b = a) ∧
        Keeps σ task.holds (σ.tasks.eraseIdx i) fresh stepped := fun h => ⟨none, by simp, h⟩
  cases task with
  | putTemp u =>
    have hmono : ∀ object key, σ.objects.has key = true → (σ.objects.put u.tkey object).has key = true :=
      fun _ _ h => (Objects.has_put _ _ _ _).2 (.inl h)
    cases outcome with
    | done => exact old (keeps_stay hσ (hmono _) (.plain rfl rfl hfit))
    | failed => exact old (keeps_stay hσ (fun _ h => h) .nil)
    | torn => exact old (keeps_stay hσ (hmono _) .nil)
  | reserve u => exact old (reserve_keeps hσ hget now outcome)
  | copyFresh u id =>
    refine old (copy_keeps hσ outcome now (fun objects' hhas => ?_) fun objects' => ?_)
    · exact .one (fun r hr => by simp [Task.read] at hr) (fun l hl => own hl)
        ⟨hfit.1, hfit.2.1, fun r hr => ⟨hfit.2.2 r hr, hhas⟩⟩
    · exact .one (fun r hr => by simp [Task.read] at hr) (fun l hl => own hl) hfit
  | rollBack u id =>
    simp only [Task.step, transact_deleteIfUnreferenced]
    refine old (keeps_delete hσ (fun r hr hq => .inr ?_) (.plain rfl rfl hfit.1))
    simp only [Bool.and_eq_true, decide_eq_true_eq] at hq
    exact (hfit.2.2 r (hq.1 ▸ hr)).2
  | confirmFresh u id =>
    simp only [Task.step, confirmReservation, transact_modifyMedia]
    refine old (keeps_modify hσ rfl (Nat.le_refl _) (fun _ => rfl) (fun r hr hg => ?_) (fun r hr _ => ?_)
      (fun r hr _ key a hn => .inl ?_) ?_)
    · simp only [MediaObjectRow.inStates, List.mem_singleton, Bool.and_eq_true, decide_eq_true_eq] at hg
      exact ⟨rfl, fun _ => rfl, fun h => by simp [hg.1] at h, fun h => by simp [hg.1] at h, fun _ => .inr rfl⟩
    · obtain ⟨⟨hsha, -⟩, hhas⟩ := hfit.2.2 r hr
      exact .ofKey hsha rfl (isTemp_finalKey _ _) hhas
    · obtain ⟨-, hkey, ha⟩ := hn
      cases hkey
      have ha' : r.sha256 = some a := ha
      rw [(hfit.2.2 r hr).1.1] at ha'
      cases ha'
      exact .final u.sha256
    · split
      · exact .plain rfl rfl hfit.1
      · exact .nil
  | claimPromote u id =>
    simp only [Task.step, Conversation.claimPromote, transact_modifyMedia]
    have hmove : ∀ r, σ.store.findMedia id = some r → r.inStates [.deletedFailed, .unresolvable] = true →
        Moves (Task.holds (.claimPromote u id) id) r (r.setState now .promoting) := by
      intro r _ hg
      simp only [MediaObjectRow.inStates, List.mem_cons, List.not_mem_nil, or_false, decide_eq_true_eq] at hg
      refine ⟨rfl, fun h => h, fun h => ?_, fun h => ?_, fun h => ?_⟩
      · rcases hg with hg | hg <;> simp [hg] at h
      · rcases hg with hg | hg <;> simp [hg] at h
      · rcases hg with hg | hg <;> simp [Unconfirmed, hg] at h
    refine old (keeps_setState hσ hmove (fun r hr _ => ?_) ?_)
    · exact (hσ.rows r (Store.findMedia_mem hr).1).withdrawn now (by simp) (.inr (by simp [hfit.2.2 r hr]))
    · split
      · next hit =>
        obtain ⟨r, hr, hg⟩ := hs.any_media.1 hit
        obtain ⟨hmem, rfl⟩ := Store.findMedia_mem hr
        refine .one (fun r hr => by simp [Task.read] at hr) (fun l hl => ?_) ⟨hfit.1, _,
          Store.findMedia_modifyMedia_self (f := (·.setState now .promoting)) (fun _ => rfl) hr hg, hfit.2.2 r hr, rfl⟩
        cases hl
        refine hσ.rest_free hget (.inr (hσ.unlocked hmem fun hon => ?_))
        have hp : r.gcState = .promoting := hon
        simp [MediaObjectRow.inStates, hp] at hg
      · have hstep : Step (Task.holds (.claimPromote u id)) σ.store (σ.store.modifyMedia id
            (·.inStates [.deletedFailed, .unresolvable]) (·.setState now .promoting)) := ⟨Nat.le_refl _, fun k _ =>
          rowMoves_modify (f := (·.setState now .promoting))
            (g := (·.inStates [.deletedFailed, .unresolvable])) (fun _ => rfl) hmove k⟩
        exact .plain rfl rfl (hstep.fits hs (by simp [Task.lock]) hfit)
  | rereadPromote u id =>
    simp only [Task.step]
    split
    · exact old (keeps_stay hσ (fun _ h => h) .nil)
    · next row hrow =>
      obtain ⟨-, rfl⟩ := Store.findMedia_mem hrow
      exact old (keeps_stay hσ (fun _ h => h) (handleUploadConflict_next hfit.1 hfit.2))
  | copyPromote u id =>
    refine old (copy_keeps hσ outcome now (fun objects' hhas => ?_) fun objects' => .nil)
    exact .one (fun r hr => by simp [Task.read] at hr) (fun l hl => own hl) ⟨hfit.1, hfit.2, hhas⟩
  | readRefCount u id =>
    simp only [Task.step]
    split
    · exact old (keeps_stay hσ (fun _ h => h) .nil)
    · refine old (keeps_stay hσ (fun _ h => h) (.one (fun r hr => by simp [Task.read] at hr) (fun l hl => own hl) hfit))
  | confirmPromote u id gcState =>
    simp only [Task.step, Conversation.confirmPromote, transact_modifyMedia]
    obtain ⟨htemp, ⟨row, hrow, hsha, hpromoting⟩, hhas⟩ := hfit
    have hsame : ∀ r, σ.store.findMedia id = some r → r.sha256 = some u.sha256.value := by
      intro r hr
      rw [hrow] at hr
      cases hr
      exact hsha
    refine old (keeps_modify hσ rfl (Nat.le_refl _) (fun _ => rfl) (fun r hr hg => ?_) (fun r hr _ => ?_)
      (fun r hr _ key a hn => .inl ?_) ?_)
    · simp only [MediaObjectRow.inStates, List.mem_singleton, decide_eq_true_eq] at hg
      exact ⟨rfl, fun _ => rfl, fun h => by simp [hg] at h, fun _ => .inr rfl, fun h => by simp [Unconfirmed, hg] at h⟩
    · exact .ofKey (hsame r hr) rfl (isTemp_finalKey _ _) hhas
    · obtain ⟨-, hkey, ha⟩ := hn
      cases hkey
      have ha' : r.sha256 = some a := ha
      rw [hsame r hr] at ha'
      cases ha'
      exact .final u.sha256
    · split
      · exact .plain rfl rfl htemp
      · exact .nil
  | dropTemp key => exact old (keeps_deleteStored hσ (fun _ => keeps_dropTemp hσ hfit .nil) .nil)
  | headObject p sha256 byteSize =>
    simp only [Task.step]
    split
    · refine old (keeps_stay hσ (fun _ h => h) ?_)
      split
      · exact .plain rfl rfl trivial
      · exact .nil
    · exact old (keeps_stay hσ (fun _ h => h) .nil)
  | registerManaged p sha256 byteSize => exact registerManaged_keeps hσ now hord
  | registerUrl p =>
    refine old (keeps_insert hσ [p.mediaHeader.row now σ.store.nextId none .url (some p.storageUri) .orphan] rfl
      (fun r hr => ?_) (fun r hr => ?_) (fun r hr key a hn => ?_) .nil)
    · obtain rfl := List.mem_singleton.1 hr
      rfl
    · obtain rfl := List.mem_singleton.1 hr
      refine ⟨.inr ⟨rfl, rfl, rfl, .inr (.inl rfl)⟩, fun hm => ?_, fun ha => ?_⟩
      · simp [MediaHeader.row, Backend.managed] at hm
      · simp [MediaAvailable, MediaHeader.row, Backend.managed] at ha
    · obtain rfl := List.mem_singleton.1 hr
      simp [MediaRowNames, MediaHeader.row] at hn
  | readForDelete id =>
    simp only [Task.step]
    split
    · exact old (keeps_stay hσ (fun _ h => h) .nil)
    · next row hrow =>
      obtain ⟨hmem, hid⟩ := Store.findMedia_mem hrow
      split
      · exact old (keeps_stay hσ (fun _ h => h) .nil)
      · refine old (keeps_stay hσ (fun _ h => h) (.one (fun r hr => ?_) (fun l hl => by simp [Task.lock] at hl) ?_))
        · cases hr
          exact fun key a hn => .row hmem hn
        · refine ⟨hid ▸ hs.mediaId_lt row hmem, hid, (hσ.rows row hmem).shaped, fun r hr => ?_⟩
          rw [hrow] at hr
          cases hr
          exact ⟨rfl, fun h => h⟩
  | claimForDelete id row =>
    refine old (claim_keeps hσ hget rfl hfit (fun r hg => ?_) now)
    simp only [MediaObjectRow.inStates, List.mem_cons, List.not_mem_nil, or_false, Bool.and_eq_true,
      decide_eq_true_eq] at hg
    rcases hg.2 with h | h <;> simp [h]
  | deleteObject id row =>
    obtain ⟨hsnap, hmanaged, huri, r, hr, hdeleting⟩ := hfit
    obtain ⟨hmem, rfl⟩ := Store.findMedia_mem hr
    obtain ⟨sha, hsha⟩ := MediaObjectRow.sha_of_managed hsnap.shaped hmanaged
    obtain ⟨key, hkey⟩ := Option.isSome_iff_exists.1 huri
    obtain ⟨hsame, huri'⟩ := hsnap.same r hr
    have hlock : Task.lock (.deleteObject r.id row) = some (.deletion, r.id) := rfl
    have hnext : ∀ objects' : Objects, Next σ (σ.tasks.eraseIdx i) σ.store objects' [.deleteRow r.id] := fun objects' =>
      .one (fun r' hr' => by simp [Task.read] at hr') (fun l hl => own hl) ⟨hs.mediaId_lt r hmem, fun r' hr' => by
        rw [hr] at hr'
        cases hr'
        exact hdeleting⟩
    have hfailed : Next σ (σ.tasks.eraseIdx i) σ.store σ.objects [.markFailed r.id] :=
      .one (fun r' hr' => by simp [Task.read] at hr') (fun l hl => own hl) ⟨hs.mediaId_lt r hmem, fun r' hr' => by
        rw [hr] at hr'
        cases hr'
        exact ⟨hdeleting, huri' huri, by simp [hsame, hsha]⟩⟩
    cases outcome with
    | done =>
      refine old (keeps_dropKey hσ hrest hmem (hsame.trans hsha)
        (.read (List.mem_of_getElem? hget) rfl ⟨hmanaged, by simp [hkey], hsha⟩) (fun ha => ?_) (fun l hl => ?_) (hnext _))
      · rcases ha.2.2 with h | h <;> simp [hdeleting] at h
      · cases l with
        | reservation => exact absurd (hl.1 ▸ huri' huri) (by simp)
        | promotion => exact absurd (hdeleting.symm.trans (hl : r.gcState = .promoting)) (by simp)
        | deletion => exact .inl rfl
    | failed => exact old (keeps_stay hσ (fun _ h => h) hfailed)
    | torn => exact old (keeps_stay hσ (fun _ h => h) hfailed)
  | markFailed id =>
    simp only [Task.step, markDeleteFailed, transact_modifyMedia]
    refine old (keeps_setState hσ (fun r hr hg => ?_) (fun r hr _ => ?_) .nil)
    · obtain ⟨hdeleting, huri, -⟩ := hfit.2 r hr
      exact ⟨rfl, fun h => h, fun _ => .inr rfl, fun h => by simp [hdeleting] at h,
        fun h => absurd (h.1 ▸ huri) (by simp)⟩
    · exact (hσ.rows r (Store.findMedia_mem hr).1).withdrawn now (by simp) (.inr (hfit.2 r hr).2.2)
  | deleteRow id =>
    simp only [Task.step, transact, deleteRowTx_run hσ.sound.store hfit.2]
    refine old (keeps_delete hσ (fun r hr hq => .inl ?_) .nil)
    simp only [Bool.and_eq_true, decide_eq_true_eq] at hq
    obtain ⟨rfl, -⟩ := hq
    exact ⟨rfl, hfit.2 r hr⟩
  | claimThenFinish row =>
    refine old (claim_keeps hσ hget rfl hfit (fun r hg => ?_) now)
    simp only [MediaObjectRow.inStates, List.mem_cons, List.not_mem_nil, or_false, Bool.and_eq_true,
      decide_eq_true_eq] at hg
    rcases hg.2 with h | h <;> simp [h]
  | deleteReservationFinal row sha256 =>
    have hnext : ∀ objects' : Objects,
        Next σ (σ.tasks.eraseIdx i) σ.store objects' [.deleteReservationRow row] := fun objects' =>
      .one (fun r' hr' => by simp [Task.read] at hr') (fun l hl => own hl) ⟨hfit.1, fun r hr => (hfit.2 r hr).2⟩
    refine old (keeps_deleteStored hσ (fun hdone => ?_) (hnext _))
    obtain ⟨r, hr⟩ := Option.isSome_iff_exists.1 (hord hdone)
    obtain ⟨hsha, hunconfirmed⟩ := hfit.2 r hr
    obtain ⟨hmem, hid⟩ := Store.findMedia_mem hr
    have hnamed : σ.Names (finalKey MediaConfig.s3Prefix sha256) sha256 := by
      rcases (hσ.rows r hmem).shaped with ⟨sha, hsha'⟩ | ⟨hnone, -⟩
      · rw [hsha] at hsha'
        cases hsha'
        exact .final sha
      · simp [hnone] at hsha
    refine keeps_dropKey hσ hrest hmem hsha hnamed (fun ha => ?_) (fun l hl => ?_) (hnext _)
    · exact absurd (hunconfirmed.1 ▸ ha.2.1) (by simp)
    · cases l with
      | reservation => exact .inr (hid ▸ own rfl)
      | promotion =>
        have hp : r.gcState = .promoting := hl
        rcases hunconfirmed.2 with h | h <;> simp [hp] at h
      | deletion => exact .inl rfl
  | deleteReservationRow row =>
    simp only [Task.step, transact_deleteIfUnreferenced]
    refine old (keeps_delete hσ (fun r hr hq => .inr ?_) .nil)
    simp only [Bool.and_eq_true, decide_eq_true_eq] at hq
    exact hfit.2 r (hq.1 ▸ hr)
  | deletePromotingFinal row sha256 =>
    obtain ⟨r, hr, hsha, hpromoting, huri⟩ := hfit
    obtain ⟨hmem, hid⟩ := Store.findMedia_mem hr
    have hnext : ∀ objects' : Objects, Next σ (σ.tasks.eraseIdx i) σ.store objects' [.revertPromoting row] :=
      fun objects' => .one (fun r' hr' => by simp [Task.read] at hr') (fun l hl => own hl) ⟨r, hr, hpromoting⟩
    refine old (keeps_deleteStored hσ (fun _ => ?_) (hnext _))
    obtain ⟨sha, hsha'⟩ := MediaObjectRow.sha_of_promoting (hσ.rows r hmem).shaped hpromoting
    rw [hsha] at hsha'
    cases hsha'
    refine keeps_dropKey hσ hrest hmem hsha (.final sha) (fun ha => ?_) (fun l hl => ?_) (hnext _)
    · exact absurd (huri ▸ ha.2.1) (by simp)
    · cases l with
      | reservation => rcases hl.2 with h | h <;> simp [hpromoting] at h
      | promotion => exact .inr (hid ▸ own rfl)
      | deletion => exact .inl rfl
  | revertPromoting row =>
    simp only [Task.step, Conversation.revertPromoting, transact_modifyMedia]
    refine old (keeps_setState hσ (fun r hr hg => ?_) (fun r hr hg => ?_) .nil)
    · simp only [MediaObjectRow.inStates, List.mem_singleton, decide_eq_true_eq] at hg
      exact ⟨rfl, fun h => h, fun h => by simp [hg] at h, fun _ => .inr rfl, fun h => by simp [Unconfirmed, hg] at h⟩
    · simp only [MediaObjectRow.inStates, List.mem_singleton, decide_eq_true_eq] at hg
      have hkept := hσ.rows r (Store.findMedia_mem hr).1
      obtain ⟨sha, hsha⟩ := MediaObjectRow.sha_of_promoting hkept.shaped hg
      exact hkept.withdrawn now (by simp) (.inr (by simp [hsha]))
  | revertDeleting row =>
    simp only [Task.step, Conversation.revertDeleting, transact_modifyMedia]
    obtain ⟨row', hrow', hdeleting, huri⟩ := hfit
    refine old (keeps_setState hσ (fun r hr hg => ?_) (fun r hr _ => ?_) .nil)
    · rw [hrow'] at hr
      cases hr
      exact ⟨rfl, fun h => h, fun _ => .inr rfl, fun h => by simp [hdeleting] at h,
        fun h => absurd (h.1 ▸ huri) (by simp)⟩
    · have hkept := hσ.rows r (Store.findMedia_mem hr).1
      refine ⟨?_, hkept.lasting, fun ha => hord r hr ha.1⟩
      rcases hkept.shaped with h | ⟨hnone, hurl, hu, -⟩
      · exact .inl h
      · exact .inr ⟨hnone, hurl, hu, .inr (.inl rfl)⟩
  | reclaimFailed row =>
    refine old (claim_keeps hσ hget rfl hfit (fun r hg => ?_) now)
    simp only [MediaObjectRow.inStates, List.mem_singleton, Bool.and_eq_true, decide_eq_true_eq] at hg
    simp [hg.2]
  | reconcile d => exact hfit.elim
  | rereadReconciled id => exact hfit.elim
  | deleteTemp key => exact old (keeps_deleteStored hσ (fun _ => keeps_dropTemp hσ hfit .nil) .nil)

end MemoryStore.Media
