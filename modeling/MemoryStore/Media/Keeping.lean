/-
What the media protocol keeps: every row that may be handed out has its object,
a storage key is used for one content, and no two tasks hold one lock. A step
is shown to keep all of it by what it does to the rows, to the objects and to
its own task; the tasks it leaves alone are `Step.fits`.
-/
import MemoryStore.Media.Lock

namespace MemoryStore.Media

open Conversation Table

variable [MediaConfig] {σ : System}

/-! ## What is kept -/

/-- A row with a key, for a content. -/
def MediaRowNames (r : MediaObjectRow) (key sha256 : String) : Prop :=
  r.storageBackend.managed = true ∧ r.storageUri = some key ∧ r.sha256 = some sha256

/-- The row a task has read, and may go on to delete the object of. -/
def Task.read : Task → Option MediaObjectRow
  | claimForDelete _ row | deleteObject _ row | claimThenFinish row | reclaimFailed row => some row
  | _ => none

/-- The server uses a key for a content: a row has it, a task has read it, or it is the final key. -/
inductive System.Names (σ : System) : String → String → Prop where
  | row {r : MediaObjectRow} {key sha256 : String} : r ∈ σ.store.mediaObjects → MediaRowNames r key sha256 →
      Names σ key sha256
  | read {task : Task} {r : MediaObjectRow} {key sha256 : String} : task ∈ σ.tasks → task.read = some r →
      MediaRowNames r key sha256 → Names σ key sha256
  | final (sha256 : Sha256Hex) : Names σ sha256.key sha256.value

/-- What Resolve hands out, and what an Upload or a Register of the same content is answered with. -/
def MediaAvailable (r : MediaObjectRow) : Prop :=
  r.storageBackend.managed = true ∧ r.storageUri.isSome ∧ (r.gcState = .active ∨ r.gcState = .orphan)

structure RowKept (objects : Objects) (r : MediaObjectRow) : Prop where
  shaped : HashOrUrl r
  lasting : r.storageBackend.managed = true → ∀ key, r.storageUri = some key → isTemp MediaConfig.s3Prefix key = false
  served : MediaAvailable r → ∀ key, r.storageUri = some key → objects.has key = true

structure System.Kept (σ : System) : Prop where
  sound : σ.Sound
  rows : ∀ r ∈ σ.store.mediaObjects, RowKept σ.objects r
  keys : ∀ key a b, σ.Names key a → σ.Names key b → a = b
  exclusive : Exclusive σ.tasks
  fits : ∀ task ∈ σ.tasks, task.Fits σ.store σ.objects

theorem System.kept_new : System.new.Kept where
  sound := sound_new
  rows r hr := by simp [System.new, Store.empty] at hr
  keys key a b ha hb := by
    have hfinal : ∀ {c : String}, System.new.Names key c → ∃ sha : Sha256Hex, key = sha.key ∧ c = sha.value := by
      intro c hc
      cases hc with
      | row hr _ => simp [System.new, Store.empty] at hr
      | read ht _ _ => simp [System.new] at ht
      | final sha => exact ⟨sha, rfl, rfl⟩
    obtain ⟨sha, hkey, rfl⟩ := hfinal ha
    obtain ⟨sha', hkey', rfl⟩ := hfinal hb
    exact finalKey_injective (hkey.symm.trans hkey')
  exclusive := List.nodup_nil
  fits task ht := by simp [System.new] at ht

/-- Two rows with one key are one row. -/
theorem System.Kept.row_eq (hσ : σ.Kept) {r r' : MediaObjectRow} {key : String} (hr : r ∈ σ.store.mediaObjects)
    (hr' : r' ∈ σ.store.mediaObjects) {a b : String} (ha : r.sha256 = some a) (hb : r'.sha256 = some b)
    (hna : σ.Names key a) (hnb : σ.Names key b) : r = r' := by
  obtain rfl := hσ.keys key a b hna hnb
  exact hσ.sound.store.valid.sha256.eq hr (by simp [ha]) hr' (by simp [hb]) (ha.trans hb.symm)

/-- A lock that does not fit its row is nobody's. -/
theorem System.Kept.unlocked (hσ : σ.Kept) {l : Lock} {r : MediaObjectRow} (hr : r ∈ σ.store.mediaObjects)
    (hn : ¬l.On r) : (l, r.id) ∉ σ.tasks.filterMap Task.lock := by
  intro hmem
  obtain ⟨task, htask, hl⟩ := List.mem_filterMap.1 hmem
  exact hn ((hσ.fits task htask).locked hl (hσ.sound.store.valid.findMedia_iff.2 ⟨hr, rfl⟩))

/-! ## A step that keeps it -/

/-- What a step leaves to its task, beside the tasks left alone. -/
structure Next (σ : System) (rest : List Task) (s' : Store) (objects' : Objects) (next : List Task) : Prop where
  read : ∀ task ∈ next, ∀ r, task.read = some r → ∀ key sha256, MediaRowNames r key sha256 → σ.Names key sha256
  locks : (next.filterMap Task.lock).Nodup
  free : ∀ l ∈ next.filterMap Task.lock, l ∉ rest.filterMap Task.lock
  fits : ∀ task ∈ next, task.Fits s' objects'

/-- What a step does to the rows and objects, and leaves to its task, if the
tasks left alone are `rest` and it brings a key `fresh` into use. -/
structure Keeps (σ : System) (held : Nat → Lock → Prop) (rest : List Task) (fresh : Option (String × String))
    (stepped : Stepped) : Prop where
  store : Step held σ.store stepped.1
  rows : ∀ r ∈ stepped.1.mediaObjects, RowKept stepped.2.1 r
  spares : ∀ task ∈ rest, ∀ id key, task.target = some (id, key) → ∀ r, stepped.1.findMedia id = some r →
    σ.objects.has key = true → stepped.2.1.has key = true
  names : ∀ r ∈ stepped.1.mediaObjects, ∀ key sha256, MediaRowNames r key sha256 →
    σ.Names key sha256 ∨ fresh = some (key, sha256)
  next : Next σ rest stepped.1 stepped.2.1 stepped.2.2

variable {held : Nat → Lock → Prop} {rest : List Task} {fresh : Option (String × String)}

/-- **What keeps each part keeps the whole.** -/
theorem Keeps.kept {stepped : Stepped} (h : Keeps σ held rest fresh stepped) (hσ : σ.Kept)
    (hrest : rest.Sublist σ.tasks) (hfree : ∀ task ∈ rest, ∀ l id, task.lock = some (l, id) → ¬held id l)
    (hfresh : ∀ key a, fresh = some (key, a) → ∀ b, σ.Names key b → b = a)
    (hsound : (System.become rest stepped).Sound) : (System.become rest stepped).Kept where
  sound := hsound
  rows := h.rows
  keys key a b ha hb := by
    have hback : ∀ {c : String}, (System.become rest stepped).Names key c → σ.Names key c ∨ fresh = some (key, c) := by
      intro c hc
      cases hc with
      | row hr hn => exact h.names _ hr key c hn
      | read ht hread hn =>
        rcases List.mem_append.1 ht with ht | ht
        · exact .inl (.read (hrest.subset ht) hread hn)
        · exact .inl (h.next.read _ ht _ hread key c hn)
      | final sha => exact .inl (.final sha)
    rcases hback ha with ha | ha
    · rcases hback hb with hb | hb
      · exact hσ.keys key a b ha hb
      · exact hfresh key b hb a ha
    · rcases hback hb with hb | hb
      · exact (hfresh key a ha b hb).symm
      · rw [ha] at hb
        simpa using hb
  exclusive := by
    show (List.filterMap Task.lock (rest ++ stepped.2.2)).Nodup
    rw [List.filterMap_append, List.nodup_append]
    refine ⟨hσ.exclusive.sublist (hrest.filterMap Task.lock), h.next.locks, ?_⟩
    rintro l hl l' hl' rfl
    exact h.next.free l hl' hl
  fits task ht := by
    rcases List.mem_append.1 ht with ht | ht
    · have hfit := h.store.fits hσ.sound.store.valid (hfree task ht) (hσ.fits task (hrest.subset ht))
      exact hfit.objects (h.spares task ht)
    · exact h.next.fits task ht

/-! ## The kinds of step -/

theorem Next.nil {s' : Store} {objects' : Objects} : Next σ rest s' objects' [] where
  read task h := by simp at h
  locks := List.nodup_nil
  free l h := by simp at h
  fits task h := by simp at h

theorem Next.one {s' : Store} {objects' : Objects} {task : Task}
    (hread : ∀ r, task.read = some r → ∀ key sha256, MediaRowNames r key sha256 → σ.Names key sha256)
    (hlock : ∀ l, task.lock = some l → l ∉ rest.filterMap Task.lock) (hfit : task.Fits s' objects') :
    Next σ rest s' objects' [task] where
  read t h := by
    obtain rfl := List.mem_singleton.1 h
    exact hread
  locks := by cases hl : task.lock <;> simp [hl]
  free l h := by
    simp only [List.filterMap_cons, List.filterMap_nil] at h
    split at h
    · simp at h
    · next l' hl =>
      obtain rfl := List.mem_singleton.1 h
      exact hlock l hl
  fits t h := by
    obtain rfl := List.mem_singleton.1 h
    exact hfit

/-- A task that has read nothing, and locks nothing. -/
theorem Next.plain {s' : Store} {objects' : Objects} {task : Task} (hread : task.read = none) (hlock : task.lock = none)
    (hfit : task.Fits s' objects') : Next σ rest s' objects' [task] :=
  .one (fun r hr => by simp [hread] at hr) (fun l hl => by simp [hlock] at hl) hfit

/-- An object is the same, or there is one more. -/
theorem RowKept.mono {objects objects' : Objects} {r : MediaObjectRow} (h : RowKept objects r)
    (hmono : ∀ key, objects.has key = true → objects'.has key = true) : RowKept objects' r :=
  { h with served := fun ha key hkey => hmono key (h.served ha key hkey) }

/-- The rows are left as they are, and every object. -/
theorem keeps_stay (hσ : σ.Kept) {objects' : Objects} {next : List Task}
    (hmono : ∀ key, σ.objects.has key = true → objects'.has key = true)
    (hnext : Next σ rest σ.store objects' next) : Keeps σ held rest fresh (σ.store, objects', next) where
  store := Step.refl _ _
  rows r hr := (hσ.rows r hr).mono hmono
  spares _ _ _ key _ _ _ hkey := hmono key hkey
  names _ hr _ _ hn := .inl (.row hr hn)
  next := hnext

/-- An object is deleted that no row is handed out for, and nothing is about to confirm. -/
theorem keeps_drop (hσ : σ.Kept) {key : String} {next : List Task}
    (hserved : ∀ r ∈ σ.store.mediaObjects, MediaAvailable r → r.storageUri ≠ some key)
    (hspare : ∀ task ∈ rest, ∀ id k, task.target = some (id, k) → ∀ r, σ.store.findMedia id = some r → k ≠ key)
    (hnext : Next σ rest σ.store (σ.objects.delete key) next) :
    Keeps σ held rest fresh (σ.store, σ.objects.delete key, next) where
  store := Step.refl _ _
  rows r hr := { hσ.rows r hr with
    served := fun ha k hk => by
      refine (Objects.has_delete _ _ _).2 ⟨(hσ.rows r hr).served ha k hk, ?_⟩
      rintro rfl
      exact hserved r hr ha hk }
  spares task ht id k htarget r hr hk := (Objects.has_delete _ _ _).2 ⟨hk, hspare task ht id k htarget r hr⟩
  names _ hr _ _ hn := .inl (.row hr hn)
  next := hnext

/-- A temp object is deleted. -/
theorem keeps_dropTemp (hσ : σ.Kept) {key : String} {next : List Task}
    (hkey : isTemp MediaConfig.s3Prefix key = true)
    (hnext : Next σ rest σ.store (σ.objects.delete key) next) :
    Keeps σ held rest fresh (σ.store, σ.objects.delete key, next) := by
  refine keeps_drop hσ (fun r hr ha hu => ?_) (fun task _ id k htarget r _ he => ?_) hnext
  · rw [(hσ.rows r hr).lasting ha.1 key hu] at hkey
    simp at hkey
  · have hfinal : ∃ sha : Sha256Hex, k = sha.key := by
      cases task <;> simp only [Task.target, reduceCtorEq, Option.some.injEq, Prod.mk.injEq] at htarget <;>
        exact ⟨_, htarget.2.symm⟩
    obtain ⟨sha, rfl⟩ := hfinal
    rw [← he, Sha256Hex.key, isTemp_finalKey] at hkey
    simp at hkey

/-- One row is changed. -/
theorem keeps_modify (hσ : σ.Kept) {id : Nat} {g : MediaObjectRow → Bool} {f : MediaObjectRow → MediaObjectRow}
    {s' : Store} {next : List Task} (hs' : s'.mediaObjects = (σ.store.modifyMedia id g f).mediaObjects)
    (hlater : σ.store.nextId ≤ s'.nextId) (hid : ∀ row, (f row).id = row.id)
    (hmove : ∀ r, σ.store.findMedia id = some r → g r = true → Moves (held id) r (f r))
    (hrow : ∀ r, σ.store.findMedia id = some r → g r = true → RowKept σ.objects (f r))
    (hnames : ∀ r, σ.store.findMedia id = some r → g r = true → ∀ key sha256, MediaRowNames (f r) key sha256 →
      σ.Names key sha256 ∨ fresh = some (key, sha256))
    (hnext : Next σ rest s' σ.objects next) : Keeps σ held rest fresh (s', σ.objects, next) := by
  have hfind : ∀ k, s'.findMedia k = (σ.store.modifyMedia id g f).findMedia k := fun k => by
    simp only [Store.findMedia, hs']
  have hback : ∀ r' ∈ s'.mediaObjects, r' ∈ σ.store.mediaObjects ∨
      ∃ r, σ.store.findMedia id = some r ∧ g r = true ∧ f r = r' := by
    intro r' hr'
    rw [hs'] at hr'
    obtain ⟨r, hr, rfl⟩ := mem_modifyWhere.1 hr'
    split
    · next hg =>
      simp only [Bool.and_eq_true, decide_eq_true_eq] at hg
      exact .inr ⟨r, hσ.sound.store.valid.findMedia_iff.2 ⟨hr, hg.1⟩, hg.2, rfl⟩
    · exact .inl hr
  refine ⟨⟨hlater, fun k _ => ?_⟩, fun r' hr' => ?_, fun _ _ _ _ _ _ _ hkey => hkey, fun r' hr' key sha256 hn => ?_,
    hnext⟩
  · rw [hfind]
    exact rowMoves_modify hid hmove k
  · rcases hback r' hr' with hr | ⟨r, hr, hg, rfl⟩
    · exact hσ.rows r' hr
    · exact hrow r hr hg
  · rcases hback r' hr' with hr | ⟨r, hr, hg, rfl⟩
    · exact .inl (.row hr hn)
    · exact hnames r hr hg key sha256 hn

/-- A row is taken to a state it is not handed out in, or handed out as it was. -/
theorem keeps_setState (hσ : σ.Kept) {id : Nat} {g : MediaObjectRow → Bool} {now : Int} {gcState : GcState}
    {next : List Task}
    (hmove : ∀ r, σ.store.findMedia id = some r → g r = true → Moves (held id) r (r.setState now gcState))
    (hrow : ∀ r, σ.store.findMedia id = some r → g r = true → RowKept σ.objects (r.setState now gcState))
    (hnext : Next σ rest (σ.store.modifyMedia id g (·.setState now gcState)) σ.objects next) :
    Keeps σ held rest fresh (σ.store.modifyMedia id g (·.setState now gcState), σ.objects, next) :=
  keeps_modify (g := g) hσ (f := (·.setState now gcState)) rfl (Nat.le_refl _) (fun _ => rfl) hmove hrow
    (fun _ hr _ _ _ hn => .inl (.row (Store.findMedia_mem hr).1 hn)) hnext

/-- Rows are deleted. -/
theorem keeps_delete (hσ : σ.Kept) {q : MediaObjectRow → Bool} {next : List Task}
    (hq : ∀ r, σ.store.findMedia r.id = some r → q r = true →
      (held r.id .deletion ∧ r.gcState = .deleting) ∨ Unconfirmed r)
    (hnext : Next σ rest (σ.store.deleteMedia q) σ.objects next) :
    Keeps σ held rest fresh (σ.store.deleteMedia q, σ.objects, next) where
  store := ⟨Nat.le_refl _, fun k _ => rowMoves_delete hσ.sound.store.valid hq k⟩
  rows r hr := hσ.rows r (List.mem_filter.1 hr).1
  spares _ _ _ _ _ _ _ hkey := hkey
  names _ hr _ _ hn := .inl (.row (List.mem_filter.1 hr).1 hn)
  next := hnext

/-- An id is drawn, and maybe rows inserted under it. -/
theorem keeps_insert (hσ : σ.Kept) {s' : Store} (rows : List MediaObjectRow) {next : List Task}
    (hs' : s' = { σ.store with nextId := σ.store.nextId + 1, mediaObjects := σ.store.mediaObjects ++ rows })
    (hid : ∀ r ∈ rows, r.id = σ.store.nextId) (hrow : ∀ r ∈ rows, RowKept σ.objects r)
    (hnames : ∀ r ∈ rows, ∀ key sha256, MediaRowNames r key sha256 → σ.Names key sha256 ∨ fresh = some (key, sha256))
    (hnext : Next σ rest s' σ.objects next) : Keeps σ held rest fresh (s', σ.objects, next) := by
  have hmem : ∀ r ∈ s'.mediaObjects, r ∈ σ.store.mediaObjects ∨ r ∈ rows := by
    intro r hr
    rw [hs'] at hr
    exact List.mem_append.1 hr
  refine ⟨⟨by rw [hs']; exact Nat.le_succ _, fun k hk => ?_⟩, fun r hr => ?_, fun _ _ _ _ _ _ _ hkey => hkey,
    fun r hr key sha256 hn => ?_, hnext⟩
  · have hsame : s'.findMedia k = σ.store.findMedia k := by
      have hnone : rows.find? (fun r => decide (r.id = k)) = none := by
        rw [List.find?_eq_none]
        intro r hr
        have := hid r hr
        simp only [decide_eq_true_eq]
        omega
      rw [hs']
      simp only [Store.findMedia, List.find?_append, hnone, Option.or_none]
    rw [hsame]
    exact RowMoves.refl _ _
  · rcases hmem r hr with hr | hr
    · exact hσ.rows r hr
    · exact hrow r hr
  · rcases hmem r hr with hr | hr
    · exact .inl (.row hr hn)
    · exact hnames r hr key sha256 hn

end MemoryStore.Media
