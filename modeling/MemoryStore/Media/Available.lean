/-
Available media has its bytes, over every run whose steps are orderly.
-/
import MemoryStore.Media.Counts
import MemoryStore.Media.StepKeeps

namespace MemoryStore.Media

open Conversation Table

section

variable [MediaConfig] {σ : System}

/-! ## Calls -/

theorem MediaStep.moves {claimed : Prop} {held : Lock → Prop} : ∀ {m m' : Option MediaObjectRow},
    MediaStep claimed m m' → RowMoves held m m'
  | none, none, _ => trivial
  | none, some _, h => h.elim
  | some _, none, h => h.elim
  | some r, some r', ⟨hsame, hclaimed, hkept⟩ => by
    have huri : r'.storageUri = r.storageUri := by rw [hsame]
    have hstate : r'.gcState = r.gcState ∨ r.gcState = .orphan ∧ (r'.gcState = .deleting ∨ r.storageUri.isSome) ∨
        r.gcState = .active := by
      by_cases hc : claimed
      · obtain ⟨ha | ho, hd, -⟩ := hclaimed hc
        · exact .inr (.inr ha)
        · exact .inr (.inl ⟨ho, .inl hd⟩)
      · rcases hkept hc with h | ⟨ho, hu, -⟩
        · exact .inl h
        · exact .inr (.inl ⟨ho, .inr hu⟩)
    refine ⟨by rw [hsame], fun h => huri ▸ h, fun h => ?_, fun h => ?_, fun h => .inl ⟨huri.trans h.1, ?_⟩⟩
    · rcases hstate with hs | ⟨ho, -⟩ | ha
      · exact .inl (hs.trans h)
      · simp [h] at ho
      · simp [h] at ha
    · rcases hstate with hs | ⟨ho, -⟩ | ha
      · exact .inl ⟨hs.trans h, huri⟩
      · simp [h] at ho
      · simp [h] at ha
    · rcases hstate with hs | ⟨-, hd | hu⟩ | ha
      · rw [hs]
        exact h.2
      · exact .inr hd
      · simp [h.1] at hu
      · rcases h.2 with hs | hs <;> simp [ha] at hs

/-- A row a call has linked or unlinked is handed out only if it was. -/
theorem RowKept.ofStep {objects : Objects} {claimed : Prop} {r r' : MediaObjectRow} (h : RowKept objects r)
    (hstep : MediaStep claimed (some r) (some r')) : RowKept objects r' := by
  obtain ⟨hsame, hclaimed, hkept⟩ := hstep
  have hsha : r'.sha256 = r.sha256 := by rw [hsame]
  have hbackend : r'.storageBackend = r.storageBackend := by rw [hsame]
  have huri : r'.storageUri = r.storageUri := by rw [hsame]
  refine ⟨?_, ?_, ?_⟩
  · rcases h.shaped with ⟨sha, hs⟩ | ⟨hnone, hurl, hu, hstate⟩
    · exact .inl ⟨sha, hsha.trans hs⟩
    · refine .inr ⟨hsha.trans hnone, hbackend.trans hurl, huri ▸ hu, ?_⟩
      by_cases hc : claimed
      · exact .inr (.inr (hclaimed hc).2.1)
      · rcases hkept hc with hs | ⟨-, -, ha⟩
        · rwa [hs]
        · exact .inl ha
  · rw [hbackend, huri]
    exact h.lasting
  · intro ha
    rw [huri]
    refine h.served ⟨hbackend ▸ ha.1, huri ▸ ha.2.1, ?_⟩
    by_cases hc : claimed
    · exact (hclaimed hc).1
    · rcases hkept hc with hs | ⟨ho, -⟩
      · rw [← hs]
        exact ha.2.2
      · exact .inr ho

/-- The transaction of a call, and the deletes it leaves to be finished. -/
theorem call_keeps (hσ : σ.Kept) {s' : Store} {p : Pending} (h : Midway σ.store p s') :
    Keeps σ (fun _ _ => False) σ.tasks none
      (s', σ.objects, p.jobs.map fun (mediaId, row) => finishDelete mediaId row) := by
  -- Where each row comes from.
  have hfrom : ∀ r' ∈ s'.mediaObjects, ∃ r ∈ σ.store.mediaObjects, r.id = r'.id ∧
      MediaStep (r'.id ∈ p.jobs.map Prod.fst) (some r) (some r') := by
    intro r' hr'
    have hstep := h.media r'.id
    rw [h.valid.findMedia_iff.2 ⟨hr', rfl⟩] at hstep
    cases hr : σ.store.findMedia r'.id with
    | none => rw [hr] at hstep; exact hstep.elim
    | some r =>
      rw [hr] at hstep
      obtain ⟨hmem, hid⟩ := Store.findMedia_mem hr
      exact ⟨r, hmem, hid, hstep⟩
  have hnames : ∀ r' ∈ s'.mediaObjects, ∀ key sha256, MediaRowNames r' key sha256 → σ.Names key sha256 := by
    intro r' hr' key sha256 hn
    obtain ⟨r, hr, -, hsame, -⟩ := hfrom r' hr'
    rw [hsame] at hn
    exact .row hr hn
  have hjob : ∀ job ∈ p.jobs,
      Next σ σ.tasks s' σ.objects [finishDelete job.1 job.2] := by
    intro job hjob
    obtain ⟨hmem, hid⟩ := Store.findMedia_mem (h.jobs job hjob)
    obtain ⟨r, hr, hrid, hstep⟩ := hfrom job.2 hmem
    have hclaim := hstep.2.1 (List.mem_map.2 ⟨job, hjob, hid.symm⟩)
    refine finishDelete_next ⟨hid ▸ h.valid.mediaId_lt job.2 hmem, hid, ((hσ.rows r hr).ofStep hstep).shaped, ?_⟩
      (hnames job.2 hmem) ?_ ⟨job.2, h.jobs job hjob, hclaim.2.1⟩
    · intro r' hr'
      rw [h.jobs job hjob] at hr'
      cases hr'
      exact ⟨rfl, fun hu => hu⟩
    · rw [← hid, ← hrid]
      refine hσ.unlocked hr fun hon => ?_
      have hd : r.gcState = .deleting := hon
      rcases hclaim.1 with hs | hs <;> simp [hd] at hs
  refine ⟨⟨h.later, fun k _ => MediaStep.moves (h.media k)⟩, fun r' hr' => ?_, fun _ _ _ _ _ _ _ hkey => hkey,
    fun r' hr' key sha256 hn => .inl (hnames r' hr' key sha256 hn), ?_⟩
  · obtain ⟨r, hr, -, hstep⟩ := hfrom r' hr'
    exact (hσ.rows r hr).ofStep hstep
  · have hlock : ∀ job : DeleteJob, (finishDelete job.1 job.2).lock = some (.deletion, job.1) := by
      intro job
      unfold finishDelete
      split <;> rfl
    have htasks : ∀ {task : Task}, task ∈ (p.jobs.map fun (mediaId, row) => finishDelete mediaId row) →
        ∃ job ∈ p.jobs, finishDelete job.1 job.2 = task := fun ht => List.mem_map.1 ht
    refine ⟨fun task ht => ?_, ?_, fun l hl => ?_, fun task ht => ?_⟩
    · obtain ⟨job, hj, rfl⟩ := htasks ht
      exact (hjob job hj).read _ (by simp)
    · rw [List.filterMap_map]
      have hmap : p.jobs.filterMap (Task.lock ∘ fun (mediaId, row) => finishDelete mediaId row) =
          (p.jobs.map Prod.fst).map fun id => (Lock.deletion, id) := by
        rw [List.map_map, ← List.filterMap_eq_map]
        exact List.filterMap_congr fun job _ => hlock job
      rw [hmap]
      exact h.once.map fun a b hab => (Prod.mk.inj hab).2
    · obtain ⟨task, ht, hlt⟩ := List.mem_filterMap.1 hl
      obtain ⟨job, hj, rfl⟩ := htasks ht
      exact (hjob job hj).free l (List.mem_filterMap.2 ⟨_, by simp, hlt⟩)
    · obtain ⟨job, hj, rfl⟩ := htasks ht
      exact (hjob job hj).fits _ (by simp)

/-! ## Every action -/

/-- The condition on an action: on a step, that of its task. -/
def Orderly (σ : System) : Action → Prop
  | .step i _ outcome =>
    match σ.tasks[i]? with
    | none => True
    | some task => task.Orderly σ outcome
  | _ => True

/-- No task works on a row, so none locks it. -/
theorem System.quiet_unlocked {id : Nat} (h : σ.quiet id = true) (l : Lock) : (l, id) ∉ σ.tasks.filterMap Task.lock := by
  intro hmem
  obtain ⟨task, htask, hl⟩ := List.mem_filterMap.1 hmem
  simp only [System.quiet, List.all_eq_true, decide_eq_true_eq] at h
  exact h task htask (Task.worksOn_of_lock hl)

/-- A sweep takes up a row of its scan. -/
theorem sweep_next (hσ : σ.Kept) {scan : Sweep} {before : Int} {row : MediaObjectRow}
    (h : σ.sweeps scan before row = true) : Next σ σ.tasks σ.store σ.objects [scan.task row] := by
  have hs := hσ.sound.store.valid
  simp only [System.sweeps, Bool.and_eq_true, decide_eq_true_eq] at h
  obtain ⟨hscan, hage⟩ := h
  have hmem : row ∈ σ.store.mediaObjects := by
    cases scan <;> exact (List.mem_filter.1 hscan).1
  have hlt := hs.mediaId_lt row hmem
  have hfind : σ.store.findMedia row.id = some row := hs.findMedia_iff.2 ⟨hmem, rfl⟩
  have hself : ∀ {P : MediaObjectRow → Prop}, P row → ∀ r, σ.store.findMedia row.id = some r → P r := by
    intro P hp r hr
    rw [hfind] at hr
    cases hr
    exact hp
  have hsnap : Snapshot σ.store row.id row := ⟨hlt, rfl, (hσ.rows row hmem).shaped, hself ⟨rfl, fun hu => hu⟩⟩
  have hquiet : scan.byAge = true → ∀ l, (l, row.id) ∉ σ.tasks.filterMap Task.lock := fun hb =>
    System.quiet_unlocked (by simpa [hb] using hage)
  cases scan with
  | confirmedOrphans =>
    exact .one (fun r hr key sha256 hn => by cases hr; exact .row hmem hn) (fun l hl => by simp [Sweep.task, Task.lock] at hl) hsnap
  | reservations =>
    obtain ⟨-, hstate⟩ := List.mem_filter.1 hscan
    simp only [Bool.and_eq_true, decide_eq_true_eq, Option.isNone_iff_eq_none] at hstate
    have hunconfirmed : Unconfirmed row := ⟨hstate.1.1.2, .inl hstate.1.1.1⟩
    have hlock : ∀ l, some (Lock.reservation, row.id) = some l → l ∉ σ.tasks.filterMap Task.lock := by
      rintro l ⟨⟩
      exact hquiet rfl _
    show Next σ σ.tasks σ.store σ.objects [reservationRecoveryPlan row]
    unfold reservationRecoveryPlan
    split
    · next sha256 husable =>
      have hsha : row.sha256 = some sha256 := (Option.filter_eq_some_iff.1 husable).1
      exact .one (fun r hr => by simp [Task.read] at hr) hlock ⟨hlt, hself ⟨hsha, hunconfirmed⟩⟩
    · exact .one (fun r hr => by simp [Task.read] at hr) hlock ⟨hlt, hself hunconfirmed⟩
  | promoting =>
    obtain ⟨-, hstate⟩ := List.mem_filter.1 hscan
    simp only [Bool.and_eq_true, decide_eq_true_eq, Option.isNone_iff_eq_none] at hstate
    have hlock : ∀ l, some (Lock.promotion, row.id) = some l → l ∉ σ.tasks.filterMap Task.lock := by
      rintro l ⟨⟩
      exact hquiet rfl _
    show Next σ σ.tasks σ.store σ.objects [promotingRecoveryPlan row]
    unfold promotingRecoveryPlan
    split
    · next sha256 husable =>
      have hsha : row.sha256 = some sha256 := (Option.filter_eq_some_iff.1 husable).1
      exact .one (fun r hr => by simp [Task.read] at hr) hlock ⟨row, hfind, hsha, hstate.1.1, hstate.1.2⟩
    · exact .one (fun r hr => by simp [Task.read] at hr) hlock ⟨row, hfind, hstate.1.1⟩
  | deleting =>
    obtain ⟨-, hstate⟩ := List.mem_filter.1 hscan
    simp only [Bool.and_eq_true, decide_eq_true_eq] at hstate
    refine .one (fun r hr => by simp [Sweep.task, Task.read] at hr) ?_ ⟨row, hfind, hstate.1.1, hstate.1.2⟩
    rintro l ⟨⟩
    exact hquiet rfl _
  | deletedFailed =>
    exact .one (fun r hr key sha256 hn => by cases hr; exact .row hmem hn) (fun l hl => by simp [Sweep.task, Task.lock] at hl) hsnap

/-- The checks of a register read no row, and lock none. -/
theorem registerTask_next (p : RegisterParams) {s' : Store} {objects' : Objects} {rest : List Task} :
    Next σ rest s' objects' (registerTask p) := by
  unfold registerTask
  split
  · exact .plain rfl rfl trivial
  all_goals
    repeat' split
    all_goals first
      | exact .plain rfl rfl trivial
      | exact .nil

/-- **An orderly action keeps it all.** -/
theorem Action.exec_kept [Deployment] (hσ : σ.Kept) {a : Action} (hord : Orderly σ a) : (a.exec σ).Kept := by
  have hsound := Action.exec_sound hσ.sound a
  -- An action beside the tasks: none of them is locked out.
  have hbeside : ∀ {stepped : Stepped}, Keeps σ (fun _ _ => False) σ.tasks none stepped →
      (System.become σ.tasks stepped).Sound → (System.become σ.tasks stepped).Kept := fun h hs =>
    h.kept hσ (List.Sublist.refl _) (fun _ _ _ _ _ hf => hf) (by simp) hs
  have hadd : ∀ {tasks : List Task}, Next σ σ.tasks σ.store σ.objects tasks →
      System.Sound { σ with tasks := σ.tasks ++ tasks } → System.Kept { σ with tasks := σ.tasks ++ tasks } := fun hn hs =>
    hbeside (keeps_stay hσ (fun _ h => h) hn) hs
  cases a with
  | call now op =>
    simp only [Action.exec, transact] at hsound ⊢
    cases hrun : op.tx now σ.store with
    | error e =>
      rw [hrun] at hsound
      exact hbeside (keeps_stay hσ (fun _ h => h) .nil) hsound
    | ok r =>
      rw [hrun] at hsound
      obtain ⟨p, hmid, hc⟩ := (op.tx_spec hσ.sound.store now).ok hrun
      have hkeeps := call_keeps hσ hmid
      rw [hc.jobs] at hkeeps
      exact hbeside hkeeps hsound
  | upload header sha256 byteCount =>
    exact hbeside (keeps_insert hσ [] (by simp) (by simp) (by simp) (by simp)
      (.plain rfl rfl (isTemp_tempKey _ _))) hsound
  | putExternally now key byteSize =>
    have hkeeps : Keeps σ (fun _ _ => False) σ.tasks none (σ.store, σ.objects.put key ⟨byteSize, now⟩, []) :=
      keeps_stay hσ (fun _ h => (Objects.has_put _ _ _ _).2 (.inl h)) .nil
    have := hbeside hkeeps (by simpa [System.become, Action.exec] using hsound)
    simpa [System.become, Action.exec] using this
  | register p => exact hadd (registerTask_next p) hsound
  | delete id => exact hadd (.plain rfl rfl trivial) hsound
  | insertUnresolvable now header sha256 =>
    refine hbeside ?_ hsound
    simp only [transact, insertUnresolvable_run]
    cases hfind : σ.store.findMediaBySha256 sha256.value with
    | some row => exact keeps_insert hσ [] (by simp) (by simp) (by simp) (by simp) .nil
    | none =>
      refine keeps_insert hσ _ rfl (fun r hr => ?_) (fun r hr => ?_) (fun r hr key a hn => ?_) .nil
      · obtain rfl := List.mem_singleton.1 hr
        rfl
      · obtain rfl := List.mem_singleton.1 hr
        refine ⟨.inl ⟨sha256, rfl⟩, fun _ key hkey => ?_, fun _ key hkey => ?_⟩
        · simp [MediaHeader.row] at hkey
        · simp [MediaHeader.row] at hkey
      · obtain rfl := List.mem_singleton.1 hr
        simp [MediaRowNames, MediaHeader.row] at hn
  | sweep scan before row =>
    simp only [Action.exec] at hsound ⊢
    split
    · next h =>
      rw [if_pos h] at hsound
      exact hadd (sweep_next hσ h) hsound
    · exact hσ
  | sweepRefCountDesync d =>
    simp only [Action.exec]
    rw [listRefCountDesync_nil hσ.sound.store, if_neg (by simp)]
    exact hσ
  | sweepTempResidue now graceSec key =>
    simp only [Action.exec] at hsound ⊢
    split
    · next h =>
      rw [if_pos h] at hsound
      refine hadd (.plain rfl rfl ?_) hsound
      obtain ⟨entry, hentry, rfl⟩ := List.mem_map.1 h
      have := (List.mem_filter.1 hentry).2
      simp only [Bool.and_eq_true] at this
      exact this.1
    · exact hσ
  | step i now outcome =>
    simp only [Action.exec] at hsound ⊢
    cases hget : σ.tasks[i]? with
    | none => exact hσ
    | some task =>
      rw [hget] at hsound
      have hord' : task.Orderly σ outcome := by simpa [Orderly, hget] using hord
      obtain ⟨fresh, hfresh, hkeeps⟩ := Task.step_keeps hσ hget now hord'
      refine hkeeps.kept hσ (List.eraseIdx_sublist _ _) (fun t ht l id hl hheld => ?_) hfresh hsound
      exact hσ.exclusive.other hget hheld (List.mem_filterMap.2 ⟨t, ht, hl⟩)
  | crash i =>
    have hkeeps : Keeps σ (fun _ _ => False) (σ.tasks.eraseIdx i) none (σ.store, σ.objects, []) :=
      keeps_stay hσ (fun _ h => h) .nil
    have := hkeeps.kept hσ (List.eraseIdx_sublist _ _) (fun _ _ _ _ _ hf => hf) (by simp)
      (by simpa [System.become, Action.exec] using hsound)
    simpa [System.become, Action.exec] using this

/-! ## Every run -/

/-- Available media has its bytes: what would be handed out is in storage. -/
def AvailableHasBytes (σ : System) : Prop :=
  ∀ row ∈ σ.store.mediaObjects, MediaAvailable row → ∀ key, row.storageUri = some key → σ.objects.has key = true

end

/-- The row of the content uploaded below, claimed for deletion. -/
def claimedUpload : MediaObjectRow :=
  { id := 2, kind := 2, mediaType := "image/png", byteSize := some 1
    sha256 := some "0000000000000000000000000000000000000000000000000000000000000000"
    width := none, height := none, durationMs := none, storageBackend := .file
    storageUri := some "memories/00/00/0000000000000000000000000000000000000000000000000000000000000000"
    alt := none, refCount := 0, gcState := .deleting, createdAt := 0, updatedAt := 0 }

/-- A content is uploaded and deleted; the process dies between the delete of
the object and that of the row, and the next cleanup puts the row back. -/
def putBackWithoutBytes : List Action :=
  [.upload ⟨2, "image/png", none, none, none⟩
      ⟨"0000000000000000000000000000000000000000000000000000000000000000", isSha256Hex_zeros⟩ 1,
    .step 0 0 .done, .step 0 0 .done, .step 0 0 .done, .step 0 0 .done, .step 0 0 .done,
    .delete 2, .step 0 0 .done, .step 0 0 .done, .step 0 0 .done, .crash 0,
    .sweep .deleting 1 claimedUpload, .step 0 1 .done]

end MemoryStore.Media
