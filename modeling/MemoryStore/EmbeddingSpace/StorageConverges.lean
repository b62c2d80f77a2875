/-
Storage identifiers converge and detect substitution: from an unrecorded set any
number of interrupted runs and one that is not lead to a settled set, and in a
settled set a store of another installation is told from its own, since each
identifier is recorded in two of the three stores at least.
-/
import MemoryStore.EmbeddingSpace.StorageWrites

namespace MemoryStore.EmbeddingSpace

variable {newId : Nat → String} {dep : Deployment} {w w' : World} {labels : List String}

/-! ## Substitution -/

/-- A mismatch found is reported. -/
theorem check_error {drawn : Nat} {obs : StorageObservation} {m : Mismatch}
    (h : m ∈ (checkStores newId obs obs.stores (.start newId obs drawn)).mismatches) :
    ∃ ms, check newId drawn obs = .error ms ∧ m ∈ ms := by
  refine ⟨_, ?_, h⟩
  unfold check
  dsimp only
  rw [if_pos]
  rw [Bool.not_eq_true', ← Bool.not_eq_true, List.isEmpty_iff]
  exact List.ne_nil_of_mem h

/-- What one table leaves of what `check` carries: the mismatches, the state directory and the other tables' stores. -/
structure Carries (label : String) (c c' : CheckState) : Prop where
  mismatches : ∀ m ∈ c.mismatches, m ∈ c'.mismatches
  stateDirId : c'.state.stateDirId = c.state.stateDirId
  stores : ∀ l, l ≠ label → c'.state.vectorStores.lookup l = c.state.vectorStores.lookup l

theorem Carries.refl (label : String) (c : CheckState) : Carries label c c := ⟨fun _ h => h, rfl, fun _ _ => rfl⟩

theorem Carries.mismatch {label : String} {c c' : CheckState} (h : Carries label c c') (left right : String) :
    Carries label c (c'.mismatch left right) :=
  ⟨fun m hm => List.mem_append_left _ (h.mismatches m hm), h.stateDirId, h.stores⟩

theorem Carries.trans {label : String} {c c' c'' : CheckState} (h : Carries label c c') (h' : Carries label c' c'') :
    Carries label c c'' :=
  ⟨fun m hm => h'.mismatches m (h.mismatches m hm), h'.stateDirId.trans h.stateDirId,
    fun l hl => (h'.stores l hl).trans (h.stores l hl)⟩

theorem checkTable_carries (obs : StorageObservation) (c : CheckState) (s : StoreObservation) :
    Carries s.label c (checkTable obs c s) := by
  unfold checkTable
  dsimp only
  have h₁ : Carries s.label c (if s.tableRdbId.any (fun id => id ≠ obs.rdbId) then
      c.mismatch "rdb" ("vector:" ++ s.label) else c) := by
    split
    · exact (Carries.refl _ c).mismatch _ _
    · exact Carries.refl _ c
  generalize (if s.tableRdbId.any (fun id => id ≠ obs.rdbId) then c.mismatch "rdb" ("vector:" ++ s.label)
    else c) = c₁ at h₁
  have h₂ : Carries s.label c (if s.tableStateDirId.any (fun id => id ≠ c₁.state.stateDirId) then
      c₁.mismatch "state_dir" ("vector:" ++ s.label) else c₁) := by
    split
    · exact h₁.mismatch _ _
    · exact h₁
  generalize (if s.tableStateDirId.any (fun id => id ≠ c₁.state.stateDirId) then
    c₁.mismatch "state_dir" ("vector:" ++ s.label) else c₁) = c₂ at h₂
  split
  · exact ⟨h₂.mismatches, h₂.stateDirId, h₂.stores⟩
  · exact h₂

theorem assign_carries (c : CheckState) (label : String) (dir : PathBuf) (id : String) :
    Carries label c (c.assign label dir id) :=
  ⟨fun _ h => h, rfl, fun _ hl => Finmap.lookup_insert_of_ne _ hl⟩

theorem checkDir_carries (newId : Nat → String) (c : CheckState) (s : StoreObservation) : Carries s.label c (checkDir newId c s) := by
  unfold checkDir
  split
  · exact Carries.refl _ c
  · split
    · split
      · exact (Carries.refl _ c).mismatch _ _
      · exact assign_carries ..
    · exact (Carries.refl _ c).mismatch _ _
    · exact assign_carries ..
    · split
      · exact assign_carries ..
      · exact ⟨fun _ h => h, rfl, fun _ hl => Finmap.lookup_insert_of_ne _ hl⟩

theorem checkStores_carries (newId : Nat → String) (obs : StorageObservation) : ∀ (stores : List StoreObservation) (c : CheckState),
    (∀ m ∈ c.mismatches, m ∈ (checkStores newId obs stores c).mismatches) ∧
    (checkStores newId obs stores c).state.stateDirId = c.state.stateDirId ∧
    ∀ l, l ∉ stores.map StoreObservation.label →
      (checkStores newId obs stores c).state.vectorStores.lookup l = c.state.vectorStores.lookup l
  | [], c => ⟨fun _ h => h, rfl, fun _ _ => rfl⟩
  | s :: stores, c => by
    have hstep := (checkTable_carries obs c s).trans (checkDir_carries newId (checkTable obs c s) s)
    obtain ⟨hm, hsd, hl⟩ := checkStores_carries newId obs stores (checkDir newId (checkTable obs c s) s)
    refine ⟨fun m h => hm m (hstep.mismatches m h), hsd.trans hstep.stateDirId, fun l hnot => ?_⟩
    rw [List.map_cons, List.mem_cons, not_or] at hnot
    exact (hl l hnot.2).trans (hstep.stores l hnot.1)

/-- The turn of one table, at its place in the loop. -/
theorem checkStores_at (newId : Nat → String) {obs : StorageObservation} (drawn : Nat) (hn : (obs.stores.map StoreObservation.label).Nodup)
    {s : StoreObservation} (hs : s ∈ obs.stores) : ∃ c,
    c.state.stateDirId = (CheckState.start newId obs drawn).state.stateDirId ∧
    c.state.vectorStores.lookup s.label = (CheckState.start newId obs drawn).state.vectorStores.lookup s.label ∧
    ∀ m ∈ (checkDir newId (checkTable obs c s) s).mismatches,
      m ∈ (checkStores newId obs obs.stores (.start newId obs drawn)).mismatches := by
  obtain ⟨front, back, hsplit⟩ := List.append_of_mem hs
  rw [hsplit, List.map_append, List.map_cons, List.nodup_append] at hn
  have hfront : s.label ∉ front.map StoreObservation.label := fun h => hn.2.2 _ h s.label (List.mem_cons_self ..) rfl
  obtain ⟨-, hsd, hl⟩ := checkStores_carries newId obs front (.start newId obs drawn)
  refine ⟨checkStores newId obs front (.start newId obs drawn), hsd, hl _ hfront, fun m hm => ?_⟩
  have hall : checkStores newId obs obs.stores (.start newId obs drawn) = checkStores newId obs back
      (checkDir newId (checkTable obs (checkStores newId obs front (.start newId obs drawn)) s) s) := by
    rw [hsplit]
    unfold checkStores
    rw [List.foldl_append, List.foldl_cons]
  rw [hall]
  exact (checkStores_carries newId obs back _).1 m hm

/-- A state file of another RDB is reported. -/
theorem check_rdb_state (newId : Nat → String) (drawn : Nat) (obs : StorageObservation) {st : StateDirRecord} (hst : obs.state = some st)
    (hne : st.rdbId ≠ obs.rdbId) : ∃ ms, check newId drawn obs = .error ms ∧ ⟨"rdb", "state_dir"⟩ ∈ ms := by
  refine check_error ((checkStores_carries newId obs _ _).1 _ ?_)
  have hmis : (CheckState.start newId obs drawn).mismatches =
      if st.rdbId ≠ obs.rdbId then [⟨"rdb", "state_dir"⟩] else [] := by
    unfold CheckState.start
    rw [hst]
  rw [hmis, if_pos hne]
  exact List.mem_singleton_self _

/-- A directory without the identifier recorded is reported. -/
theorem check_foreign_dir (newId : Nat → String) (drawn : Nat) (obs : StorageObservation)
    (hn : (obs.stores.map StoreObservation.label).Nodup) (s : StoreObservation) (hs : s ∈ obs.stores) {st : StateDirRecord} (hst : obs.state = some st) {dir : PathBuf}
    (hdir : s.dir = some dir) {id : String} (hrec : st.vectorStores.lookup s.label = some id)
    (hid : s.dirId ≠ some id) :
    ∃ ms, check newId drawn obs = .error ms ∧ ⟨"state_dir", "vector:" ++ s.label⟩ ∈ ms := by
  obtain ⟨c, -, hl, hm⟩ := checkStores_at newId drawn hn hs
  refine check_error (hm _ ?_)
  have hstart : (CheckState.start newId obs drawn).state = st := by
    unfold CheckState.start
    rw [hst]
  have hlookup : (checkTable obs c s).state.vectorStores.lookup s.label = some id := by
    have hsame : (checkTable obs c s).state = c.state := by
      unfold checkTable CheckState.mismatch
      dsimp only
      split_ifs <;> rfl
    rw [hsame, hl, hstart, hrec]
  unfold checkDir
  rw [hdir]
  dsimp only
  rw [hlookup]
  cases hd : s.dirId with
  | none => exact List.mem_append_right _ (List.mem_singleton_self _)
  | some d =>
    dsimp only
    rw [if_pos fun h => hid (hd.trans (congrArg some h))]
    exact List.mem_append_right _ (List.mem_singleton_self _)

/-- A table of another state directory is reported. -/
theorem check_foreign_state (newId : Nat → String) (drawn : Nat) (obs : StorageObservation)
    (hn : (obs.stores.map StoreObservation.label).Nodup) (s : StoreObservation) (hs : s ∈ obs.stores) {id : String} (hid : s.tableStateDirId = some id)
    (hne : id ≠ (CheckState.start newId obs drawn).state.stateDirId) :
    ∃ ms, check newId drawn obs = .error ms ∧ ⟨"state_dir", "vector:" ++ s.label⟩ ∈ ms := by
  obtain ⟨c, hsd, -, hm⟩ := checkStores_at newId drawn hn hs
  refine check_error (hm _ ((checkDir_carries newId _ s).mismatches _ ?_))
  rw [← hsd] at hne
  have hany : s.tableStateDirId.any (fun id => id ≠ c.state.stateDirId) = true := by
    rw [hid]
    simpa using hne
  unfold checkTable
  dsimp only
  have hc : ∀ c' : CheckState, c'.state = c.state →
      ⟨"state_dir", "vector:" ++ s.label⟩ ∈ (if s.tableStateDirId.any (fun id => id ≠ c'.state.stateDirId) then
        c'.mismatch "state_dir" ("vector:" ++ s.label) else c').mismatches := by
    intro c' hc'
    rw [hc', if_pos hany]
    exact List.mem_append_right _ (List.mem_singleton_self _)
  have hstate : (if s.tableRdbId.any (fun id => id ≠ obs.rdbId) then c.mismatch "rdb" ("vector:" ++ s.label)
      else c).state = c.state := by
    split <;> rfl
  have h := hc _ hstate
  split
  · exact h
  · exact h

/-! ## Tables that name a directory by two paths -/

/-- A table's directory identifier is not the one recorded for it. -/
theorem Planning.recorded {c : CheckState} (hp : Planning newId dep w labels (startRecord newId w) labels c) {l : String}
    (hl : l ∈ labels) {dir : PathBuf} (hdir : dep.dirOf l = some dir) (hnone : w.idAt dep dir = none) :
    ∃ e ∈ c.dirIds, e.2.1 = dir ∧ c.state.vectorStores.lookup l = some e.2.2 := by
  obtain ⟨id, hid, ha⟩ := hp.known l hl dir hdir
  rcases hp.assigned dir id ha with hw | ⟨l', hl'⟩
  · rw [hnone] at hw
    cases hw
  · exact ⟨_, hl', rfl, hid⟩

theorem front_state (dep : Deployment) {c : CheckState} {state : Option StateDirRecord} (drawn : Nat)
    (hstate : state = some c.state ∨ (state = none ∧ w.state = some c.state)) :
    (({ w with drawn } : World).writeAll dep (frontWrites c state)).state = some c.state := by
  unfold frontWrites
  rw [writeAll_append]
  have hdirs : Dirs dep w c.dirIds (({ w with drawn } : World).writeAll dep (c.dirIds.map fun e => .dirId e.2.1 e.2.2)) :=
    Dirs.writeAll c.dirIds _ (fun e he => he) ⟨rfl, rfl, rfl, fun d => .inl rfl⟩
  rcases hstate with rfl | ⟨rfl, hw⟩
  · rfl
  · exact hdirs.state.trans hw

theorem writeTables_state (dep : Deployment) (rdbId sd : String) : ∀ (l : List String) (w : World),
    (w.writeAll dep (l.map fun label => .table label rdbId sd)).state = w.state
  | [], _ => rfl
  | label :: l, w => writeTables_state dep rdbId sd l (w.write dep (.table label rdbId sd))

/-- A run over tables that name a directory without identifier by two paths leaves a set the check refuses. -/
theorem two_paths_refused (hs : IdSupply newId) (hc : Consistent dep w) (hn : labels.Nodup)
    (htwo : ¬ OnePath dep labels w) : ∃ w', verifyAndRecord newId dep labels none w = (.ok (), w') ∧
      ∀ drawn, ∃ ms, check newId drawn (observe dep w' labels) = .error ms ∧ ms ≠ [] := by
  have hp := planning newId hc hn
  obtain ⟨state, hstate, hrun⟩ := verifyAndRecord_eq newId hc hn none
  rw [hrun]
  clear hrun
  generalize planned newId dep w labels = c at hp hstate
  refine ⟨_, rfl, fun drawn => ?_⟩
  unfold OnePath at htwo
  push_neg at htwo
  obtain ⟨l, hl, l', hl', dir, dir', hdir, hdir', hr, hnone, hne⟩ := htwo
  have hnone' : w.idAt dep dir' = none := by
    unfold World.idAt at hnone ⊢
    rw [← hr]
    exact hnone
  obtain ⟨e, he, hed, hrec⟩ := hp.recorded hl hdir hnone
  obtain ⟨e', he', hed', hrec'⟩ := hp.recorded hl' hdir' hnone'
  have hids : e.2.2 ≠ e'.2.2 := by
    intro heq
    obtain ⟨ns, hns, -, hmap⟩ := hp.ids
    have hnodup : (c.dirIds.map fun e => e.2.2).Nodup := hmap ▸ hns.map hs.injective
    have := List.inj_on_of_nodup_map hnodup he he' heq
    exact hne (by rw [← hed, ← hed', this])
  dsimp only
  rw [writeAll_append]
  have hfront := front_state dep c.drawn hstate
  generalize ({ w with drawn := c.drawn } : World).writeAll dep (frontWrites c state) = w₂ at hfront
  have hstate' : (w₂.writeAll dep (tableWrites w c)).state = some c.state :=
    (writeTables_state _ _ _ c.tables w₂).trans hfront
  generalize w₂.writeAll dep (tableWrites w c) = w' at hstate'
  have hlabels : ((observe dep w' labels).stores.map StoreObservation.label).Nodup := by
    have : (observe dep w' labels).stores.map StoreObservation.label = labels := by
      simp [observe, observeStore, Function.comp_def]
    rwa [this]
  have hsame : w'.idAt dep dir = w'.idAt dep dir' := by
    unfold World.idAt
    rw [hr]
  have hrefuse : ∀ (k : String) (d : PathBuf) (id : String), k ∈ labels → dep.dirOf k = some d →
      c.state.vectorStores.lookup k = some id → w'.idAt dep d ≠ some id →
      ∃ ms, check newId drawn (observe dep w' labels) = .error ms ∧ ms ≠ [] := by
    intro k d id hk hd hlookup hid
    obtain ⟨ms, hms, hmem⟩ := check_foreign_dir newId drawn (observe dep w' labels) hlabels
      (observeStore dep w' k) (List.mem_map_of_mem hk) hstate' hd hlookup
      (by simpa [observeStore, hd, World.idAt] using hid)
    exact ⟨ms, hms, List.ne_nil_of_mem hmem⟩
  by_cases h : w'.idAt dep dir = some e.2.2
  · exact hrefuse l' dir' e'.2.2 hl' hdir' hrec' (by rw [← hsame, h]; simpa using hids)
  · exact hrefuse l dir e.2.2 hl hdir hrec h

/-! ## Runs -/

/-- One start over some of the tables, interrupted after some of its writes or not. -/
structure Attempt where
  labels : List String
  stop : Option Nat

def Attempt.exec (newId : Nat → String) (dep : Deployment) (a : Attempt) (w : World) : World :=
  (verifyAndRecord newId dep a.labels a.stop w).2

/-- A start whose tables name each directory without identifier by one path. -/
def Attempt.Allowed (dep : Deployment) (w : World) (a : Attempt) : Prop := a.labels.Nodup ∧ OnePath dep a.labels w

/-- The sets an installation reaches from an unrecorded one. -/
def Installed (newId : Nat → String) (dep : Deployment) (w : World) : Prop :=
  ∃ w₀, Unrecorded w₀ ∧ Run.Reaches (Attempt.exec newId dep) (Attempt.Allowed dep) w₀ w

theorem Installed.sound (hs : IdSupply newId) (h : Installed newId dep w) : Consistent dep w ∧ Drawn newId w := by
  obtain ⟨w₀, h₀, hr⟩ := h
  refine hr.invariant (I := fun w => Consistent dep w ∧ Drawn newId w) ?_ ⟨h₀.consistent, ?_⟩
  · rintro w a ⟨hc, hd⟩ ⟨hn, hone⟩
    obtain ⟨w', hrun, hc', hd', -⟩ := verifyAndRecord_consistent hs hc hd hn hone a.stop
    unfold Attempt.exec
    rw [hrun]
    exact ⟨hc', hd'⟩
  · refine ⟨fun st hst => ?_, fun d id hid => ?_⟩
    · rw [h₀.state] at hst
      cases hst
    · rw [h₀.dirIds] at hid
      cases hid

/-- The check reports a mismatch. -/
def Reported (newId : Nat → String) (dep : Deployment) (labels : List String) (w : World) : Prop :=
  ∃ ms, check newId w.drawn (observe dep w labels) = .error ms ∧ ms ≠ []

theorem observe_labels (dep : Deployment) (w : World) (labels : List String) :
    (observe dep w labels).stores.map StoreObservation.label = labels := by
  simp [observe, observeStore, Function.comp_def]

/-- The set of an installation with a directory of another one in place of its own. -/
def World.withDir (w : World) (dep : Deployment) (dir : PathBuf) (content : Option String)
    (tables : String → TableManifest) : World :=
  { w with dirIds := Function.update w.dirIds (dep.resolve dir) content, tables }

section Detection

variable {newId₂ : Nat → String} {dep₂ : Deployment} {w₂ : World} {labels₂ : List String}

theorem reported_rdb (h : Settled dep labels w) (hne : w.rdbId ≠ w₂.rdbId) :
    Reported newId dep labels { w with rdbId := w₂.rdbId } := by
  obtain ⟨st, hst, -⟩ := h.recorded
  obtain ⟨ms, hms, hmem⟩ := check_rdb_state newId w.drawn
    (observe dep { w with rdbId := w₂.rdbId } labels) hst (by
      rw [(h.consistent.state st hst).1]
      exact hne)
  exact ⟨ms, hms, List.ne_nil_of_mem hmem⟩

theorem reported_state (h₂ : Settled dep₂ labels₂ w₂) (hne : w.rdbId ≠ w₂.rdbId) :
    Reported newId dep labels { w with state := w₂.state } := by
  obtain ⟨st, hst, -⟩ := h₂.recorded
  obtain ⟨ms, hms, hmem⟩ := check_rdb_state newId w.drawn
    (observe dep { w with state := w₂.state } labels) hst (by
      rw [(h₂.consistent.state st hst).1]
      exact fun heq => hne heq.symm)
  exact ⟨ms, hms, List.ne_nil_of_mem hmem⟩

theorem reported_dir (hn : labels.Nodup) (h : Settled dep labels w) (hd : Drawn newId w)
    (h₂ : Settled dep₂ labels₂ w₂) (hd₂ : Drawn newId₂ w₂) (hne : ∀ m n, newId m ≠ newId₂ n) {l l₂ : String}
    (hl : l ∈ labels) (hl₂ : l₂ ∈ labels₂) {dir dir₂ : PathBuf} (hdir : dep.dirOf l = some dir)
    (hdir₂ : dep₂.dirOf l₂ = some dir₂) (tables : String → TableManifest) :
    Reported newId dep labels (w.withDir dep dir (w₂.dirIds (dep₂.resolve dir₂)) tables) := by
  obtain ⟨st, hst, hrec⟩ := h.recorded
  obtain ⟨st₂, -, hrec₂⟩ := h₂.recorded
  obtain ⟨id, hid, hat⟩ := (hrec l hl).2.2 dir hdir
  obtain ⟨id₂, -, hat₂⟩ := (hrec₂ l₂ hl₂).2.2 dir₂ hdir₂
  obtain ⟨m, -, hm⟩ := hd.dirIds _ _ hat
  obtain ⟨n, -, hn₂⟩ := hd₂.dirIds _ _ hat₂
  obtain ⟨ms, hms, hmem⟩ := check_foreign_dir newId w.drawn
    (observe dep (w.withDir dep dir (w₂.dirIds (dep₂.resolve dir₂)) tables) labels)
    ((observe_labels ..).symm ▸ hn) (observeStore dep (w.withDir dep dir (w₂.dirIds (dep₂.resolve dir₂)) tables) l)
    (List.mem_map_of_mem hl) hst hdir hid (by
      have hread : (observeStore dep (w.withDir dep dir (w₂.dirIds (dep₂.resolve dir₂)) tables) l).dirId =
          w₂.idAt dep₂ dir₂ := by
        simp [observeStore, hdir, World.withDir, World.idAt]
      rw [hread, hat₂, hm, hn₂]
      exact fun heq => hne m n (Option.some.inj heq).symm)
  exact ⟨ms, hms, List.ne_nil_of_mem hmem⟩

theorem reported_lost (hs : IdSupply newId) (hn : labels.Nodup) (hne : labels ≠ []) (h : Settled dep labels w)
    (hd : Drawn newId w) : Reported newId dep labels { w with state := none } := by
  obtain ⟨st, hst, hrec⟩ := h.recorded
  obtain ⟨l, hl⟩ := List.exists_mem_of_ne_nil labels hne
  obtain ⟨n, hlt, hid⟩ := hd.state st hst
  obtain ⟨ms, hms, hmem⟩ := check_foreign_state newId w.drawn
    (observe dep { w with state := none } labels) ((observe_labels ..).symm ▸ hn)
    (observeStore dep { w with state := none } l) (List.mem_map_of_mem hl) (hrec l hl).2.1 (by
      rw [hid]
      exact fun heq => absurd (hs.injective heq) (Nat.ne_of_lt hlt))
  exact ⟨ms, hms, List.ne_nil_of_mem hmem⟩

end Detection

/-- **Storage identity.** From an unrecorded set, after any number of runs over tables that name each directory
without identifier by one path, each interrupted after any of its writes or not: a run that is not interrupted
succeeds, and it leaves a set that needs no write, with one identifier per directory, exactly when its tables name
each directory without identifier by one path; otherwise the next check refuses it for good. From every settled set
the RDB, the state file or a vector directory of another installation, and a lost state file, are reported. -/
theorem storage_identity {random random₂ : Nat → List (Fin 256)} (hinj : Function.Injective random)
    (hinj₂ : Function.Injective random₂) (hne : ∀ n, random n ≠ []) (hne₂ : ∀ n, random₂ n ≠ [])
    (hfresh : ∀ m n, random m ≠ random₂ n) {dep : Deployment} {w : World}
    (hw : Installed (fun n => newIdentifier (random n)) dep w) (labels : List String) (hn : labels.Nodup) :
    (∃ w', verifyAndRecord (fun n => newIdentifier (random n)) dep labels none w = (.ok (), w') ∧
      (OnePath dep labels w → check (fun n => newIdentifier (random n)) w'.drawn (observe dep w' labels) = .ok .default ∧
        Settled dep labels w' ∧
        ∀ l ∈ labels, ∀ l' ∈ labels, ∀ dir dir', dep.dirOf l = some dir → dep.dirOf l' = some dir' →
          dep.resolve dir = dep.resolve dir' → ∃ st id, w'.state = some st ∧ st.vectorStores.lookup l = some id ∧
            st.vectorStores.lookup l' = some id ∧ w'.idAt dep dir = some id) ∧
      (¬ OnePath dep labels w → ∀ drawn, ∃ ms,
        check (fun n => newIdentifier (random n)) drawn (observe dep w' labels) = .error ms ∧ ms ≠ [])) ∧
    (Settled dep labels w → labels ≠ [] →
      Reported (fun n => newIdentifier (random n)) dep labels { w with state := none } ∧
      ∀ (dep₂ : Deployment) (w₂ : World) (labels₂ : List String), Installed (fun n => newIdentifier (random₂ n)) dep₂ w₂ →
        Settled dep₂ labels₂ w₂ → w.rdbId ≠ w₂.rdbId →
        Reported (fun n => newIdentifier (random n)) dep labels { w with rdbId := w₂.rdbId } ∧
        Reported (fun n => newIdentifier (random n)) dep labels { w with state := w₂.state } ∧
        ∀ l ∈ labels, ∀ l₂ ∈ labels₂, ∀ dir dir₂, dep.dirOf l = some dir → dep₂.dirOf l₂ = some dir₂ →
          ∀ tables, Reported (fun n => newIdentifier (random n)) dep labels
            (w.withDir dep dir (w₂.dirIds (dep₂.resolve dir₂)) tables)) := by
  have hs := IdSupply.ofRandom hinj hne
  have hs₂ := IdSupply.ofRandom hinj₂ hne₂
  obtain ⟨hc, hd⟩ := hw.sound hs
  refine ⟨?_, fun hsettled hnonempty => ⟨reported_lost hs hn hnonempty hsettled hd, ?_⟩⟩
  · by_cases hone : OnePath dep labels w
    · obtain ⟨w', hrun, -, -, hsettled⟩ := verifyAndRecord_consistent hs hc hd hn hone none
      have h := hsettled rfl
      refine ⟨w', hrun, fun _ => ⟨h.check hn, h, ?_⟩, fun htwo => absurd hone htwo⟩
      intro l hl l' hl' dir dir' hdir hdir' hr
      obtain ⟨st, hst, hrec⟩ := h.recorded
      obtain ⟨id, hid, hat⟩ := (hrec l hl).2.2 dir hdir
      obtain ⟨id', hid', hat'⟩ := (hrec l' hl').2.2 dir' hdir'
      have hsame : w'.idAt dep dir = w'.idAt dep dir' := by
        unfold World.idAt
        rw [hr]
      rw [← hsame, hat] at hat'
      cases hat'
      exact ⟨st, id, hst, hid, hid', hat⟩
    · obtain ⟨w', hrun, hrefused⟩ := two_paths_refused hs hc hn hone
      exact ⟨w', hrun, fun h => absurd h hone, fun _ => hrefused⟩
  · intro dep₂ w₂ labels₂ hw₂ hsettled₂ hrdb
    obtain ⟨-, hd₂⟩ := hw₂.sound hs₂
    refine ⟨reported_rdb hsettled hrdb, reported_state hsettled₂ hrdb, ?_⟩
    intro l hl l₂ hl₂ dir dir₂ hdir hdir₂ tables
    exact reported_dir hn hsettled hd hsettled₂ hd₂ (fun m n heq => hfresh m n (newIdentifier_injective _ _ heq))
      hl hl₂ hdir hdir₂ tables

/-! ## A directory named once, and by two paths -/

/-- Nothing recorded next to the RDB `rdbId`. -/
def firstUse (rdbId : String) : World := ⟨rdbId, none, fun _ => none, fun _ => ⟨none, none⟩, 0⟩

theorem firstUse_unrecorded {rdbId : String} (h : rdbId ≠ "") : Unrecorded (firstUse rdbId) :=
  ⟨h, rfl, fun _ => rfl, fun _ => rfl⟩

/-- The identifiers of one installation: runs of one byte. -/
def sampleRandom (byte : Fin 256) (n : Nat) : List (Fin 256) := List.replicate (n + 1) byte

theorem sampleRandom_injective (byte : Fin 256) : Function.Injective (sampleRandom byte) := fun m n h => by
  have := congrArg List.length h
  simpa [sampleRandom] using this

theorem sampleRandom_ne_nil (byte : Fin 256) (n : Nat) : sampleRandom byte n ≠ [] := by simp [sampleRandom]

/-- `data/v` for the memories, `./data/v` for the threads. -/
def twoPaths : Deployment :=
  ⟨fun l => if l = "memory" then some ["data", "v"] else some [".", "data", "v"], fun _ => "/srv/data/v"⟩

/-- **Two paths of one directory.** The first start succeeds and every later one is refused. -/
theorem second_start_refused : ∃ w', verifyAndRecord (fun n => newIdentifier (sampleRandom 0 n)) twoPaths
    ["memory", "thread"] none (firstUse "r") = (.ok (), w') ∧
    ∀ drawn, ∃ ms, check (fun n => newIdentifier (sampleRandom 0 n)) drawn
      (observe twoPaths w' ["memory", "thread"]) = .error ms ∧ ms ≠ [] := by
  refine two_paths_refused (IdSupply.ofRandom (sampleRandom_injective 0) (sampleRandom_ne_nil 0))
    (firstUse_unrecorded (by decide)).consistent (by decide) fun h => ?_
  have := h "memory" (by decide) "thread" (by decide) ["data", "v"] [".", "data", "v"] rfl rfl rfl rfl
  exact absurd this (by decide)

/-- Memories and threads in one directory. -/
def shared : Deployment := ⟨fun _ => some ["data", "v"], fun _ => "/srv/data/v"⟩

theorem shared_onePath (labels : List String) (w : World) : OnePath shared labels w :=
  fun _ _ _ _ _ _ hdir hdir' _ _ => Option.some.inj (hdir.symm.trans hdir')

/-- The memories' first start, interrupted after the identifier file. -/
def interrupted (byte : Fin 256) (rdbId : String) : World :=
  Attempt.exec (fun n => newIdentifier (sampleRandom byte n)) shared ⟨["memory"], some 1⟩ (firstUse rdbId)

theorem interrupted_installed (byte : Fin 256) {rdbId : String} (h : rdbId ≠ "") :
    Installed (fun n => newIdentifier (sampleRandom byte n)) shared (interrupted byte rdbId) :=
  ⟨_, firstUse_unrecorded h, .single ⟨_, ⟨by decide, shared_onePath _ _⟩, rfl⟩⟩

/-- The next start, with the threads enabled. -/
def restarted (byte : Fin 256) (rdbId : String) : World :=
  Attempt.exec (fun n => newIdentifier (sampleRandom byte n)) shared ⟨["memory", "thread"], none⟩ (interrupted byte rdbId)

theorem restarted_installed (byte : Fin 256) {rdbId : String} (h : rdbId ≠ "") :
    Installed (fun n => newIdentifier (sampleRandom byte n)) shared (restarted byte rdbId) := by
  obtain ⟨w₀, h₀, hr⟩ := interrupted_installed byte h
  exact ⟨w₀, h₀, hr.tail ⟨_, ⟨by decide, shared_onePath _ _⟩, rfl⟩⟩

/-- An interrupted start, one that is not, and what then comes of the stores of another installation. -/
theorem restarted_settles : check (fun n => newIdentifier (sampleRandom 0 n)) (restarted 0 "r").drawn
      (observe shared (restarted 0 "r") ["memory", "thread"]) = .ok .default ∧
    Reported (fun n => newIdentifier (sampleRandom 0 n)) shared ["memory", "thread"]
      { restarted 0 "r" with state := none } ∧
    Reported (fun n => newIdentifier (sampleRandom 0 n)) shared ["memory", "thread"]
      { restarted 0 "r" with rdbId := (restarted 1 "q").rdbId } ∧
    Reported (fun n => newIdentifier (sampleRandom 0 n)) shared ["memory", "thread"]
      { restarted 0 "r" with state := (restarted 1 "q").state } ∧
    Reported (fun n => newIdentifier (sampleRandom 0 n)) shared ["memory", "thread"]
      ((restarted 0 "r").withDir shared ["data", "v"] ((restarted 1 "q").dirIds "/srv/data/v")
        (restarted 1 "q").tables) := by
  have hfresh : ∀ m n, sampleRandom 0 m ≠ sampleRandom 1 n := fun m n h => by
    simp [sampleRandom, List.replicate_succ] at h
  have hrun : ∀ (byte : Fin 256) (rdbId : String), rdbId ≠ "" → (∀ m n, sampleRandom byte m ≠ sampleRandom (byte + 1) n) →
      check (fun n => newIdentifier (sampleRandom byte n)) (restarted byte rdbId).drawn
        (observe shared (restarted byte rdbId) ["memory", "thread"]) = .ok .default ∧
      Settled shared ["memory", "thread"] (restarted byte rdbId) := by
    intro byte rdbId hrdb hf
    obtain ⟨w', hw', hone, -⟩ := (storage_identity (sampleRandom_injective byte) (sampleRandom_injective (byte + 1))
      (sampleRandom_ne_nil byte) (sampleRandom_ne_nil (byte + 1)) hf (interrupted_installed byte hrdb)
      ["memory", "thread"] (by decide)).1
    obtain ⟨hcheck, hsettled, -⟩ := hone (shared_onePath _ _)
    have heq : restarted byte rdbId = w' := by
      unfold restarted Attempt.exec
      rw [hw']
    rw [heq]
    exact ⟨hcheck, hsettled⟩
  have hnext : ∀ byte : Fin 256, ∀ m n, sampleRandom byte m ≠ sampleRandom (byte + 1) n := fun byte m n h => by
    have hhead : byte = byte + 1 := by simpa [sampleRandom, List.replicate_succ] using congrArg List.head? h
    have hne : ∀ b : Fin 256, b ≠ b + 1 := by decide +kernel
    exact hne byte hhead
  obtain ⟨hcheck, hsettled⟩ := hrun 0 "r" (by decide) (hnext 0)
  obtain ⟨-, hsettled₂⟩ := hrun 1 "q" (by decide) (hnext 1)
  obtain ⟨hlost, hother⟩ := (storage_identity (sampleRandom_injective 0) (sampleRandom_injective 1)
    (sampleRandom_ne_nil 0) (sampleRandom_ne_nil 1) hfresh (restarted_installed 0 (by decide : "r" ≠ ""))
    ["memory", "thread"] (by decide)).2 hsettled (by decide)
  obtain ⟨hrdb, hstate, hdir⟩ := hother shared (restarted 1 "q") ["memory", "thread"]
    (restarted_installed 1 (by decide)) hsettled₂ (by
      have h₁ : (restarted 0 "r").rdbId = "r" := by decide +kernel
      have h₂ : (restarted 1 "q").rdbId = "q" := by decide +kernel
      rw [h₁, h₂]
      decide)
  exact ⟨hcheck, hlost, hrdb, hstate, hdir "memory" (by decide) "memory" (by decide) _ _ rfl rfl _⟩

end MemoryStore.EmbeddingSpace
