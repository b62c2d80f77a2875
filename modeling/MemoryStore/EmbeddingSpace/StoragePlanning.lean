/-
What the check of a consistent set plans. Whatever is recorded agrees
(`Consistent`); the loop over the tables then finds no mismatch, and what it
carries is described table by table (`Planning`).
-/
import MemoryStore.EmbeddingSpace.StorageIdentity

namespace MemoryStore.EmbeddingSpace

/-! ## Identifiers as they are read back -/

theorem hexDigit_not_space : ∀ n : Fin 16, Whitespace.isWhiteSpace (Json.hexDigit n.val) = false := by decide

theorem hexDigit_injective : ∀ m n : Fin 16, Json.hexDigit m.val = Json.hexDigit n.val → m = n := by decide

/-- The two digits of a byte. -/
def byteDigits (b : Fin 256) : List Char := [Json.hexDigit (b.val / 16), Json.hexDigit (b.val % 16)]

theorem byteDigits_not_space {b : Fin 256} {c : Char} (h : c ∈ byteDigits b) : Whitespace.isWhiteSpace c = false := by
  simp only [byteDigits, List.mem_cons, List.not_mem_nil, or_false] at h
  rcases h with rfl | rfl
  · exact hexDigit_not_space ⟨b.val / 16, by omega⟩
  · exact hexDigit_not_space ⟨b.val % 16, by omega⟩

theorem byteDigits_injective {a b : Fin 256} (h : byteDigits a = byteDigits b) : a = b := by
  simp only [byteDigits, List.cons.injEq, and_true] at h
  have h₁ := hexDigit_injective ⟨a.val / 16, by omega⟩ ⟨b.val / 16, by omega⟩ h.1
  have h₂ := hexDigit_injective ⟨a.val % 16, by omega⟩ ⟨b.val % 16, by omega⟩ h.2
  simp only [Fin.mk.injEq] at h₁ h₂
  exact Fin.ext (by omega)

theorem newIdentifier_injective : ∀ a b : List (Fin 256), newIdentifier a = newIdentifier b → a = b := by
  have hlist : ∀ a b : List (Fin 256), a.flatMap byteDigits = b.flatMap byteDigits → a = b := by
    intro a
    induction a with
    | nil =>
      intro b h
      cases b with
      | nil => rfl
      | cons y b => simp [byteDigits] at h
    | cons x a ih =>
      intro b h
      cases b with
      | nil => simp [byteDigits] at h
      | cons y b =>
        rw [List.flatMap_cons, List.flatMap_cons] at h
        obtain ⟨hhead, htail⟩ := List.append_inj h rfl
        rw [byteDigits_injective hhead, ih b htail]
  intro a b h
  exact hlist a b (String.ofList_injective h)

theorem dropWhile_not_space {cs : List Char} (h : ∀ c ∈ cs, Whitespace.isWhiteSpace c = false) :
    cs.dropWhile Whitespace.isWhiteSpace = cs := by
  cases cs with
  | nil => rfl
  | cons c cs => rw [List.dropWhile_cons, h c (List.mem_cons_self ..)]; rfl

theorem filter_some_ne_empty {v : String} (h : v ≠ "") : (some v).filter (fun v => v ≠ "") = some v := by
  rw [Option.filter_some, if_pos (by simpa using h)]

theorem readDirId_newIdentifier {bytes : List (Fin 256)} (hne : bytes ≠ []) :
    readDirId (some (newIdentifier bytes)) = some (newIdentifier bytes) := by
  have hspace : ∀ c ∈ bytes.flatMap byteDigits, Whitespace.isWhiteSpace c = false := by
    intro c hc
    obtain ⟨b, -, hb⟩ := List.mem_flatMap.1 hc
    exact byteDigits_not_space hb
  have htrim : Whitespace.trim (newIdentifier bytes) = newIdentifier bytes := by
    have hrev : ∀ c ∈ (bytes.flatMap byteDigits).reverse, Whitespace.isWhiteSpace c = false :=
      fun c hc => hspace c (List.mem_reverse.1 hc)
    have hchars : (newIdentifier bytes).toList = bytes.flatMap byteDigits := String.toList_ofList
    unfold Whitespace.trim Whitespace.trimChars
    rw [hchars, dropWhile_not_space hspace, dropWhile_not_space hrev, List.reverse_reverse]
    rfl
  have hnonempty : newIdentifier bytes ≠ "" := by
    intro h
    obtain ⟨b, bytes, rfl⟩ := List.exists_cons_of_ne_nil hne
    have := congrArg String.toList h
    simp [newIdentifier] at this
  unfold readDirId
  rw [Option.map_some, htrim]
  exact filter_some_ne_empty hnonempty

/-- Fresh identifiers: none is drawn twice, and each is read back as it was written. -/
structure IdSupply (newId : Nat → String) : Prop where
  injective : Function.Injective newId
  read : ∀ n, readDirId (some (newId n)) = some (newId n)

theorem IdSupply.ofRandom {random : Nat → List (Fin 256)} (hn : Function.Injective random) (hne : ∀ n, random n ≠ []) :
    IdSupply fun n => newIdentifier (random n) :=
  ⟨fun _ _ h => hn (newIdentifier_injective _ _ h), fun n => readDirId_newIdentifier (hne n)⟩

theorem readDirId_ne_empty {content : Option String} {id : String} (h : readDirId content = some id) : id ≠ "" := by
  unfold readDirId at h
  rw [Option.filter_eq_some_iff] at h
  simpa using h.2

theorem IdSupply.ne_empty {newId : Nat → String} (h : IdSupply newId) (n : Nat) : newId n ≠ "" :=
  readDirId_ne_empty (h.read n)

/-! ## What is recorded agrees -/

variable {newId : Nat → String} {dep : Deployment} {w w' : World} {labels : List String}

/-- The identifier in the directory a path leads to. -/
def World.idAt (w : World) (dep : Deployment) (dir : PathBuf) : Option String := readDirId (w.dirIds (dep.resolve dir))

/-- Whatever is recorded agrees with the rest. -/
structure Consistent (dep : Deployment) (w : World) : Prop where
  rdbId : w.rdbId ≠ ""
  state : ∀ st, w.state = some st → st.rdbId = w.rdbId ∧ st.stateDirId ≠ ""
  stores : ∀ st, w.state = some st → ∀ label id, st.vectorStores.lookup label = some id →
    ∃ dir, dep.dirOf label = some dir ∧ w.idAt dep dir = some id
  tableRdbId : ∀ label id, (w.tables label).rdbId.filter (fun v => v ≠ "") = some id → id = w.rdbId
  tableStateDirId : ∀ label id, (w.tables label).stateDirId.filter (fun v => v ≠ "") = some id →
    ∃ st, w.state = some st ∧ st.stateDirId = id

/-- Nothing is recorded yet. -/
structure Unrecorded (w : World) : Prop where
  rdbId : w.rdbId ≠ ""
  state : w.state = none
  dirIds : ∀ dir, w.dirIds dir = none
  tables : ∀ label, w.tables label = ⟨none, none⟩

theorem Unrecorded.consistent (h : Unrecorded w) : Consistent dep w := by
  refine ⟨h.rdbId, fun st hst => ?_, fun st hst => ?_, fun label id ht => ?_, fun label id ht => ?_⟩
  · rw [h.state] at hst; cases hst
  · rw [h.state] at hst; cases hst
  · rw [h.tables] at ht; cases ht
  · rw [h.tables] at ht; cases ht

/-- In a directory not identified yet, the tables of a run name it by one path. -/
def OnePath (dep : Deployment) (labels : List String) (w : World) : Prop :=
  ∀ l ∈ labels, ∀ l' ∈ labels, ∀ dir dir', dep.dirOf l = some dir → dep.dirOf l' = some dir' →
    dep.resolve dir = dep.resolve dir' → w.idAt dep dir = none → dir = dir'

/-! ## Planning the writes -/

/-- What `check` carries after the tables in `done`, of a consistent set with the tables `labels`. -/
structure Planning (newId : Nat → String) (dep : Deployment) (w : World) (labels : List String)
    (start : StateDirRecord) (done : List String) (c : CheckState) : Prop where
  mismatches : c.mismatches = []
  record : c.state.formatVersion = start.formatVersion ∧ c.state.stateDirId = start.stateDirId ∧
    c.state.rdbId = start.rdbId
  untouched : ∀ label, (label ∉ done ∨ dep.dirOf label = none) →
    c.state.vectorStores.lookup label = start.vectorStores.lookup label
  known : ∀ label ∈ done, ∀ dir, dep.dirOf label = some dir → ∃ id, c.state.vectorStores.lookup label = some id ∧
    c.assigned.lookup dir = some id
  assigned : ∀ dir id, c.assigned.lookup dir = some id → w.idAt dep dir = some id ∨
    ∃ label, (label, dir, id) ∈ c.dirIds
  dirIds : ∀ label dir id, (label, dir, id) ∈ c.dirIds → w.idAt dep dir = none ∧ c.assigned.lookup dir = some id ∧
    label ∈ labels ∧ dep.dirOf label = some dir ∧ ∃ n, n < c.drawn ∧ w.drawn ≤ n ∧ id = newId n
  tables : ∀ label ∈ c.tables, label ∈ labels ∧ ((observeStore dep w label).tableRdbId = none ∨
    (observeStore dep w label).tableStateDirId = none)
  unrecorded : ∀ label ∈ done, (observeStore dep w label).tableRdbId = none ∨
    (observeStore dep w label).tableStateDirId = none → label ∈ c.tables
  drawn : w.drawn ≤ c.drawn
  started : w.state = none → w.drawn < c.drawn
  ids : ∃ ns : List Nat, ns.Nodup ∧ (∀ n ∈ ns, n < c.drawn) ∧ c.dirIds.map (fun e => e.2.2) = ns.map newId

/-- The record a check starts from. -/
def startRecord (newId : Nat → String) (w : World) : StateDirRecord :=
  match w.state with
  | some st => st
  | none => ⟨stateFormatVersion, newId w.drawn, w.rdbId, ∅⟩

theorem CheckState.start_state (newId : Nat → String) (dep : Deployment) (w : World) (labels : List String) :
    (CheckState.start newId (observe dep w labels) w.drawn).state = startRecord newId w := by
  unfold start startRecord observe
  cases w.state <;> rfl

/-- A consistent set is let through table by table. -/
theorem checkTable_consistent (hc : Consistent dep w) {c : CheckState}
    (hsd : c.state.stateDirId = (startRecord newId w).stateDirId) (label : String) :
    checkTable (observe dep w labels) c (observeStore dep w label) =
      if (observeStore dep w label).tableRdbId.isNone || (observeStore dep w label).tableStateDirId.isNone then
        { c with tables := c.tables ++ [label] } else c := by
  have hrdb : (observeStore dep w label).tableRdbId.any (fun id => id ≠ (observe dep w labels).rdbId) = false := by
    cases h : (observeStore dep w label).tableRdbId with
    | none => rfl
    | some id =>
      have := hc.tableRdbId label id h
      simp [observe, this]
  have hstate : (observeStore dep w label).tableStateDirId.any (fun id => id ≠ c.state.stateDirId) = false := by
    cases h : (observeStore dep w label).tableStateDirId with
    | none => rfl
    | some id =>
      obtain ⟨st, hst, hid⟩ := hc.tableStateDirId label id h
      rw [hsd]
      simp [startRecord, hst, hid]
  unfold checkTable
  simp only [hrdb, hstate, Bool.false_eq_true, if_false]
  rfl

section Step

variable {start : StateDirRecord} {done : List String} {c : CheckState} {label : String}

theorem Planning.assigned_unique (h : Planning newId dep w labels start done c) {dir : PathBuf} {id id' : String}
    (hid : w.idAt dep dir = some id ∨ c.assigned.lookup dir = some id) (hid' : c.assigned.lookup dir = some id') :
    id' = id := by
  rcases hid with hid | hid
  · rcases h.assigned dir id' hid' with hw | ⟨l, hl⟩
    · exact Option.some.inj (hw.symm.trans hid)
    · rw [(h.dirIds l dir id' hl).1] at hid
      cases hid
  · exact Option.some.inj (hid'.symm.trans hid)

/-- A table whose directory has an identifier, or was given one, takes it. -/
theorem Planning.assign (h : Planning newId dep w labels start done c) {dir : PathBuf} {id : String}
    (hdir : dep.dirOf label = some dir) (hid : w.idAt dep dir = some id ∨ c.assigned.lookup dir = some id)
    (htables : (observeStore dep w label).tableRdbId = none ∨ (observeStore dep w label).tableStateDirId = none →
      label ∈ c.tables) :
    Planning newId dep w labels start (done ++ [label]) (c.assign label dir id) where
  mismatches := h.mismatches
  record := h.record
  untouched := fun l hl => by
    have hne : l ≠ label := by
      rintro rfl
      rcases hl with hl | hl
      · exact hl (by simp)
      · rw [hdir] at hl; cases hl
    have hl' : l ∉ done ∨ dep.dirOf l = none := hl.imp_left fun hl hm => hl (List.mem_append_left _ hm)
    exact (Finmap.lookup_insert_of_ne _ hne).trans (h.untouched l hl')
  known := fun l hl d hd => by
    by_cases hne : l = label
    · subst hne
      obtain rfl : dir = d := Option.some.inj (hdir.symm.trans hd)
      exact ⟨id, Finmap.lookup_insert _, Finmap.lookup_insert _⟩
    · have hl' : l ∈ done := by simpa [hne] using hl
      obtain ⟨i, hi, ha⟩ := h.known l hl' d hd
      refine ⟨i, (Finmap.lookup_insert_of_ne _ hne).trans hi, ?_⟩
      by_cases hdd : d = dir
      · subst hdd
        rw [h.assigned_unique hid ha]
        exact Finmap.lookup_insert _
      · exact (Finmap.lookup_insert_of_ne _ hdd).trans ha
  assigned := fun d i hi => by
    by_cases hdd : d = dir
    · subst hdd
      have hi' : some id = some i := (Finmap.lookup_insert _).symm.trans hi
      cases hi'
      exact hid.elim .inl (h.assigned d id)
    · exact h.assigned d i ((Finmap.lookup_insert_of_ne _ hdd).symm.trans hi)
  dirIds := fun l d i hi => by
    obtain ⟨hw, ha, hl, hd, hn⟩ := h.dirIds l d i hi
    refine ⟨hw, ?_, hl, hd, hn⟩
    by_cases hdd : d = dir
    · subst hdd
      rw [h.assigned_unique hid ha]
      exact Finmap.lookup_insert _
    · exact (Finmap.lookup_insert_of_ne _ hdd).trans ha
  tables := h.tables
  unrecorded := fun l hl ht => by
    rcases List.mem_append.1 hl with hl | hl
    · exact h.unrecorded l hl ht
    · obtain rfl : l = label := by simpa using hl
      exact htables ht
  drawn := h.drawn
  started := h.started
  ids := h.ids

/-- A directory without an identifier is given a fresh one. -/
theorem Planning.fresh (h : Planning newId dep w labels start done c) {dir : PathBuf} (hmem : label ∈ labels)
    (hdir : dep.dirOf label = some dir) (hid : w.idAt dep dir = none) (hassigned : c.assigned.lookup dir = none) :
    Planning newId dep w labels start done { c with
      dirIds := c.dirIds ++ [(label, dir, newId c.drawn)], drawn := c.drawn + 1
      assigned := c.assigned.insert dir (newId c.drawn) } where
  mismatches := h.mismatches
  record := h.record
  untouched := h.untouched
  known := fun l hl d hd => by
    obtain ⟨i, hi, ha⟩ := h.known l hl d hd
    refine ⟨i, hi, ?_⟩
    have hne : d ≠ dir := by
      rintro rfl
      rw [hassigned] at ha
      cases ha
    exact (Finmap.lookup_insert_of_ne _ hne).trans ha
  assigned := fun d i hi => by
    by_cases hdd : d = dir
    · subst hdd
      have hi' : some (newId c.drawn) = some i := (Finmap.lookup_insert _).symm.trans hi
      cases hi'
      exact .inr ⟨label, List.mem_append_right _ (List.mem_singleton_self _)⟩
    · rcases h.assigned d i ((Finmap.lookup_insert_of_ne _ hdd).symm.trans hi) with hw | ⟨l, hl⟩
      · exact .inl hw
      · exact .inr ⟨l, List.mem_append_left _ hl⟩
  dirIds := fun l d i hi => by
    rcases List.mem_append.1 hi with hi | hi
    · obtain ⟨hw, ha, hl, hd, n, hn, hle, rfl⟩ := h.dirIds l d i hi
      have hne : d ≠ dir := by
        rintro rfl
        rw [hassigned] at ha
        cases ha
      exact ⟨hw, (Finmap.lookup_insert_of_ne _ hne).trans ha, hl, hd, n, Nat.lt_succ_of_lt hn, hle, rfl⟩
    · obtain ⟨rfl, rfl, rfl⟩ : l = label ∧ d = dir ∧ i = newId c.drawn := by simpa using hi
      exact ⟨hid, Finmap.lookup_insert _, hmem, hdir, c.drawn, Nat.lt_succ_self _, h.drawn, rfl⟩
  tables := h.tables
  unrecorded := h.unrecorded
  drawn := Nat.le_succ_of_le h.drawn
  started := fun hs => Nat.lt_succ_of_lt (h.started hs)
  ids := by
    obtain ⟨ns, hn, hlt, hmap⟩ := h.ids
    refine ⟨ns ++ [c.drawn], ?_, fun n hn' => ?_, by simp [hmap]⟩
    · rw [List.nodup_append]
      refine ⟨hn, List.nodup_singleton _, fun n hn' m hm => ?_⟩
      rw [List.mem_singleton.1 hm]
      exact Nat.ne_of_lt (hlt n hn')
    · rcases List.mem_append.1 hn' with hn' | hn'
      · exact Nat.lt_succ_of_lt (hlt n hn')
      · exact (List.mem_singleton.1 hn') ▸ Nat.lt_succ_self _

/-- A table on object storage has no directory to identify. -/
theorem Planning.skip (h : Planning newId dep w labels start done c) (hdir : dep.dirOf label = none)
    (htables : (observeStore dep w label).tableRdbId = none ∨ (observeStore dep w label).tableStateDirId = none →
      label ∈ c.tables) : Planning newId dep w labels start (done ++ [label]) c where
  mismatches := h.mismatches
  record := h.record
  untouched := fun l hl => h.untouched l (hl.imp_left fun hl hm => hl (List.mem_append_left _ hm))
  known := fun l hl d hd => by
    rcases List.mem_append.1 hl with hl | hl
    · exact h.known l hl d hd
    · obtain rfl : l = label := by simpa using hl
      rw [hdir] at hd
      cases hd
  assigned := h.assigned
  dirIds := h.dirIds
  tables := h.tables
  unrecorded := fun l hl ht => by
    rcases List.mem_append.1 hl with hl | hl
    · exact h.unrecorded l hl ht
    · obtain rfl : l = label := by simpa using hl
      exact htables ht
  drawn := h.drawn
  started := h.started
  ids := h.ids

/-- A table whose manifest lacks an identifier is planned. -/
theorem Planning.table (h : Planning newId dep w labels start done c) (hmem : label ∈ labels)
    (hnone : (observeStore dep w label).tableRdbId = none ∨ (observeStore dep w label).tableStateDirId = none) :
    Planning newId dep w labels start done { c with tables := c.tables ++ [label] } where
  mismatches := h.mismatches
  record := h.record
  untouched := h.untouched
  known := h.known
  assigned := h.assigned
  dirIds := h.dirIds
  tables := fun l hl => by
    rcases List.mem_append.1 hl with hl | hl
    · exact h.tables l hl
    · exact (List.mem_singleton.1 hl) ▸ ⟨hmem, hnone⟩
  unrecorded := fun l hl ht => List.mem_append_left _ (h.unrecorded l hl ht)
  drawn := h.drawn
  started := h.started
  ids := h.ids

/-- One table of a consistent set. -/
theorem Planning.step (hc : Consistent dep w) (h : Planning newId dep w labels (startRecord newId w) done c)
    (hmem : label ∈ labels) (hnew : label ∉ done) :
    Planning newId dep w labels (startRecord newId w) (done ++ [label])
      (checkDir newId (checkTable (observe dep w labels) c (observeStore dep w label)) (observeStore dep w label)) := by
  rw [checkTable_consistent hc h.record.2.1 label]
  obtain ⟨c', hc', h', htables⟩ : ∃ c', c' = (if (observeStore dep w label).tableRdbId.isNone ||
      (observeStore dep w label).tableStateDirId.isNone then { c with tables := c.tables ++ [label] } else c) ∧
      Planning newId dep w labels (startRecord newId w) done c' ∧
      ((observeStore dep w label).tableRdbId = none ∨ (observeStore dep w label).tableStateDirId = none →
        label ∈ c'.tables) := by
    refine ⟨_, rfl, ?_⟩
    split
    next hnone =>
      exact ⟨h.table hmem (by simpa using hnone), fun _ => List.mem_append_right _ (List.mem_singleton_self _)⟩
    next hno =>
      refine ⟨h, fun hnone => absurd ?_ hno⟩
      rcases hnone with hnone | hnone <;> simp [hnone]
  rw [← hc']
  unfold checkDir
  have hdirs : (observeStore dep w label).dir = dep.dirOf label := rfl
  have hlabel : (observeStore dep w label).label = label := rfl
  rw [hdirs, hlabel]
  split
  next hdir => exact h'.skip hdir htables
  next dir hdir =>
    have hdirId : (observeStore dep w label).dirId = w.idAt dep dir := by
      simp [observeStore, hdir, World.idAt]
    have hstart : ∀ r, (startRecord newId w).vectorStores.lookup label = some r → w.idAt dep dir = some r := by
      intro r hr
      unfold startRecord at hr
      cases hst : w.state with
      | none => rw [hst] at hr; exact absurd hr (by simp)
      | some st =>
        rw [hst] at hr
        obtain ⟨dir', hdir', hid⟩ := hc.stores st hst label r hr
        rw [Option.some.inj (hdir.symm.trans hdir')]
        exact hid
    rw [hdirId, h'.untouched label (.inl hnew)]
    split
    next d r hd hr =>
      have : d = r := Option.some.inj (hd.symm.trans (hstart r hr))
      rw [if_neg (not_not.2 this)]
      exact h'.assign hdir (.inl hd) htables
    next r hd hr =>
      rw [hstart r hr] at hd
      cases hd
    next d hd hr => exact h'.assign hdir (.inl hd) htables
    next hd hr =>
      split
      next id hid => exact h'.assign hdir (.inr hid) htables
      next hid =>
        have hfresh := (h'.fresh hmem hdir hd hid).assign hdir (.inr (Finmap.lookup_insert _)) htables
        unfold CheckState.assign at hfresh ⊢
        simpa only [Finmap.insert_insert] using hfresh

end Step

/-! ## The whole check -/

/-- The end of the loop of `check`. -/
def planned (newId : Nat → String) (dep : Deployment) (w : World) (labels : List String) : CheckState :=
  checkStores newId (observe dep w labels) (observe dep w labels).stores
    (.start newId (observe dep w labels) w.drawn)

theorem planning_start (hc : Consistent dep w) : Planning newId dep w labels (startRecord newId w) []
    (.start newId (observe dep w labels) w.drawn) where
  mismatches := by
    have hrdb : (startRecord newId w).rdbId = w.rdbId := by
      unfold startRecord
      cases hst : w.state with
      | none => rfl
      | some st => exact (hc.state st hst).1
    have hmis : (CheckState.start newId (observe dep w labels) w.drawn).mismatches =
        if (CheckState.start newId (observe dep w labels) w.drawn).state.rdbId ≠ w.rdbId then [⟨"rdb", "state_dir"⟩]
        else [] := by
      unfold CheckState.start observe
      cases w.state <;> rfl
    rw [hmis, CheckState.start_state, hrdb, if_neg (not_not.2 rfl)]
  record := by rw [CheckState.start_state]; exact ⟨rfl, rfl, rfl⟩
  untouched := fun l _ => by rw [CheckState.start_state]
  known := fun l hl => nomatch hl
  assigned := fun d i hi => by
    have hempty : (CheckState.start newId (observe dep w labels) w.drawn).assigned = ∅ := by
      unfold CheckState.start observe
      cases w.state <;> rfl
    rw [hempty, Finmap.lookup_empty] at hi
    cases hi
  dirIds := fun l d i hi => by
    have hempty : (CheckState.start newId (observe dep w labels) w.drawn).dirIds = [] := by
      unfold CheckState.start observe
      cases w.state <;> rfl
    rw [hempty] at hi
    cases hi
  tables := fun l hl => by
    have hempty : (CheckState.start newId (observe dep w labels) w.drawn).tables = [] := by
      unfold CheckState.start observe
      cases w.state <;> rfl
    rw [hempty] at hl
    cases hl
  unrecorded := fun l hl => nomatch hl
  drawn := by
    unfold CheckState.start observe
    cases w.state
    · exact Nat.le_succ _
    · exact Nat.le_refl _
  started := fun hs => by
    unfold CheckState.start observe
    rw [hs]
    exact Nat.lt_succ_self _
  ids := by
    have hempty : (CheckState.start newId (observe dep w labels) w.drawn).dirIds = [] := by
      unfold CheckState.start observe
      cases w.state <;> rfl
    exact ⟨[], List.nodup_nil, fun n hn => absurd hn List.not_mem_nil, by rw [hempty]; rfl⟩

theorem planning_rest (hc : Consistent dep w) (hn : labels.Nodup) : ∀ (rest done : List String) (c : CheckState),
    done ++ rest = labels → Planning newId dep w labels (startRecord newId w) done c →
    Planning newId dep w labels (startRecord newId w) labels
      (checkStores newId (observe dep w labels) (rest.map (observeStore dep w)) c)
  | [], done, c, hl, h => by
    rw [List.append_nil] at hl
    subst hl
    exact h
  | label :: rest, done, c, hl, h => by
    have hmem : label ∈ labels := by rw [← hl]; simp
    have hnew : label ∉ done := by
      rw [← hl, List.nodup_append] at hn
      exact fun hd => hn.2.2 label hd label (by simp) rfl
    exact planning_rest hc hn rest (done ++ [label]) _ (by rw [List.append_assoc]; exact hl) (h.step hc hmem hnew)

/-- **What a consistent set plans.** -/
theorem planning (newId : Nat → String) (hc : Consistent dep w) (hn : labels.Nodup) :
    Planning newId dep w labels (startRecord newId w) labels (planned newId dep w labels) :=
  planning_rest hc hn labels [] _ rfl (planning_start hc)

/-- The check lets a consistent set through. -/
theorem check_consistent (newId : Nat → String) (hc : Consistent dep w) (hn : labels.Nodup) :
    check newId w.drawn (observe dep w labels) = .ok
      ⟨if w.state ≠ some (planned newId dep w labels).state then some (planned newId dep w labels).state else none,
        (planned newId dep w labels).dirIds, (planned newId dep w labels).tables⟩ := by
  have hmis := (planning newId hc hn).mismatches
  unfold planned at hmis
  unfold check
  dsimp only
  rw [hmis]
  rfl

/-! ## Settled sets -/

/-- Every identifier of the tables is recorded. -/
structure Settled (dep : Deployment) (labels : List String) (w : World) : Prop where
  consistent : Consistent dep w
  recorded : ∃ st, w.state = some st ∧ ∀ l ∈ labels, (observeStore dep w l).tableRdbId = some w.rdbId ∧
    (observeStore dep w l).tableStateDirId = some st.stateDirId ∧
    ∀ dir, dep.dirOf l = some dir → ∃ id, st.vectorStores.lookup l = some id ∧ w.idAt dep dir = some id

/-- A settled set needs no write. -/
theorem Settled.check (h : Settled dep labels w) (hn : labels.Nodup) :
    check newId w.drawn (observe dep w labels) = .ok .default := by
  have hp := planning newId h.consistent hn
  obtain ⟨st, hst, hrec⟩ := h.recorded
  have hstart : startRecord newId w = st := by rw [startRecord, hst]
  rw [hstart] at hp
  have hdirs : (planned newId dep w labels).dirIds = [] := by
    rw [List.eq_nil_iff_forall_not_mem]
    rintro ⟨l, dir, id⟩ hmem
    obtain ⟨hnone, -, hl, hdir, -⟩ := hp.dirIds l dir id hmem
    obtain ⟨i, -, hi⟩ := (hrec l hl).2.2 dir hdir
    rw [hnone] at hi
    cases hi
  have htables : (planned newId dep w labels).tables = [] := by
    rw [List.eq_nil_iff_forall_not_mem]
    intro l hmem
    obtain ⟨hl, hnone⟩ := hp.tables l hmem
    rw [(hrec l hl).1, (hrec l hl).2.1] at hnone
    simp at hnone
  have hstate : (planned newId dep w labels).state = st := by
    obtain ⟨hformat, hsd, hrdb⟩ := hp.record
    have hstores : (planned newId dep w labels).state.vectorStores = st.vectorStores := by
      refine Finmap.ext_lookup fun l => ?_
      by_cases hl : l ∈ labels
      · cases hdir : dep.dirOf l with
        | none => exact hp.untouched l (.inr hdir)
        | some dir =>
          obtain ⟨i, hi, hassigned⟩ := hp.known l hl dir hdir
          obtain ⟨j, hj, hid⟩ := (hrec l hl).2.2 dir hdir
          rcases hp.assigned dir i hassigned with hw | ⟨l', hl'⟩
          · rw [hi, hj, ← hw, hid]
          · rw [hdirs] at hl'
            cases hl'
      · exact hp.untouched l (.inl hl)
    generalize (planned newId dep w labels).state = record at hformat hsd hrdb hstores
    cases record
    cases st
    simp_all
  rw [check_consistent newId h.consistent hn, hdirs, htables, hstate, if_neg (not_not.2 hst)]
  rfl

end MemoryStore.EmbeddingSpace
