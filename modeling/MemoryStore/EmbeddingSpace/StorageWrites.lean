/-
The writes of one run over the storage identifiers: the identifier files, the
state file, the manifests. Every part of them that comes first leaves a
consistent set, and all of them a settled one.
-/
import MemoryStore.EmbeddingSpace.StoragePlanning

namespace MemoryStore.EmbeddingSpace

variable {newId : Nat → String} {dep : Deployment} {w w' : World} {labels : List String}

/-! ## The writes of a run -/

/-- A set after some of the identifier files planned. -/
structure Dirs (dep : Deployment) (w : World) (entries : List (String × PathBuf × String)) (w' : World) : Prop where
  rdbId : w'.rdbId = w.rdbId
  state : w'.state = w.state
  tables : w'.tables = w.tables
  dirIds : ∀ d, w'.dirIds d = w.dirIds d ∨ ∃ e ∈ entries, dep.resolve e.2.1 = d ∧ w'.dirIds d = some e.2.2

theorem Dirs.writeAll {entries : List (String × PathBuf × String)} : ∀ (sub : List (String × PathBuf × String))
    (w' : World), (∀ e ∈ sub, e ∈ entries) → Dirs dep w entries w' →
    Dirs dep w entries (w'.writeAll dep (sub.map fun e => .dirId e.2.1 e.2.2))
  | [], _, _, h => h
  | e :: sub, w', hsub, h => by
    refine Dirs.writeAll sub _ (fun e' he' => hsub e' (List.mem_cons_of_mem _ he')) ⟨h.rdbId, h.state, h.tables, fun d => ?_⟩
    by_cases hd : d = dep.resolve e.2.1
    · exact .inr ⟨e, hsub e (List.mem_cons_self ..), hd.symm, by rw [hd]; exact Function.update_self ..⟩
    · rcases h.dirIds d with hsame | ⟨e', he', hr, hid⟩
      · exact .inl ((Function.update_of_ne hd ..).trans hsame)
      · exact .inr ⟨e', he', hr, (Function.update_of_ne hd ..).trans hid⟩

/-- The identifiers of a set that one with more identifier files keeps. -/
theorem Dirs.idAt {c : CheckState} {start : StateDirRecord} {done : List String} (h : Dirs dep w c.dirIds w')
    (hp : Planning newId dep w labels start done c) {dir : PathBuf} {id : String} (hid : w.idAt dep dir = some id) :
    w'.idAt dep dir = some id := by
  have hsame : w'.dirIds (dep.resolve dir) = w.dirIds (dep.resolve dir) := by
    rcases h.dirIds (dep.resolve dir) with hsame | ⟨e, he, hr, -⟩
    · exact hsame
    · have hnone := (hp.dirIds e.1 e.2.1 e.2.2 he).1
      unfold World.idAt at hnone hid
      rw [hr, hid] at hnone
      cases hnone
  unfold World.idAt at hid ⊢
  rw [hsame, hid]

theorem Dirs.consistent {c : CheckState} {start : StateDirRecord} {done : List String} (h : Dirs dep w c.dirIds w')
    (hp : Planning newId dep w labels start done c) (hc : Consistent dep w) : Consistent dep w' where
  rdbId := h.rdbId ▸ hc.rdbId
  state := by rw [h.state, h.rdbId]; exact hc.state
  stores := fun st hst label id hl => by
    rw [h.state] at hst
    obtain ⟨dir, hdir, hid⟩ := hc.stores st hst label id hl
    exact ⟨dir, hdir, h.idAt hp hid⟩
  tableRdbId := by rw [h.tables, h.rdbId]; exact hc.tableRdbId
  tableStateDirId := by rw [h.tables, h.state]; exact hc.tableStateDirId

/-- When the tables name the directory by one path, all its planned identifiers are one. -/
theorem Planning.entries_agree {c : CheckState} {start : StateDirRecord} {done : List String}
    (hp : Planning newId dep w labels start done c) (hone : OnePath dep labels w) {e e' : String × PathBuf × String}
    (he : e ∈ c.dirIds) (he' : e' ∈ c.dirIds) (hr : dep.resolve e.2.1 = dep.resolve e'.2.1) : e.2.2 = e'.2.2 := by
  obtain ⟨hnone, ha, hl, hd, -⟩ := hp.dirIds e.1 e.2.1 e.2.2 he
  obtain ⟨-, ha', hl', hd', -⟩ := hp.dirIds e'.1 e'.2.1 e'.2.2 he'
  have hpath := hone e.1 hl e'.1 hl' e.2.1 e'.2.1 hd hd' hr hnone
  rw [hpath] at ha
  exact Option.some.inj (ha.symm.trans ha')

/-- An identifier file keeps its content while the files planned for its directory agree. -/
theorem writeAll_keeps {d id : String} : ∀ (sub : List (String × PathBuf × String)) (w' : World),
    (∀ e ∈ sub, dep.resolve e.2.1 = d → e.2.2 = id) → w'.dirIds d = some id →
    (w'.writeAll dep (sub.map fun e => .dirId e.2.1 e.2.2)).dirIds d = some id
  | [], _, _, h => h
  | e :: sub, w', hsub, h => by
    refine writeAll_keeps sub _ (fun e' he' => hsub e' (List.mem_cons_of_mem _ he')) ?_
    by_cases hd : d = dep.resolve e.2.1
    · have hid := hsub e (List.mem_cons_self ..) hd.symm
      rw [hd, ← hid]
      exact Function.update_self ..
    · exact (Function.update_of_ne hd ..).trans h

theorem writeAll_dirId (dep : Deployment) (d id : String) : ∀ (sub : List (String × PathBuf × String)) (w' : World),
    (∀ e ∈ sub, dep.resolve e.2.1 = d → e.2.2 = id) → (∃ e ∈ sub, dep.resolve e.2.1 = d) →
    (w'.writeAll dep (sub.map fun e => .dirId e.2.1 e.2.2)).dirIds d = some id
  | [], _, _, ⟨e, he, _⟩ => nomatch he
  | e :: sub, w', hsub, hex => by
    by_cases hd : dep.resolve e.2.1 = d
    · refine writeAll_keeps sub _ (fun e' he' => hsub e' (List.mem_cons_of_mem _ he')) ?_
      rw [← hsub e (List.mem_cons_self ..) hd, ← hd]
      exact Function.update_self ..
    · refine writeAll_dirId dep d id sub _ (fun e' he' => hsub e' (List.mem_cons_of_mem _ he')) ?_
      obtain ⟨e', he', hr⟩ := hex
      rcases List.mem_cons.1 he' with rfl | he'
      · exact absurd hr hd
      · exact ⟨e', he', hr⟩

theorem writeAll_append (w : World) (l l' : List Write) : w.writeAll dep (l ++ l') = (w.writeAll dep l).writeAll dep l' :=
  List.foldl_append

/-! ## After the identifier files and the state file -/

/-- The identifiers recorded were drawn before. -/
structure Drawn (newId : Nat → String) (w : World) : Prop where
  state : ∀ st, w.state = some st → ∃ n, n < w.drawn ∧ st.stateDirId = newId n
  dirIds : ∀ d id, readDirId (w.dirIds d) = some id → ∃ n, n < w.drawn ∧ id = newId n

/-- A set with the state file and every identifier file of a plan. -/
structure Staged (dep : Deployment) (w : World) (labels : List String) (c : CheckState) (w' : World) : Prop where
  rdbId : w'.rdbId = w.rdbId
  tables : w'.tables = w.tables
  state : w'.state = some c.state
  dirIds : ∀ d, w'.dirIds d = w.dirIds d ∨ ∃ e ∈ c.dirIds, dep.resolve e.2.1 = d ∧ w'.dirIds d = some e.2.2
  kept : ∀ dir id, w.idAt dep dir = some id → w'.idAt dep dir = some id
  known : ∀ l ∈ labels, ∀ dir, dep.dirOf l = some dir →
    ∃ id, c.state.vectorStores.lookup l = some id ∧ w'.idAt dep dir = some id

theorem startRecord_spec (hs : IdSupply newId) (hc : Consistent dep w) :
    (startRecord newId w).rdbId = w.rdbId ∧ (startRecord newId w).stateDirId ≠ "" ∧
      ∀ st, w.state = some st → startRecord newId w = st := by
  unfold startRecord
  cases hst : w.state with
  | none => exact ⟨rfl, hs.ne_empty _, fun st h => nomatch h⟩
  | some st => exact ⟨(hc.state st hst).1, (hc.state st hst).2, fun st' h => Option.some.inj h⟩

theorem Staged.consistent {c : CheckState} (hs : IdSupply newId) (hc : Consistent dep w)
    (hp : Planning newId dep w labels (startRecord newId w) labels c) (h : Staged dep w labels c w') :
    Consistent dep w' := by
  obtain ⟨hrdb, hsd, hstart⟩ := startRecord_spec hs hc
  obtain ⟨-, hsame, hrdb'⟩ := hp.record
  refine ⟨h.rdbId ▸ hc.rdbId, fun st hst => ?_, fun st hst label id hl => ?_, fun label id ht => ?_, fun label id ht => ?_⟩
  · rw [h.state] at hst
    cases hst
    rw [h.rdbId, hrdb', hsame, hrdb]
    exact ⟨rfl, hsd⟩
  · rw [h.state] at hst
    cases hst
    have hold : (startRecord newId w).vectorStores.lookup label = some id →
        ∃ dir, dep.dirOf label = some dir ∧ w'.idAt dep dir = some id := by
      intro hlookup
      cases hst : w.state with
      | none => rw [startRecord, hst] at hlookup; exact absurd hlookup (by simp)
      | some st =>
        rw [hstart st hst] at hlookup
        obtain ⟨dir, hdir, hid⟩ := hc.stores st hst label id hlookup
        exact ⟨dir, hdir, h.kept dir id hid⟩
    by_cases hmem : label ∈ labels
    · cases hdir : dep.dirOf label with
      | none => exact hdir ▸ hold ((hp.untouched label (.inr hdir)).symm.trans hl)
      | some dir =>
        obtain ⟨i, hi, hid⟩ := h.known label hmem dir hdir
        rw [hl] at hi
        cases hi
        exact ⟨dir, rfl, hid⟩
    · exact hold ((hp.untouched label (.inl hmem)).symm.trans hl)
  · rw [h.tables] at ht
    rw [h.rdbId]
    exact hc.tableRdbId label id ht
  · rw [h.tables] at ht
    obtain ⟨st, hst, hid⟩ := hc.tableStateDirId label id ht
    refine ⟨c.state, h.state, ?_⟩
    rw [hsame, hstart st hst, hid]

/-- The first two kinds of writes, all of them. -/
theorem staged {c : CheckState} (hs : IdSupply newId)
    (hp : Planning newId dep w labels (startRecord newId w) labels c) (hone : OnePath dep labels w) (drawn : Nat)
    {state : Option StateDirRecord} (hstate : state = some c.state ∨ (state = none ∧ w.state = some c.state)) :
    Staged dep w labels c (({ w with drawn } : World).writeAll dep
      (c.dirIds.map (fun e => .dirId e.2.1 e.2.2) ++ state.toList.map .state)) := by
  have hdirs : Dirs dep w c.dirIds (({ w with drawn } : World).writeAll dep (c.dirIds.map fun e => .dirId e.2.1 e.2.2)) :=
    Dirs.writeAll c.dirIds _ (fun e he => he) ⟨rfl, rfl, rfl, fun d => .inl rfl⟩
  have hwritten : ∀ e ∈ c.dirIds, (({ w with drawn } : World).writeAll dep
      (c.dirIds.map fun e => .dirId e.2.1 e.2.2)).idAt dep e.2.1 = some e.2.2 := by
    intro e he
    have hfile := writeAll_dirId dep (dep.resolve e.2.1) e.2.2 c.dirIds { w with drawn }
      (fun e' he' hr => hp.entries_agree hone he' he hr) ⟨e, he, rfl⟩
    obtain ⟨-, -, -, -, n, -, -, hn⟩ := hp.dirIds e.1 e.2.1 e.2.2 he
    unfold World.idAt
    rw [hfile, hn, hs.read]
  rw [writeAll_append]
  generalize hw₁ : ({ w with drawn } : World).writeAll dep (c.dirIds.map fun e => .dirId e.2.1 e.2.2) = w₁ at hdirs hwritten
  have hknown : ∀ l ∈ labels, ∀ dir, dep.dirOf l = some dir →
      ∃ id, c.state.vectorStores.lookup l = some id ∧ w₁.idAt dep dir = some id := by
    intro l hl dir hdir
    obtain ⟨id, hid, ha⟩ := hp.known l hl dir hdir
    refine ⟨id, hid, ?_⟩
    rcases hp.assigned dir id ha with hw | ⟨l', hl'⟩
    · exact hdirs.idAt hp hw
    · exact hwritten _ hl'
  rcases hstate with rfl | ⟨rfl, hw⟩
  · exact ⟨hdirs.rdbId, hdirs.tables, rfl, hdirs.dirIds, fun dir id => hdirs.idAt hp, hknown⟩
  · exact ⟨hdirs.rdbId, hdirs.tables, hdirs.state.trans hw, hdirs.dirIds, fun dir id => hdirs.idAt hp, hknown⟩

/-! ## The manifests -/

/-- A set with some of the manifests planned. -/
structure Manifests (w : World) (sd : String) (labels : List String) (w' : World) : Prop where
  rdbId : w'.rdbId = w.rdbId
  state : w'.state = w.state
  dirIds : w'.dirIds = w.dirIds
  drawn : w'.drawn = w.drawn
  tables : ∀ l, w'.tables l = if l ∈ labels then ⟨some w.rdbId, some sd⟩ else w.tables l

theorem manifests (dep : Deployment) (sd : String) : ∀ (sub : List String) (w : World),
    Manifests w sd sub (w.writeAll dep (sub.map fun l => .table l w.rdbId sd))
  | [], w => ⟨rfl, rfl, rfl, rfl, fun l => by simp [World.writeAll]⟩
  | l :: sub, w => by
    have ih := manifests dep sd sub (w.write dep (.table l w.rdbId sd))
    refine ⟨ih.rdbId, ih.state, ih.dirIds, ih.drawn, fun l' => ?_⟩
    have h := ih.tables l'
    by_cases hmem : l' ∈ sub
    · rw [if_pos hmem] at h
      rw [if_pos (List.mem_cons_of_mem _ hmem)]
      exact h
    · rw [if_neg hmem] at h
      refine h.trans ?_
      by_cases hl : l' = l
      · subst hl
        rw [if_pos (List.mem_cons_self ..)]
        exact Function.update_self ..
      · rw [if_neg (by simp [hl, hmem])]
        exact Function.update_of_ne hl ..

theorem Manifests.consistent {st : StateDirRecord} (hc : Consistent dep w) (hst : w.state = some st)
    (h : Manifests w st.stateDirId labels w') : Consistent dep w' where
  rdbId := h.rdbId ▸ hc.rdbId
  state := by rw [h.state, h.rdbId]; exact hc.state
  stores := by
    unfold World.idAt
    rw [h.state, h.dirIds]
    exact hc.stores
  tableRdbId := fun label id ht => by
    rw [h.rdbId]
    rw [h.tables] at ht
    split at ht
    · rw [Option.filter_eq_some_iff] at ht
      exact (Option.some.inj ht.1).symm
    · exact hc.tableRdbId label id ht
  tableStateDirId := fun label id ht => by
    rw [h.state]
    rw [h.tables] at ht
    split at ht
    · rw [Option.filter_eq_some_iff] at ht
      exact ⟨st, hst, Option.some.inj ht.1⟩
    · exact hc.tableStateDirId label id ht

/-! ## One run -/

@[simp] theorem World.writeAll_drawn (dep : Deployment) : ∀ (l : List Write) (w : World), (w.writeAll dep l).drawn = w.drawn
  | [], _ => rfl
  | write :: l, w => (writeAll_drawn dep l (w.write dep write)).trans (by cases write <;> rfl)

/-- The identifiers of a set that writes part of a plan were drawn. -/
theorem Planning.drawnAfter {c : CheckState} (hs : IdSupply newId) (hc : Consistent dep w)
    (hp : Planning newId dep w labels (startRecord newId w) labels c) (hd : Drawn newId w)
    (hstate : w'.state = w.state ∨ w'.state = some c.state) (hdrawn : w'.drawn = c.drawn)
    (hdirs : ∀ d, w'.dirIds d = w.dirIds d ∨ ∃ e ∈ c.dirIds, dep.resolve e.2.1 = d ∧ w'.dirIds d = some e.2.2) :
    Drawn newId w' where
  state := fun st hst => by
    rw [hdrawn]
    rcases hstate with hsame | hnew
    · rw [hsame] at hst
      obtain ⟨n, hn, hid⟩ := hd.state st hst
      exact ⟨n, lt_of_lt_of_le hn hp.drawn, hid⟩
    · rw [hnew] at hst
      cases hst
      rw [hp.record.2.1]
      cases hst : w.state with
      | none => exact ⟨w.drawn, hp.started hst, by rw [startRecord, hst]⟩
      | some st =>
        rw [(startRecord_spec hs hc).2.2 st hst]
        obtain ⟨n, hn, hid⟩ := hd.state st hst
        exact ⟨n, lt_of_lt_of_le hn hp.drawn, hid⟩
  dirIds := fun d id hid => by
    rw [hdrawn]
    rcases hdirs d with hsame | ⟨e, he, -, hnew⟩
    · rw [hsame] at hid
      obtain ⟨n, hn, hid⟩ := hd.dirIds d id hid
      exact ⟨n, lt_of_lt_of_le hn hp.drawn, hid⟩
    · obtain ⟨-, -, -, -, n, hn, -, hen⟩ := hp.dirIds e.1 e.2.1 e.2.2 he
      rw [hnew, hen, hs.read] at hid
      cases hid
      exact ⟨n, hn, rfl⟩

/-- The first writes of a run: part of the identifier files, or all of them, the state file and part of the manifests. -/
theorem take_writes (dirs tables : List Write) (state : Option Write) (n : Nat) :
    (∃ m, (dirs ++ state.toList ++ tables).take n = dirs.take m) ∨
      ∃ m, (dirs ++ state.toList ++ tables).take n = dirs ++ state.toList ++ tables.take m := by
  by_cases hn : n ≤ dirs.length
  · refine .inl ⟨n, ?_⟩
    rw [List.append_assoc, List.take_append_of_le_length hn]
  · have hlen : (dirs ++ state.toList).length ≤ n := by
      cases state with
      | none => simp; omega
      | some s => simp; omega
    exact .inr ⟨n - (dirs ++ state.toList).length, by rw [List.take_append, List.take_of_length_le hlen]⟩

theorem plannedWrites_eq {c : CheckState} {state : Option StateDirRecord}
    (hstate : state = some c.state ∨ (state = none ∧ w.state = some c.state)) :
    plannedWrites ⟨state, c.dirIds, c.tables⟩ (observe dep w labels) =
      c.dirIds.map (fun e => .dirId e.2.1 e.2.2) ++ (state.map .state).toList ++
        c.tables.map fun l => .table l w.rdbId c.state.stateDirId := by
  rcases hstate with rfl | ⟨rfl, hw⟩
  · rfl
  · simp [plannedWrites, observe, hw]

/-- The manifest writes of a plan. -/
def tableWrites (w : World) (c : CheckState) : List Write :=
  c.tables.map fun l => .table l w.rdbId c.state.stateDirId

/-- A staged set with the first of its manifests. -/
theorem Staged.manifests {c : CheckState} {w₂ : World} (h : Staged dep w labels c w₂) (m : Nat) :
    Manifests w₂ c.state.stateDirId (c.tables.take m) (w₂.writeAll dep ((tableWrites w c).take m)) := by
  have hm := EmbeddingSpace.manifests dep c.state.stateDirId (c.tables.take m) w₂
  rw [h.rdbId] at hm
  unfold tableWrites
  rw [← List.map_take]
  exact hm

theorem Staged.partly {c : CheckState} {w₂ : World} (hs : IdSupply newId) (hc : Consistent dep w) (hd : Drawn newId w)
    (hp : Planning newId dep w labels (startRecord newId w) labels c) (h : Staged dep w labels c w₂)
    (hdrawn : w₂.drawn = c.drawn) (m : Nat) :
    Consistent dep (w₂.writeAll dep ((tableWrites w c).take m)) ∧
      Drawn newId (w₂.writeAll dep ((tableWrites w c).take m)) := by
  have hm := h.manifests m
  refine ⟨hm.consistent (h.consistent hs hc hp) h.state, ?_⟩
  refine hp.drawnAfter hs hc hd (.inr (hm.state.trans h.state)) (hm.drawn.trans hdrawn) fun d => ?_
  rw [hm.dirIds]
  exact h.dirIds d

/-- A staged set with all its manifests is settled. -/
theorem Staged.settled {c : CheckState} {w₂ : World} (hs : IdSupply newId) (hc : Consistent dep w) (hd : Drawn newId w)
    (hp : Planning newId dep w labels (startRecord newId w) labels c) (h : Staged dep w labels c w₂)
    (hdrawn : w₂.drawn = c.drawn) : Settled dep labels (w₂.writeAll dep (tableWrites w c)) := by
  have hlen : (tableWrites w c).take c.tables.length = tableWrites w c :=
    List.take_of_length_le (by simp [tableWrites])
  have hm := h.manifests c.tables.length
  have hcons := (h.partly hs hc hd hp hdrawn c.tables.length).1
  rw [hlen] at hm hcons
  rw [List.take_length] at hm
  generalize w₂.writeAll dep (tableWrites w c) = w' at hm hcons
  have hstate : w'.state = some c.state := hm.state.trans h.state
  have hrdb : w'.rdbId ≠ "" := hcons.rdbId
  refine ⟨hcons, c.state, hstate, fun l hl => ?_⟩
  have hknown : ∀ dir, dep.dirOf l = some dir →
      ∃ id, c.state.vectorStores.lookup l = some id ∧ w'.idAt dep dir = some id := by
    unfold World.idAt
    rw [hm.dirIds]
    exact h.known l hl
  have htable := hm.tables l
  by_cases hmem : l ∈ c.tables
  · rw [if_pos hmem] at htable
    have hsd : c.state.stateDirId ≠ "" := (hcons.state _ hstate).2
    refine ⟨?_, ?_, hknown⟩
    · unfold observeStore
      rw [htable, ← hm.rdbId]
      exact filter_some_ne_empty hrdb
    · unfold observeStore
      rw [htable]
      exact filter_some_ne_empty hsd
  · rw [if_neg hmem, h.tables] at htable
    have hsame : (observeStore dep w' l).tableRdbId = (observeStore dep w l).tableRdbId ∧
        (observeStore dep w' l).tableStateDirId = (observeStore dep w l).tableStateDirId := by
      unfold observeStore
      rw [htable]
      exact ⟨rfl, rfl⟩
    have hboth := mt (hp.unrecorded l hl) hmem
    rw [not_or] at hboth
    obtain ⟨i, hi⟩ := Option.ne_none_iff_exists'.1 hboth.1
    obtain ⟨j, hj⟩ := Option.ne_none_iff_exists'.1 hboth.2
    refine ⟨?_, ?_, hknown⟩
    · rw [hsame.1, hi, hc.tableRdbId l i hi, ← h.rdbId, ← hm.rdbId]
    · rw [hsame.2, hj]
      obtain ⟨st, hst, hid⟩ := hc.tableStateDirId l j hj
      rw [hp.record.2.1, (startRecord_spec hs hc).2.2 st hst, hid]

/-- The identifier files of a plan, then its state file. -/
def frontWrites (c : CheckState) (state : Option StateDirRecord) : List Write :=
  c.dirIds.map (fun e => .dirId e.2.1 e.2.2) ++ (state.map .state).toList

/-- What a run over a consistent set writes. -/
theorem verifyAndRecord_eq (newId : Nat → String) (hc : Consistent dep w) (hn : labels.Nodup) (stop : Option Nat) :
    ∃ state, (state = some (planned newId dep w labels).state ∨
        (state = none ∧ w.state = some (planned newId dep w labels).state)) ∧
      verifyAndRecord newId dep labels stop w = (.ok (),
        ({ w with drawn := (planned newId dep w labels).drawn } : World).writeAll dep (match stop with
          | some n => (frontWrites (planned newId dep w labels) state ++ tableWrites w (planned newId dep w labels)).take n
          | none => frontWrites (planned newId dep w labels) state ++ tableWrites w (planned newId dep w labels))) := by
  have hdrawn : drawnAfter newId w.drawn (observe dep w labels) = (planned newId dep w labels).drawn := rfl
  have hstate : (if w.state ≠ some (planned newId dep w labels).state then some (planned newId dep w labels).state
      else none) = some (planned newId dep w labels).state ∨
      ((if w.state ≠ some (planned newId dep w labels).state then some (planned newId dep w labels).state
        else none) = none ∧ w.state = some (planned newId dep w labels).state) := by
    by_cases h : w.state = some (planned newId dep w labels).state
    · exact .inr ⟨if_neg (not_not.2 h), h⟩
    · exact .inl (if_pos h)
  refine ⟨_, hstate, ?_⟩
  unfold verifyAndRecord
  dsimp only
  rw [hdrawn, check_consistent newId hc hn]
  dsimp only
  rw [plannedWrites_eq hstate]
  rfl

/-- **One run** over a consistent set: it succeeds, wherever it is interrupted it leaves a consistent set, and
uninterrupted it leaves a settled one. -/
theorem verifyAndRecord_consistent (hs : IdSupply newId) (hc : Consistent dep w) (hd : Drawn newId w)
    (hn : labels.Nodup) (hone : OnePath dep labels w) (stop : Option Nat) :
    ∃ w', verifyAndRecord newId dep labels stop w = (.ok (), w') ∧ Consistent dep w' ∧ Drawn newId w' ∧
      (stop = none → Settled dep labels w') := by
  have hp := planning newId hc hn
  obtain ⟨state, hstate, hrun⟩ := verifyAndRecord_eq newId hc hn stop
  rw [hrun]
  clear hrun
  generalize planned newId dep w labels = c at hp hstate
  have hstaged := staged hs hp hone c.drawn hstate
  have htoList : state.toList.map Write.state = (state.map Write.state).toList := by cases state <;> rfl
  rw [htoList] at hstaged
  unfold frontWrites
  generalize hfront : c.dirIds.map (fun e => Write.dirId e.2.1 e.2.2) = dirs at hstaged
  have hafter : (({ w with drawn := c.drawn } : World).writeAll dep
      (dirs ++ (state.map Write.state).toList)).drawn = c.drawn := World.writeAll_drawn _ _ _
  cases stop with
  | some n =>
    dsimp only
    refine ⟨_, rfl, ?_⟩
    rcases take_writes dirs (tableWrites w c) (state.map Write.state) n with ⟨m, hm⟩ | ⟨m, hm⟩
    · have hdirs : Dirs dep w c.dirIds (({ w with drawn := c.drawn } : World).writeAll dep (dirs.take m)) := by
        rw [← hfront, ← List.map_take]
        exact Dirs.writeAll _ _ (fun e he => List.mem_of_mem_take he) ⟨rfl, rfl, rfl, fun d => .inl rfl⟩
      rw [hm]
      refine ⟨hdirs.consistent hp hc, ?_, fun h => nomatch h⟩
      exact hp.drawnAfter hs hc hd (.inl hdirs.state) (World.writeAll_drawn _ _ _) hdirs.dirIds
    · rw [hm, writeAll_append]
      obtain ⟨hcons, hdr⟩ := hstaged.partly hs hc hd hp hafter m
      exact ⟨hcons, hdr, fun h => nomatch h⟩
  | none =>
    dsimp only
    have hlen : (tableWrites w c).take (tableWrites w c).length = tableWrites w c := List.take_length
    obtain ⟨hcons, hdr⟩ := hstaged.partly hs hc hd hp hafter (tableWrites w c).length
    rw [hlen, ← writeAll_append] at hcons hdr
    refine ⟨_, rfl, hcons, hdr, fun _ => ?_⟩
    rw [writeAll_append]
    exact hstaged.settled hs hc hd hp hafter

end MemoryStore.EmbeddingSpace
