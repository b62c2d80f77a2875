/-
Which sessions an incremental import reads: those that changed, and their
ancestors, each after its parent. The walk up the parents carries a step budget;
that it never runs out is a theorem.
-/
import MemoryStore.AgentImport.OpenCode.Rows
import MemoryStore.Lib.Ascent

namespace MemoryStore.AgentImport.OpenCode

/-- The arguments that discovery and reading go by. -/
structure Source where
  sessionId : Option Text
  includeArchived : Bool
  requestedSince : Option Int

/-- `IncrementalDiscovery`; the sets are lists. -/
structure IncrementalDiscovery where
  seen : List Text
  visiting : List Text
  forcedAncestors : List Text
  inputs : List Text
  deriving DecidableEq, Repr

/-- What `discover` answers, and the ancestors it remembers. -/
structure Discovered where
  inputs : List Text
  forcedAncestorIds : List Text
  deriving DecidableEq, Repr

section Discover

variable (db : Database) (source : Source)

/-- `session_is_candidate`, of a session that is there. -/
def sessionIsCandidate (row : SessionRow) : Bool :=
  match source.requestedSince with
  | none => true
  | some since => db.changedSince row since

/-- Whether the session of an id is archived and archived ones are left out. -/
def leftOut (archivedAtMs : Option Int) : Bool := archivedAtMs.isSome && !source.includeArchived

/-- One pass of the selection: a malformed id is kept, so that reading it reports the error. -/
def selects (row : SessionRow) : Bool :=
  !sessionId row.id ||
    (db.readSessionRow row.id).any fun found => !leftOut source found.archivedAtMs && sessionIsCandidate db source found

/-- `selected_ids` -/
def selectedIds : List Text :=
  ((db.sessions.insertionSort fun a b => createdBefore (a.createdAtMs, a.id) (b.createdAtMs, b.id)).filter
    (selects db source)).map SessionRow.id

/-- An input that is read only to report its error. -/
def IncrementalDiscovery.report (d : IncrementalDiscovery) (id : Text) : IncrementalDiscovery :=
  { d with seen := id :: d.seen, inputs := d.inputs ++ [id] }

/-- The end of `append_incremental_session`. -/
def IncrementalDiscovery.finish (selected : List Text) (id : Text) (d : IncrementalDiscovery) : IncrementalDiscovery :=
  let d := { d with visiting := d.visiting.erase id }
  if id ∈ d.seen then d
  else
    { d with
        seen := id :: d.seen
        forcedAncestors := if id ∈ selected then d.forcedAncestors else id :: d.forcedAncestors
        inputs := d.inputs ++ [id] }

/-- `append_incremental_session` -/
def appendIncrementalSession (selected : List Text) : Nat → IncrementalDiscovery → Text → Option IncrementalDiscovery
  | 0, _, _ => none
  | steps + 1, d, id =>
    if id ∈ d.seen ∨ id ∈ d.visiting then some d
    else if !sessionId id then some (d.report id)
    else match db.sessionParentAndArchived id with
      | none => some (d.report id)
      | some (parentId, archivedAtMs) =>
        if leftOut source archivedAtMs then some d
        else
          let visiting := { d with visiting := id :: d.visiting }
          match parentId with
          | none => some (visiting.finish selected id)
          | some parentId => (appendIncrementalSession selected steps visiting parentId).map fun d => d.finish selected id

/-- The loop over the selected sessions. -/
def appendAll (selected : List Text) (steps : Nat) : List Text → IncrementalDiscovery → Option IncrementalDiscovery
  | [], d => some d
  | id :: ids, d => (appendIncrementalSession db source selected steps d id).bind (appendAll selected steps ids)

/-- `discover` -/
def discover (steps : Nat) : Option (Except String Discovered) :=
  match source.sessionId with
  | some id =>
    if (db.findSession id).isSome then some (.ok ⟨[id], []⟩)
    else some (.error s!"OpenCode session does not exist: {String.ofList id}")
  | none =>
    match source.requestedSince with
    | none => some (.ok ⟨selectedIds db source, []⟩)
    | some _ =>
      (appendAll db source (selectedIds db source) steps (selectedIds db source) ⟨[], [], [], []⟩).map fun d =>
        .ok ⟨d.inputs, d.forcedAncestors⟩

/-- What `read_session` does with a session: it is skipped, or its rows are normalized. -/
inductive Reading where
  | skipped (reason : String)
  | normalized (session : SessionRow)
  deriving DecidableEq, Repr

/-- `read_session`, up to the rows it normalizes. -/
def readSession (forcedAncestorIds : List Text) (id : Text) : Except String Reading := do
  validateId id "session" "ses".toList
  match db.readSessionRow id with
  | none => .error s!"read OpenCode session {String.ofList id}"
  | some session =>
    if leftOut source session.archivedAtMs then pure (.skipped "archived")
    else if id ∉ forcedAncestorIds && !sessionIsCandidate db source session then
      pure (.skipped "unchanged since requested timestamp")
    else pure (.normalized session)

end Discover

end MemoryStore.AgentImport.OpenCode

/-!
Incremental discovery finds the selected sessions and their ancestors, each once
and after its parent, and reading then imports the ones that can be read. A
malformed id only comes to be reported: it is neither placed nor imported.
-/

namespace MemoryStore.AgentImport.OpenCode

open Relation (ReflTransGen TransGen)

section Discover

variable (db : Database) (source : Source)

/-- The session of a well-formed id that is there. -/
def Known (id : Text) : Prop := sessionId id = true ∧ (db.readSessionRow id).isSome

/-- A session that is excluded as archived. -/
def Excluded (id : Text) : Prop :=
  sessionId id = true ∧ ∃ row, db.readSessionRow id = some row ∧ leftOut source row.archivedAtMs = true

/-- The parent reference of a session. -/
def Refers (id parentId : Text) : Prop := ∃ row, db.readSessionRow id = some row ∧ row.parentId = some parentId

/-- A parent reference that is followed: from a session that is there, well formed and not excluded. -/
def Follows (id parentId : Text) : Prop := sessionId id = true ∧ ¬Excluded db source id ∧ Refers db id parentId

variable {db source}

theorem Follows.unique {id p p' : Text} (h : Follows db source id p) (h' : Follows db source id p') : p' = p := by
  obtain ⟨-, -, row, hrow, hp⟩ := h
  obtain ⟨-, -, row', hrow', hp'⟩ := h'
  rw [Option.some.inj (hrow.symm.trans hrow')] at hp
  exact Option.some.inj (hp'.symm.trans hp)

theorem refers_of_follows {id p : Text} (h : ReflTransGen (Follows db source) id p) : ReflTransGen (Refers db) id p :=
  ReflTransGen.mono (fun _ _ hf => And.right (And.right hf)) _ _ h

/-! ## One walk -/

/-- What a call of `append_incremental_session` does. -/
structure Appends (db : Database) (source : Source) (selected : List Text) (id : Text) (d d' : IncrementalDiscovery) :
    Prop where
  visiting : d'.visiting = d.visiting
  added : ∃ added, Ascent.Adds (Follows db source) (Excluded db source) d.visiting d.seen id added ∧
    d'.inputs = d.inputs ++ added ∧ (∀ x, x ∈ d'.seen ↔ x ∈ d.seen ∨ x ∈ added) ∧
    ∀ x, x ∈ d'.forcedAncestors ↔ x ∈ d.forcedAncestors ∨ x ∈ added ∧ Known db x ∧ x ∉ selected

variable {selected : List Text}

theorem appends_nothing {id : Text} {d : IncrementalDiscovery}
    (h : id ∈ d.seen ∨ id ∈ d.visiting ∨ Excluded db source id) : Appends db source selected id d d :=
  ⟨rfl, [], .nothing h, by simp, by simp, by simp⟩

theorem appends_report {id : Text} {d : IncrementalDiscovery} (hseen : id ∉ d.seen) (hvisiting : id ∉ d.visiting)
    (hunknown : ¬Known db id) : Appends db source selected id d (d.report id) := by
  have hleaf : ∀ p, ¬Follows db source id p := by
    rintro p ⟨hid, -, row, hrow, -⟩
    exact hunknown ⟨hid, by rw [hrow]; rfl⟩
  have hout : ¬Excluded db source id := by
    rintro ⟨hid, row, hrow, -⟩
    exact hunknown ⟨hid, by rw [hrow]; rfl⟩
  refine ⟨rfl, [id], .leaf hseen hvisiting hout hleaf, rfl, fun x => ?_, fun x => ?_⟩
  · show x ∈ id :: d.seen ↔ _
    rw [List.mem_cons, List.mem_singleton, or_comm]
  · constructor
    · exact .inl
    · rintro (hx | ⟨hx, hknown, -⟩)
      · exact hx
      · exact absurd (List.mem_singleton.1 hx ▸ hknown) hunknown

/-- The end of a call, after the parent's call or without one. -/
theorem appends_finish {id : Text} {d d' : IncrementalDiscovery} {added : List Text} (hvisiting : id ∉ d.visiting)
    (hknown : Known db id) (hd' : d'.visiting = id :: d.visiting)
    (hadds : Ascent.Adds (Follows db source) (Excluded db source) d.visiting d.seen id (added ++ [id]))
    (hinputs : d'.inputs = d.inputs ++ added) (hseen : ∀ x, x ∈ d'.seen ↔ x ∈ d.seen ∨ x ∈ added)
    (hforced : ∀ x, x ∈ d'.forcedAncestors ↔ x ∈ d.forcedAncestors ∨ x ∈ added ∧ Known db x ∧ x ∉ selected) :
    Appends db source selected id d (d'.finish selected id) := by
  have hnew : id ∉ d'.seen := by
    rw [hseen]
    rintro (h | h)
    · exact (hadds.fresh id (by simp)).1 h
    · have hnodup := List.nodup_append.1 hadds.nodup
      exact hnodup.2.2 id h id (by simp) rfl
  unfold IncrementalDiscovery.finish
  dsimp only
  rw [if_neg hnew]
  refine ⟨by simp [hd'], added ++ [id], hadds, by simp [hinputs], fun x => ?_, fun x => ?_⟩
  · show x ∈ id :: d'.seen ↔ _
    rw [List.mem_cons, hseen, List.mem_append, List.mem_singleton]
    tauto
  · dsimp only
    by_cases hselected : id ∈ selected
    · rw [if_pos hselected, hforced, List.mem_append, List.mem_singleton]
      constructor
      · tauto
      · rintro (h | ⟨h | rfl, hk, hs⟩)
        · exact .inl h
        · exact .inr ⟨h, hk, hs⟩
        · exact absurd hselected hs
    · rw [if_neg hselected, List.mem_cons, hforced, List.mem_append, List.mem_singleton]
      constructor
      · rintro (rfl | h)
        · exact .inr ⟨.inr rfl, hknown, hselected⟩
        · tauto
      · tauto

/-- The sessions that are not on the path. -/
def remaining (db : Database) (visiting : List Text) : Nat := db.sessions.countP fun row => row.id ∉ visiting

theorem remaining_lt {visiting : List Text} {id : Text} {row : SessionRow} (hrow : db.readSessionRow id = some row)
    (hid : id ∉ visiting) : remaining db (id :: visiting) < remaining db visiting := by
  obtain ⟨found, hfound, -⟩ := Option.map_eq_some_iff.1 hrow
  have hmem := List.mem_of_find?_eq_some hfound
  have hfoundId : found.id = id := by simpa using List.find?_some hfound
  have hsub : ∀ r : SessionRow, r ∈ db.sessions → decide (r.id ∉ id :: visiting) = true → decide (r.id ∉ visiting) = true := by
    intro r _ h
    rw [decide_eq_true_eq] at h ⊢
    exact fun hr => h (List.mem_cons_of_mem _ hr)
  unfold remaining
  obtain ⟨before, after, heq⟩ := List.append_of_mem hmem
  rw [heq, List.countP_append, List.countP_append, List.countP_cons, List.countP_cons]
  have h₁ : before.countP (fun r => decide (r.id ∉ id :: visiting)) ≤ before.countP fun r => decide (r.id ∉ visiting) :=
    List.countP_mono_left fun r hr => hsub r (by rw [heq]; simp [hr])
  have h₂ : after.countP (fun r => decide (r.id ∉ id :: visiting)) ≤ after.countP fun r => decide (r.id ∉ visiting) :=
    List.countP_mono_left fun r hr => hsub r (by rw [heq]; simp [hr])
  have hon : decide (found.id ∉ id :: visiting) = false := by simp [hfoundId]
  have hoff : decide (found.id ∉ visiting) = true := by simp [hfoundId, hid]
  rw [hon, hoff, if_neg (by decide), if_pos rfl]
  omega

/-- **A call ends, and adds what a walk adds.** -/
theorem appendIncrementalSession_spec : ∀ (steps : Nat) (d : IncrementalDiscovery) (id : Text),
    remaining db d.visiting < steps → (∀ x ∈ d.visiting, ReflTransGen (Follows db source) x id) →
      ∃ d', appendIncrementalSession db source selected steps d id = some d' ∧ Appends db source selected id d d'
  | 0, _, _, h, _ => absurd h (Nat.not_lt_zero _)
  | steps + 1, d, id, hsteps, hleads => by
    rw [appendIncrementalSession]
    by_cases hstop : id ∈ d.seen ∨ id ∈ d.visiting
    · rw [if_pos hstop]
      exact ⟨d, rfl, appends_nothing (hstop.imp_right .inl)⟩
    rw [if_neg hstop]
    obtain ⟨hseen, hvisiting⟩ := not_or.1 hstop
    cases hid : sessionId id with
    | false => exact ⟨_, rfl, appends_report hseen hvisiting fun hk => by simp [Known, hid] at hk⟩
    | true =>
      rw [if_neg (by decide)]
      unfold Database.sessionParentAndArchived
      cases hrow : db.readSessionRow id with
      | none => exact ⟨_, rfl, appends_report hseen hvisiting fun hk => by simp [Known, hrow] at hk⟩
      | some row =>
        have hknown : Known db id := ⟨hid, by rw [hrow]; rfl⟩
        rw [Option.map_some]
        dsimp only
        cases hleft : leftOut source row.archivedAtMs with
        | true => exact ⟨d, rfl, appends_nothing (.inr (.inr ⟨hid, row, hrow, hleft⟩))⟩
        | false =>
          have hout : ¬Excluded db source id := by
            rintro ⟨-, row', hrow', hleft'⟩
            rw [Option.some.inj (hrow.symm.trans hrow'), hleft'] at hleft
            exact absurd hleft (by decide)
          rw [if_neg (by decide)]
          cases hparent : row.parentId with
          | none =>
            have hleaf : ∀ p, ¬Follows db source id p := by
              rintro p ⟨-, -, row', hrow', hp⟩
              rw [← Option.some.inj (hrow.symm.trans hrow'), hparent] at hp
              simp at hp
            have hadds : Ascent.Adds (Follows db source) (Excluded db source) d.visiting d.seen id ([] ++ [id]) :=
              .leaf hseen hvisiting hout hleaf
            exact ⟨_, rfl, appends_finish hvisiting hknown rfl hadds (by simp) (by simp) (by simp)⟩
          | some parent =>
            have hfollows : Follows db source id parent := ⟨hid, hout, row, hrow, hparent⟩
            have hlt := remaining_lt hrow hvisiting
            obtain ⟨d', hcall, hvisiting', added, hadds, hinputs, hseen', hforced⟩ :=
              appendIncrementalSession_spec steps { d with visiting := id :: d.visiting } parent (by
                dsimp only
                omega) fun x hx => by
                rcases List.mem_cons.1 hx with rfl | hx
                · exact .single hfollows
                · exact (hleads x hx).tail hfollows
            dsimp only
            rw [hcall]
            exact ⟨_, rfl, appends_finish hvisiting hknown hvisiting'
              (.up hseen hvisiting hout hleads (fun p hp => hfollows.unique hp) hadds hfollows) hinputs hseen' hforced⟩

/-! ## All walks -/

/-- What is found once the walks from some sessions are done. -/
structure Found (db : Database) (source : Source) (selected starts : List Text) (d : IncrementalDiscovery) : Prop where
  visiting : d.visiting = []
  seen : ∀ x, x ∈ d.seen ↔ x ∈ d.inputs
  forced : ∀ x, x ∈ d.forcedAncestors ↔ x ∈ d.inputs ∧ Known db x ∧ x ∉ selected
  climbed : Ascent.Climbed (Follows db source) (Excluded db source) starts d.inputs

theorem appendAll_spec {steps : Nat} (hsteps : remaining db [] < steps) : ∀ (ids starts : List Text)
    (d : IncrementalDiscovery), Found db source selected starts d →
      ∃ d', appendAll db source selected steps ids d = some d' ∧ Found db source selected (starts ++ ids) d'
  | [], starts, d, h => ⟨d, rfl, by rw [List.append_nil]; exact h⟩
  | id :: ids, starts, d, h => by
    obtain ⟨d₁, hcall, hvisiting, added, hadds, hinputs, hseen, hforced⟩ :=
      @appendIncrementalSession_spec db source selected steps d id (by rw [h.visiting]; exact hsteps)
        fun x hx => absurd (h.visiting ▸ hx) List.not_mem_nil
    have hadds' : Ascent.Adds (Follows db source) (Excluded db source) [] d.inputs id added := by
      rw [h.visiting] at hadds
      exact hadds.congr h.seen
    have hfound : Found db source selected (starts ++ [id]) d₁ := {
      visiting := hvisiting.trans h.visiting
      seen := fun x => by rw [hseen, h.seen, hinputs, List.mem_append]
      forced := fun x => by
        rw [hforced, h.forced, hinputs, List.mem_append]
        tauto
      climbed := hinputs ▸ h.climbed.add hadds' }
    obtain ⟨d', hrest, hall⟩ := appendAll_spec hsteps ids (starts ++ [id]) d₁ hfound
    refine ⟨d', ?_, by rw [List.append_assoc] at hall; exact hall⟩
    rw [appendAll, hcall]
    exact hrest

/-! ## Discovery and reading -/

/-- **What incremental discovery finds**: the inputs are the selected sessions and what is reached from them past
sessions that are not excluded, each once; well-formed ones come after their parents, but for parent cycles, and
those that are there are imported. -/
structure Covers (db : Database) (source : Source) (d : Discovered) : Prop where
  once : d.inputs.Nodup
  mem_iff : ∀ id, id ∈ d.inputs ↔ id ∈ selectedIds db source ∨
    ¬Excluded db source id ∧ ∃ start ∈ selectedIds db source, TransGen (Follows db source) start id
  afterParent : ∀ before id after parentId, d.inputs = before ++ id :: after → sessionId id = true →
    Refers db id parentId → parentId ∈ d.inputs → parentId ∈ before ∨ ReflTransGen (Refers db) parentId id
  imported : ∀ id row, readSession db source d.forcedAncestorIds id = .ok (.normalized row) ↔
    id ∈ d.inputs ∧ sessionId id = true ∧ db.readSessionRow id = some row

/-- A well-formed id is selected when its session is there, not left out and a candidate. -/
theorem mem_selectedIds {id : Text} (hid : sessionId id = true) : id ∈ selectedIds db source ↔
    ∃ row, db.readSessionRow id = some row ∧ leftOut source row.archivedAtMs = false ∧
      sessionIsCandidate db source row = true := by
  unfold selectedIds
  rw [List.mem_map]
  constructor
  · rintro ⟨row, hrow, rfl⟩
    have hselects := List.of_mem_filter hrow
    simp only [selects, hid, Bool.not_true, Bool.false_or, Option.any_eq_true, Bool.and_eq_true,
      Bool.not_eq_true'] at hselects
    exact hselects
  · rintro ⟨row, hrow, hleft, hcandidate⟩
    obtain ⟨found, hfound, -⟩ := Option.map_eq_some_iff.1 hrow
    have hfoundId : found.id = id := by simpa using List.find?_some hfound
    refine ⟨found, List.mem_filter.2 ⟨?_, ?_⟩, hfoundId⟩
    · rw [List.mem_insertionSort]
      exact List.mem_of_find?_eq_some hfound
    · simp [selects, hfoundId, hrow, hleft, hcandidate]

/-- A selected session is not excluded. -/
theorem not_excluded_of_selected {id : Text} (h : id ∈ selectedIds db source) : ¬Excluded db source id := by
  rintro ⟨hid, row, hrow, hleft⟩
  obtain ⟨row', hrow', hleft', -⟩ := (mem_selectedIds hid).1 h
  rw [Option.some.inj (hrow.symm.trans hrow'), hleft'] at hleft
  exact absurd hleft (by decide)

/-- A session that is read is there, not left out, and a candidate or one of the added ancestors. -/
theorem readSession_normalized {forced : List Text} {id : Text} {row : SessionRow} :
    readSession db source forced id = .ok (.normalized row) ↔
      sessionId id = true ∧ db.readSessionRow id = some row ∧ leftOut source row.archivedAtMs = false ∧
        (id ∈ forced ∨ sessionIsCandidate db source row = true) := by
  have hvalid : validId "ses".toList id = sessionId id := rfl
  unfold readSession validateId
  rw [hvalid]
  cases hid : sessionId id with
  | false => simp [bind, Except.bind]
  | true =>
    cases hrow : db.readSessionRow id with
    | none => simp [bind, Except.bind]
    | some found =>
      cases hleft : leftOut source found.archivedAtMs <;> by_cases hforced : id ∈ forced <;>
        cases hcandidate : sessionIsCandidate db source found <;>
          simp [hleft, hforced, hcandidate, bind, Except.bind, pure, Except.pure] <;>
            grind

/-- The walks over the selected sessions find what discovery must. -/
theorem Found.covers {d : IncrementalDiscovery}
    (h : Found db source (selectedIds db source) (selectedIds db source) d) :
    Covers db source ⟨d.inputs, d.forcedAncestors⟩ := by
  have hmem : ∀ id, id ∈ d.inputs ↔ ¬Excluded db source id ∧
      ∃ start ∈ selectedIds db source, ReflTransGen (Follows db source) start id := fun id =>
    h.climbed.mem_iff fun x p hf => hf.2.1
  have hselected : ∀ id ∈ selectedIds db source, id ∈ d.inputs := fun id hid =>
    (hmem id).2 ⟨not_excluded_of_selected hid, id, hid, .refl⟩
  refine ⟨h.climbed.nodup, fun id => ?_, ?_, fun id row => ?_⟩
  · rw [hmem]
    constructor
    · rintro ⟨hout, start, hstart, hreach⟩
      rcases Relation.reflTransGen_iff_eq_or_transGen.1 hreach with rfl | hreach
      · exact .inl hstart
      · exact .inr ⟨hout, start, hstart, hreach⟩
    · rintro (hid | ⟨hout, start, hstart, hreach⟩)
      · exact (hmem id).1 (hselected id hid)
      · exact ⟨hout, start, hstart, hreach.to_reflTransGen⟩
  · intro before id after parentId heq hid hrefers hparent
    dsimp only at heq hparent
    have hout : ¬Excluded db source id := ((hmem id).1 (heq ▸ by simp)).1
    rcases h.climbed.ordered before id after heq parentId ⟨hid, hout, hrefers⟩ with hp | hp | hp
    · exact .inl hp
    · exact absurd hp ((hmem parentId).1 hparent).1
    · exact .inr (refers_of_follows hp)
  · rw [readSession_normalized, h.forced]
    constructor
    · rintro ⟨hid, hrow, hleft, ⟨hin, -⟩ | hcandidate⟩
      · exact ⟨hin, hid, hrow⟩
      · exact ⟨hselected id ((mem_selectedIds hid).2 ⟨row, hrow, hleft, hcandidate⟩), hid, hrow⟩
    · rintro ⟨hin, hid, hrow⟩
      have hleft : leftOut source row.archivedAtMs = false := by
        rw [← Bool.not_eq_true]
        exact fun hleft => ((hmem id).1 hin).1 ⟨hid, row, hrow, hleft⟩
      refine ⟨hid, hrow, hleft, ?_⟩
      by_cases hsel : id ∈ selectedIds db source
      · obtain ⟨row', hrow', -, hcandidate⟩ := (mem_selectedIds hid).1 hsel
        rw [Option.some.inj (hrow.symm.trans hrow')]
        exact .inr hcandidate
      · exact .inl ⟨hin, ⟨hid, by rw [hrow]; rfl⟩, hsel⟩

end Discover

/-- A changed session, below one that did not change, below one on a cycle with it. -/
def chained : Database where
  hasParentId := true
  hasArchived := true
  sessions := [⟨"ses_c".toList, 3, 90, some "ses_b".toList, none⟩, ⟨"ses_b".toList, 2, 10, some "ses_a".toList, none⟩,
    ⟨"ses_a".toList, 1, 10, some "ses_b".toList, none⟩, ⟨"ses_d".toList, 4, 90, some "ses_gone".toList, none⟩]
  messages := []
  parts := []

example : discover chained ⟨none, false, some 50⟩ 5 = some (.ok
    ⟨["ses_a".toList, "ses_b".toList, "ses_c".toList, "ses_gone".toList, "ses_d".toList],
      ["ses_b".toList, "ses_a".toList]⟩) := by
  decide +kernel

/-- A session with a malformed id, older than its parent. -/
def misnamed : Database where
  hasParentId := true
  hasArchived := true
  sessions := [⟨"bad".toList, 0, 90, some "ses_a".toList, none⟩, ⟨"ses_a".toList, 1, 90, none, none⟩]
  messages := []
  parts := []

end MemoryStore.AgentImport.OpenCode
