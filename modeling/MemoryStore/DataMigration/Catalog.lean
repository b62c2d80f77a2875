/-
The catalog of migration tasks and its history
(`grpc-admin/src/db_migrate/catalog.rs`). The history lists the tasks that were
ever registered and the transitions of their lifecycles; each transition carries
the digest of the state it was appended to, so every earlier state is rebuilt from
the lists, last transition first, and its digest compared.

Whatever states two accepted histories have a digest in common for, they recorded
the same up to it. Of a catalog entry only what the history is compared with is kept.
-/
import MemoryStore.Lib.Json
import MemoryStore.Lib.KeyMap
import MemoryStore.Lib.Sha

namespace MemoryStore.DataMigration

/-! ## The catalog and its history -/

/-- `TaskCatalogEntry`. -/
structure TaskCatalogEntry where
  id : String
  generation : Nat
  canonicalDefinitionDigest : String
  lifecycle : String
  deriving DecidableEq, Repr

/-- `identity`. -/
def TaskCatalogEntry.identity (task : TaskCatalogEntry) : String := s!"{task.id}@{task.generation}"

structure TaskHistoryEntry where
  identity : String
  canonicalDefinitionDigest : String
  deriving DecidableEq, Repr

/-- One event of the ledger. A `registered` transition adds exactly one entry; a
`retired` one only changes the lifecycle of its entry. -/
structure TaskHistoryTransition where
  identity : String
  canonicalDefinitionDigest : String
  kind : String
  previousHistoryDigest : String
  deriving DecidableEq, Repr

structure TaskHistory where
  entries : List TaskHistoryEntry
  lifecycleTransitions : List TaskHistoryTransition
  previousHistoryDigest : Option String
  historyDigest : String
  deriving DecidableEq, Repr

/-! ## Digests of states -/

def TaskHistoryEntry.json (entry : TaskHistoryEntry) : String :=
  Json.object [("identity", Json.string entry.identity),
    ("canonical_definition_digest", Json.string entry.canonicalDefinitionDigest)]

def TaskHistoryTransition.json (transition : TaskHistoryTransition) : String :=
  Json.object [("identity", Json.string transition.identity),
    ("canonical_definition_digest", Json.string transition.canonicalDefinitionDigest),
    ("kind", Json.string transition.kind),
    ("previous_history_digest", Json.string transition.previousHistoryDigest)]

/-- `canonical_json` of a state of the history: every object with its keys in order. -/
def stateJson (entries : List TaskHistoryEntry) (transitions : List TaskHistoryTransition)
    (previousHistoryDigest : Option String) : String :=
  Json.object [("entries", Json.array (entries.map TaskHistoryEntry.json)),
    ("lifecycle_transitions", Json.array (transitions.map TaskHistoryTransition.json)),
    ("previous_history_digest", Json.stringOrNull previousHistoryDigest)]

/-- `canonical_definition_digest` of a state. -/
def stateDigest (entries : List TaskHistoryEntry) (transitions : List TaskHistoryTransition)
    (previousHistoryDigest : Option String) : String :=
  Sha256.sha256Hex (stateJson entries transitions previousHistoryDigest)

/-! ## Validation -/

/-- The loop of `validate_history_chain`: the transitions last first, and the entries before them. -/
def validateChainFrom : List TaskHistoryTransition → List TaskHistoryEntry → Except String Unit
  | [], _ => .ok ()
  | transition :: earlier, entries => do
    let entries ←
      if transition.kind = "registered" then
        match entries.getLast? with
        | none => .error s!"task history transition for {transition.identity} has no matching entry"
        | some registered =>
          if registered.identity ≠ transition.identity ∨
              registered.canonicalDefinitionDigest ≠ transition.canonicalDefinitionDigest then
            .error s!"task history transition for {transition.identity} does not match its registered entry"
          else .ok entries.dropLast
      else if transition.kind ≠ "retired" then
        .error s!"unknown task history transition kind: {transition.kind}"
      else .ok entries
    if stateDigest entries earlier.reverse (earlier.head?.map TaskHistoryTransition.previousHistoryDigest) ≠
        transition.previousHistoryDigest then
      .error s!"task history chain digest mismatch at the transition for {transition.identity}"
    else validateChainFrom earlier entries

/-- `validate_history_chain`. -/
def validateHistoryChain (history : TaskHistory) : Except String Unit :=
  match history.lifecycleTransitions.getLast? with
  | none =>
    if history.previousHistoryDigest.isSome then .error "initial task history must not declare a previous digest"
    else .ok ()
  | some last =>
    if history.previousHistoryDigest ≠ some last.previousHistoryDigest then
      .error "task history previous digest does not match the last lifecycle transition"
    else validateChainFrom history.lifecycleTransitions.reverse history.entries

/-- The digest and the lifecycle of each identity. -/
abbrev Lifecycles := KeyMap String (String × String)

/-- One transition replayed. -/
def replayTransition (entries : List TaskHistoryEntry) (lifecycle : Lifecycles) (transition : TaskHistoryTransition) :
    Except String Lifecycles :=
  match entries.find? (·.identity = transition.identity) with
  | none => .error s!"task history transition references absent task {transition.identity}"
  | some entry =>
    if entry.canonicalDefinitionDigest ≠ transition.canonicalDefinitionDigest then
      .error s!"task history transition digest differs for {transition.identity}"
    else if transition.kind = "registered" then
      if (lifecycle.lookup transition.identity).isSome then
        .error s!"task {transition.identity} was registered more than once"
      else .ok (lifecycle.insert transition.identity (transition.canonicalDefinitionDigest, "active"))
    else if transition.kind = "retired" then
      match lifecycle.lookup transition.identity with
      | none => .error s!"task {transition.identity} was retired before registration"
      | some (digest, state) =>
        if digest ≠ transition.canonicalDefinitionDigest ∨ state ≠ "active" then
          .error s!"task {transition.identity} has an invalid retirement transition"
        else .ok (lifecycle.insert transition.identity (digest, "retired"))
    else .error s!"unknown task history transition kind: {transition.kind}"

/-- The lifecycles before any transition: the entries no transition registers are active. -/
def initialLifecycles (entries : List TaskHistoryEntry) (transitions : List TaskHistoryTransition) : Lifecycles :=
  let registered := (transitions.filter (·.kind = "registered")).map TaskHistoryTransition.identity
  (entries.filter (·.identity ∉ registered)).foldl
    (fun lifecycle entry => lifecycle.insert entry.identity (entry.canonicalDefinitionDigest, "active")) ∅

/-- The lifecycles the transitions of a history lead to. -/
def replay (entries : List TaskHistoryEntry) (transitions : List TaskHistoryTransition) : Except String Lifecycles :=
  transitions.foldlM (replayTransition entries) (initialLifecycles entries transitions)

/-- The check of one task at the end of `validate_history_lifecycles`. -/
def checkLifecycle (lifecycle : Lifecycles) (task : TaskCatalogEntry) : Except String Unit :=
  match lifecycle.lookup task.identity with
  | none => .error s!"task {task.identity} has no lifecycle history"
  | some (digest, state) =>
    if digest ≠ task.canonicalDefinitionDigest ∨ state ≠ task.lifecycle then
      .error s!"task {task.identity} lifecycle differs from immutable history"
    else .ok ()

/-- `validate_history_lifecycles`. -/
def validateHistoryLifecycles (tasks : List TaskCatalogEntry) (history : TaskHistory) : Except String Unit := do
  let lifecycle ← replay history.entries history.lifecycleTransitions
  tasks.forM (checkLifecycle lifecycle)

/-- A task is in the history. -/
def checkRecorded (history : TaskHistory) (task : TaskCatalogEntry) : Except String Unit :=
  if history.entries.any fun entry =>
      entry.identity = task.identity && entry.canonicalDefinitionDigest = task.canonicalDefinitionDigest then .ok ()
  else .error s!"task {task.identity} is absent from immutable task history"

/-- `validate_history`, of the history compiled in with a catalog. -/
def validateHistory (tasks : List TaskCatalogEntry) (history : TaskHistory) : Except String Unit := do
  if stateDigest history.entries history.lifecycleTransitions history.previousHistoryDigest ≠ history.historyDigest then
    .error "post-migration task history digest mismatch"
  tasks.forM (checkRecorded history)
  validateHistoryChain history
  validateHistoryLifecycles tasks history

/-! ## States are told apart by their texts -/

/-- An entry as it is written: its keys in order. -/
theorem TaskHistoryEntry.json_eq (entry : TaskHistoryEntry) : entry.json =
    Json.fields [("canonical_definition_digest", Json.string entry.canonicalDefinitionDigest),
      ("identity", Json.string entry.identity)] := by
  have h : "canonical_definition_digest" < "identity" := by decide
  simp [TaskHistoryEntry.json, Json.object, Json.insertEntry, h]

theorem TaskHistoryTransition.json_eq (transition : TaskHistoryTransition) : transition.json =
    Json.fields [("canonical_definition_digest", Json.string transition.canonicalDefinitionDigest),
      ("identity", Json.string transition.identity), ("kind", Json.string transition.kind),
      ("previous_history_digest", Json.string transition.previousHistoryDigest)] := by
  have h1 : "canonical_definition_digest" < "identity" := by decide
  have h2 : ¬"kind" < "canonical_definition_digest" ∧ ¬"kind" < "identity" := by decide
  have h3 : ¬"previous_history_digest" < "canonical_definition_digest" ∧ ¬"previous_history_digest" < "identity" ∧
      ¬"previous_history_digest" < "kind" := by decide
  simp [TaskHistoryTransition.json, Json.object, Json.insertEntry, h1, h2, h3]

theorem stateJson_eq (entries : List TaskHistoryEntry) (transitions : List TaskHistoryTransition)
    (previousHistoryDigest : Option String) : stateJson entries transitions previousHistoryDigest =
    Json.fields [("entries", Json.array (entries.map TaskHistoryEntry.json)),
      ("lifecycle_transitions", Json.array (transitions.map TaskHistoryTransition.json)),
      ("previous_history_digest", Json.stringOrNull previousHistoryDigest)] := by
  have h1 : ¬"lifecycle_transitions" < "entries" := by decide
  have h2 : ¬"previous_history_digest" < "entries" ∧ ¬"previous_history_digest" < "lifecycle_transitions" := by decide
  simp [stateJson, Json.object, Json.insertEntry, h1, h2]

theorem TaskHistoryEntry.json_reads : Json.Reads TaskHistoryEntry.json := by
  intro a b r s h
  rw [a.json_eq, b.json_eq] at h
  simp only [Json.fields, List.map_cons, List.map_nil, String.intercalate_cons_cons, String.intercalate_singleton,
    String.toList_append, List.append_assoc] at h
  obtain ⟨hdigest, h⟩ := Json.entry_reads Json.string_reads (List.append_cancel_left h)
  obtain ⟨hidentity, h⟩ := Json.entry_reads Json.string_reads (List.append_cancel_left h)
  refine ⟨?_, List.append_cancel_left h⟩
  cases a; cases b
  simp_all

theorem TaskHistoryTransition.json_reads : Json.Reads TaskHistoryTransition.json := by
  intro a b r s h
  rw [a.json_eq, b.json_eq] at h
  simp only [Json.fields, List.map_cons, List.map_nil, String.intercalate_cons_cons, String.intercalate_singleton,
    String.toList_append, List.append_assoc] at h
  obtain ⟨hdigest, h⟩ := Json.entry_reads Json.string_reads (List.append_cancel_left h)
  obtain ⟨hidentity, h⟩ := Json.entry_reads Json.string_reads (List.append_cancel_left h)
  obtain ⟨hkind, h⟩ := Json.entry_reads Json.string_reads (List.append_cancel_left h)
  obtain ⟨hprevious, h⟩ := Json.entry_reads Json.string_reads (List.append_cancel_left h)
  refine ⟨?_, List.append_cancel_left h⟩
  cases a; cases b
  simp_all

/-- **The text of a state leaves nothing of it out.** -/
theorem stateJson_injective {entries entries' : List TaskHistoryEntry}
    {transitions transitions' : List TaskHistoryTransition} {previous previous' : Option String}
    (h : stateJson entries transitions previous = stateJson entries' transitions' previous') :
    entries = entries' ∧ transitions = transitions' ∧ previous = previous' := by
  have hentries : Json.Opens TaskHistoryEntry.json := fun entry => entry.json_eq ▸ Json.fields_opens _
  have htransitions : Json.Opens TaskHistoryTransition.json := fun transition =>
    transition.json_eq ▸ Json.fields_opens _
  have h := congrArg String.toList h
  rw [stateJson_eq, stateJson_eq] at h
  simp only [Json.fields, List.map_cons, List.map_nil, String.intercalate_cons_cons, String.intercalate_singleton,
    String.toList_append, List.append_assoc] at h
  obtain ⟨he, h⟩ := Json.entry_reads (Json.array_reads TaskHistoryEntry.json_reads hentries) (List.append_cancel_left h)
  obtain ⟨ht, h⟩ :=
    Json.entry_reads (Json.array_reads TaskHistoryTransition.json_reads htransitions) (List.append_cancel_left h)
  obtain ⟨hp, -⟩ := Json.entry_reads Json.stringOrNull_reads (List.append_cancel_left h)
  exact ⟨he, ht, hp⟩

/-! ## The chain of states -/

/-- What a history had recorded at one time. -/
structure Recorded where
  entries : List TaskHistoryEntry
  transitions : List TaskHistoryTransition
  deriving DecidableEq, Repr

/-- The text its digest is taken of. -/
def Recorded.text (state : Recorded) : String :=
  stateJson state.entries state.transitions (state.transitions.getLast?.map TaskHistoryTransition.previousHistoryDigest)

def Recorded.digest (state : Recorded) : String := Sha256.sha256Hex state.text

/-- The entries before a transition. -/
def entriesBefore (transition : TaskHistoryTransition) (entries : List TaskHistoryEntry) : List TaskHistoryEntry :=
  if transition.kind = "registered" then entries.dropLast else entries

/-- The states before each transition, the last one first. -/
def earlierStates : List TaskHistoryTransition → List TaskHistoryEntry → List Recorded
  | [], _ => []
  | transition :: earlier, entries =>
    ⟨entriesBefore transition entries, earlier.reverse⟩ :: earlierStates earlier (entriesBefore transition entries)

/-- The states of a history, the present one first. -/
def TaskHistory.states (history : TaskHistory) : List Recorded :=
  ⟨history.entries, history.lifecycleTransitions⟩ :: earlierStates history.lifecycleTransitions.reverse history.entries

/-- The digests in its chain. -/
def TaskHistory.chainDigests (history : TaskHistory) : List String :=
  history.historyDigest :: history.lifecycleTransitions.reverse.map TaskHistoryTransition.previousHistoryDigest

theorem Recorded.text_injective {x y : Recorded} (h : x.text = y.text) : x = y := by
  obtain ⟨hentries, htransitions, -⟩ := stateJson_injective h
  cases x; cases y
  simp_all

/-- One transition of an accepted chain. -/
theorem validateChainFrom_cons {transition : TaskHistoryTransition} {earlier : List TaskHistoryTransition}
    {entries : List TaskHistoryEntry} (h : validateChainFrom (transition :: earlier) entries = .ok ()) :
    (⟨entriesBefore transition entries, earlier.reverse⟩ : Recorded).digest = transition.previousHistoryDigest ∧
      validateChainFrom earlier (entriesBefore transition entries) = .ok () := by
  have hchain : ∀ es : List TaskHistoryEntry,
      (if stateDigest es earlier.reverse (earlier.head?.map TaskHistoryTransition.previousHistoryDigest) ≠
          transition.previousHistoryDigest then
        .error s!"task history chain digest mismatch at the transition for {transition.identity}"
      else validateChainFrom earlier es) = (.ok () : Except String Unit) →
      (⟨es, earlier.reverse⟩ : Recorded).digest = transition.previousHistoryDigest ∧
        validateChainFrom earlier es = .ok () := by
    intro es hes
    split at hes
    · cases hes
    · next hdigest =>
      refine ⟨?_, hes⟩
      rw [not_not] at hdigest
      rw [← hdigest, Recorded.digest, Recorded.text, List.getLast?_reverse]
      rfl
  unfold entriesBefore
  simp only [validateChainFrom] at h
  split at h
  · next hkind =>
    rw [if_pos hkind]
    split at h
    · cases h
    · next registered hlast =>
      split at h
      · cases h
      · exact hchain _ h
  · next hkind =>
    rw [if_neg hkind]
    split at h
    · cases h
    · exact hchain _ h

/-- **The digests of an accepted chain are those of its states.** -/
theorem validateChainFrom_digests : ∀ {transitions : List TaskHistoryTransition} {entries : List TaskHistoryEntry},
    validateChainFrom transitions entries = .ok () →
      (earlierStates transitions entries).map Recorded.digest =
        transitions.map TaskHistoryTransition.previousHistoryDigest
  | [], _, _ => rfl
  | transition :: earlier, entries, h => by
    obtain ⟨hdigest, hrest⟩ := validateChainFrom_cons h
    rw [earlierStates, List.map_cons, List.map_cons, hdigest, validateChainFrom_digests hrest]

/-- Earlier states are prefixes. -/
theorem prefix_of_mem_earlierStates : ∀ {transitions : List TaskHistoryTransition} {entries : List TaskHistoryEntry}
    {state : Recorded}, state ∈ earlierStates transitions entries →
      state.entries <+: entries ∧ state.transitions <+: transitions.reverse
  | [], _, _, h => absurd h List.not_mem_nil
  | transition :: earlier, entries, state, h => by
    have hbefore : entriesBefore transition entries <+: entries := by
      unfold entriesBefore
      split
      · exact List.dropLast_prefix entries
      · exact List.prefix_rfl
    have hearlier : earlier.reverse <+: (transition :: earlier).reverse := by
      rw [List.reverse_cons]
      exact List.prefix_append _ _
    rcases List.mem_cons.1 h with rfl | h
    · exact ⟨hbefore, hearlier⟩
    · obtain ⟨hentries, htransitions⟩ := prefix_of_mem_earlierStates h
      exact ⟨hentries.trans hbefore, htransitions.trans hearlier⟩

theorem TaskHistory.prefix_of_mem_states {history : TaskHistory} {state : Recorded} (h : state ∈ history.states) :
    state.entries <+: history.entries ∧ state.transitions <+: history.lifecycleTransitions := by
  rcases List.mem_cons.1 h with rfl | h
  · exact ⟨List.prefix_rfl, List.prefix_rfl⟩
  · have := prefix_of_mem_earlierStates h
    rwa [List.reverse_reverse] at this

/-- What an accepted catalog has passed. -/
theorem validateHistory_ok {tasks : List TaskCatalogEntry} {history : TaskHistory}
    (h : validateHistory tasks history = .ok ()) :
    history.states.map Recorded.digest = history.chainDigests ∧
      validateHistoryLifecycles tasks history = .ok () := by
  unfold validateHistory at h
  split at h
  · cases h
  next hdigest =>
  rw [not_not] at hdigest
  cases hrecorded : tasks.forM (checkRecorded history) with
  | error e => rw [hrecorded] at h; cases h
  | ok u =>
  rw [hrecorded] at h
  cases hchain : validateHistoryChain history with
  | error e => simp only [hchain] at h; cases h
  | ok v =>
  simp only [hchain] at h
  refine ⟨?_, h⟩
  unfold validateHistoryChain at hchain
  unfold TaskHistory.states TaskHistory.chainDigests
  rw [List.map_cons, ← hdigest]
  split at hchain
  next hlast =>
    -- no transition: the present state is the first one
    split at hchain
    · cases hchain
    next hnone =>
    have hempty : history.lifecycleTransitions = [] := List.getLast?_eq_none_iff.1 hlast
    have hprevious : history.previousHistoryDigest = none := by simpa using hnone
    rw [hempty, hprevious]
    rfl
  next last hlast =>
    split at hchain
    · cases hchain
    next hprevious =>
    rw [not_not] at hprevious
    rw [validateChainFrom_digests hchain, hprevious, Recorded.digest, Recorded.text, hlast]
    rfl

/-- The lifecycles of an accepted catalog are those its history leads to. -/
theorem validateHistoryLifecycles_ok {tasks : List TaskCatalogEntry} {history : TaskHistory}
    (h : validateHistoryLifecycles tasks history = .ok ()) :
    ∃ lifecycles, replay history.entries history.lifecycleTransitions = .ok lifecycles ∧
      ∀ task ∈ tasks, lifecycles.lookup task.identity = some (task.canonicalDefinitionDigest, task.lifecycle) := by
  unfold validateHistoryLifecycles at h
  cases hreplay : replay history.entries history.lifecycleTransitions with
  | error e => rw [hreplay] at h; cases h
  | ok lifecycles =>
    rw [hreplay] at h
    refine ⟨lifecycles, rfl, ?_⟩
    have hall : ∀ {tasks : List TaskCatalogEntry}, tasks.forM (checkLifecycle lifecycles) = .ok () →
        ∀ task ∈ tasks, checkLifecycle lifecycles task = .ok () := by
      intro tasks
      induction tasks with
      | nil => intro _ task htask; exact absurd htask List.not_mem_nil
      | cons first rest ih =>
        intro hforM task htask
        rw [List.forM] at hforM
        cases hfirst : checkLifecycle lifecycles first with
        | error e => rw [hfirst] at hforM; cases hforM
        | ok u =>
          rw [hfirst] at hforM
          rcases List.mem_cons.1 htask with rfl | htask
          · exact hfirst
          · exact ih hforM task htask
    intro task htask
    have hcheck := hall h task htask
    unfold checkLifecycle at hcheck
    split at hcheck
    · cases hcheck
    next digest state hlookup =>
    split at hcheck
    · cases hcheck
    next hsame =>
    rw [not_or, not_not, not_not] at hsame
    rw [hlookup, hsame.1, hsame.2]

/-! ## Append-only -/

/-- **An accepted history is append-only.** Two accepted catalogs whose chains have a
digest in common recorded the same up to it; and where it is the digest of one of
them as a whole, all it lists stands first in the other, and replaying exactly that
gives the lifecycles of its tasks. -/
theorem history_append_only {tasks tasks' : List TaskCatalogEntry} {history history' : TaskHistory}
    (h : validateHistory tasks history = .ok ()) (h' : validateHistory tasks' history' = .ok ())
    (hsha : ∀ x ∈ history.states ++ history'.states, ∀ y ∈ history.states ++ history'.states,
      Sha256.sha256Hex x.text = Sha256.sha256Hex y.text → x.text = y.text) :
    (∀ d ∈ history.chainDigests, d ∈ history'.chainDigests → ∃ state : Recorded, state.digest = d ∧
      state.entries <+: history.entries ∧ state.entries <+: history'.entries ∧
      state.transitions <+: history.lifecycleTransitions ∧ state.transitions <+: history'.lifecycleTransitions) ∧
    (history'.historyDigest ∈ history.chainDigests →
      history'.entries <+: history.entries ∧ history'.lifecycleTransitions <+: history.lifecycleTransitions ∧
      ∃ lifecycles, replay (history.entries.take history'.entries.length)
          (history.lifecycleTransitions.take history'.lifecycleTransitions.length) = .ok lifecycles ∧
        ∀ task ∈ tasks', lifecycles.lookup task.identity = some (task.canonicalDefinitionDigest, task.lifecycle)) := by
  obtain ⟨hchain, -⟩ := validateHistory_ok h
  obtain ⟨hchain', hlife⟩ := validateHistory_ok h'
  have hsame : ∀ x ∈ history.states, ∀ y ∈ history'.states, x.digest = y.digest → x = y := fun x hx y hy hdigest =>
    Recorded.text_injective (hsha x (List.mem_append_left _ hx) y (List.mem_append_right _ hy) hdigest)
  constructor
  · intro d hd hd'
    rw [← hchain] at hd
    rw [← hchain'] at hd'
    obtain ⟨x, hx, rfl⟩ := List.mem_map.1 hd
    obtain ⟨y, hy, hdigest⟩ := List.mem_map.1 hd'
    obtain rfl := hsame x hx y hy hdigest.symm
    have hprefix := TaskHistory.prefix_of_mem_states hx
    have hprefix' := TaskHistory.prefix_of_mem_states hy
    exact ⟨x, rfl, hprefix.1, hprefix'.1, hprefix.2, hprefix'.2⟩
  · intro hd
    rw [← hchain] at hd
    obtain ⟨x, hx, hdigest⟩ := List.mem_map.1 hd
    have hwhole : (⟨history'.entries, history'.lifecycleTransitions⟩ : Recorded).digest = history'.historyDigest :=
      (List.cons.inj hchain').1
    obtain rfl := hsame x hx _ List.mem_cons_self (hdigest.trans hwhole.symm)
    obtain ⟨hentries, htransitions⟩ := TaskHistory.prefix_of_mem_states hx
    refine ⟨hentries, htransitions, ?_⟩
    rw [← List.prefix_iff_eq_take.1 hentries, ← List.prefix_iff_eq_take.1 htransitions]
    exact validateHistoryLifecycles_ok hlife

/-! ## A task is added -/

/-- The digest of the history of one task. -/
def firstDigest : String := "fa40720a96319b92f4e654b407a21dc1821ef3c98f9eb522c7a0f347a70fc122"

/-- The digest of the history with another task. -/
def secondDigest : String := "f1f0a4ec425de76530ca06b3fa6bb7bc27f520acd54db843e6ff35dc24cc2c96"

/-- A history of one task. -/
def firstHistory : TaskHistory := ⟨[⟨"a@1", "11"⟩], [], none, firstDigest⟩

/-- The history after another one is added. -/
def secondHistory : TaskHistory :=
  ⟨[⟨"a@1", "11"⟩, ⟨"b@1", "22"⟩], [⟨"b@1", "22", "registered", firstDigest⟩], some firstDigest, secondDigest⟩

theorem secondHistory_digests :
    ∀ x ∈ secondHistory.states, x.digest = if x.transitions.isEmpty then firstDigest else secondDigest := by
  decide +kernel

/-- The two histories have two states between them, with different digests. -/
theorem secondHistory_sha {x y : Recorded} (hx : x ∈ secondHistory.states ++ firstHistory.states)
    (hy : y ∈ secondHistory.states ++ firstHistory.states) (h : x.digest = y.digest) : x.text = y.text := by
  have hsub : ∀ z ∈ secondHistory.states ++ firstHistory.states, z ∈ secondHistory.states := by decide
  have hinj : ∀ x ∈ secondHistory.states, ∀ y ∈ secondHistory.states,
      x.transitions.isEmpty = y.transitions.isEmpty → x = y := by decide
  have hne : firstDigest ≠ secondDigest := by decide
  have hx := hsub x hx
  have hy := hsub y hy
  rw [secondHistory_digests x hx, secondHistory_digests y hy] at h
  refine congrArg Recorded.text (hinj x hx y hy ?_)
  cases hxe : x.transitions.isEmpty <;> cases hye : y.transitions.isEmpty <;> simp_all

theorem secondHistory_extends :
    firstHistory.entries <+: secondHistory.entries ∧
      firstHistory.lifecycleTransitions <+: secondHistory.lifecycleTransitions := by
  have hsecond : validateHistory [⟨"b", 1, "22", "active"⟩] secondHistory = .ok () := by decide +kernel
  have hfirst : validateHistory [⟨"a", 1, "11", "active"⟩] firstHistory = .ok () := by decide +kernel
  have hshared : firstHistory.historyDigest ∈ secondHistory.chainDigests := by decide
  obtain ⟨hentries, htransitions, -⟩ :=
    (history_append_only hsecond hfirst fun x hx y hy h => secondHistory_sha hx hy h).2 hshared
  exact ⟨hentries, htransitions⟩

end MemoryStore.DataMigration
