/-
Reading a finalized reflection back (`run_phase3` and `build_index_row` of
`app/src/app/reflection/finalize.rs`, `hydrate_rows` of `search.rs`), with all
columns of the rows. The message is spread over the memory, the sidecar, the
metadata and four child tables; the reader puts it together again.

The turn of a fact is a `uint32` stored as an `i32`. Reading clamps a negative turn
to 0, so a turn from 2^31 on is lost.
-/
import MemoryStore.Reflection.Finalize
import MemoryStore.Reflection.SearchDocument

namespace MemoryStore.Reflection

open FirstOfEach
open Table (insertAll insertAll_eq)
open Whitespace (trim)

/-! ## Rows with all columns -/

structure StoredMemory where
  id : Nat
  content : String
  metadata : Option String

/-- A row of `thread_reflection_index`, but for the columns that are the same on every insert. -/
structure SidecarColumns (δ : Type) where
  memoryId : Nat
  threadId : Nat
  originThreadId : Nat
  originUserId : Int
  originChannel : Option String
  outcome : Int
  score : δ
  scoreSelf : δ
  scoreHeuristic : δ
  taskCategory : Int
  reflectionAspect : Int
  promptVersion : String
  targetModelVersion : Option String
  experimentId : Option String
  experimentVariant : Option String
  previousReflectionId : Option Nat
  isRecurrence : Bool
  createdAt : Int
  updatedAt : Int

/-- A row of `reflection_fact`. -/
structure FactColumns (δ : Type) where
  memoryId : Nat
  factMemoryId : Int
  factKind : Int
  turnIndex : Int
  weight : Option δ
  note : Option String
  linksJson : Option String

structure Tables (δ : Type) where
  memories : List StoredMemory
  index : List (SidecarColumns δ)
  failureModes : List FailureModeRow
  tools : List ToolRow
  toolOutcomes : List ToolOutcomeRow
  facts : List (FactColumns δ)

/-- No row has this memory. -/
structure Tables.Fresh {δ : Type} (s : Tables δ) (memoryId : Nat) : Prop where
  memories : ∀ row ∈ s.memories, row.id ≠ memoryId
  index : ∀ row ∈ s.index, row.memoryId ≠ memoryId
  failureModes : ∀ row ∈ s.failureModes, row.memoryId ≠ memoryId
  tools : ∀ row ∈ s.tools, row.memoryId ≠ memoryId
  toolOutcomes : ∀ row ∈ s.toolOutcomes, row.memoryId ≠ memoryId
  facts : ∀ row ∈ s.facts, row.memoryId ≠ memoryId

/-- The order of the rows of a `SELECT` without `ORDER BY`. -/
class RowOrder where
  order {α : Type} : List α → List α
  perm {α : Type} (rows : List α) : (order rows).Perm rows

/-! ## Writing -/

section

variable {σ δ : Type} [Floats σ δ] [SerdeJson δ]

/-- `resolved_score`, for `MEMORY_REFLECTION_SCORE_SOURCE`. -/
def resolvedScore (scoreSource : Option String) (scoreSelf heuristicScore : σ) : σ :=
  match scoreSource with
  | some source => if (trim source).toLower = "score_heuristic" then heuristicScore else scoreSelf
  | none => scoreSelf

/-- One entry of `serialize_fact_links`. -/
def FactLinkData.value (l : FactLinkData) : JsonValue δ :=
  .object [("field", .string ((enumName factLinkFields l.field).getD "FACT_LINK_FIELD_UNSPECIFIED")),
    ("index", .natural l.index.toNat)]

/-- `serialize_fact_links`, before it is written. -/
def linksValue (links : List FactLinkData) : JsonValue δ := .array (links.map FactLinkData.value)

/-- `build_index_row`. -/
def sidecarColumns (scoreSource : Option String) (req : FinalizeFields σ) (parsed : ParsedOutput σ δ)
    (originThreadId : Nat) (p : PhaseOne) (aggregateThreadId memoryId : Nat) (now : Int) : SidecarColumns δ :=
  { memoryId
    threadId := aggregateThreadId
    originThreadId
    originUserId := p.originUserId
    originChannel := p.originChannel
    outcome := parsed.outcome
    score := Floats.widen (resolvedScore scoreSource parsed.scoreSelf req.heuristicScore)
    scoreSelf := Floats.widen parsed.scoreSelf
    scoreHeuristic := Floats.widen req.heuristicScore
    taskCategory := parsed.taskCategory
    reflectionAspect := parsed.reflectionAspect
    promptVersion := req.promptVersion
    targetModelVersion := req.targetModelVersion
    experimentId := req.experimentId
    experimentVariant := req.experimentVariant
    previousReflectionId := p.previousReflectionId
    isRecurrence := p.isRecurrence
    createdAt := now
    updatedAt := now }

/-- The row of a fact. The turn is cast to `i32`, the weight to a double. -/
def FactData.columns (fact : FactData σ) (memoryId : Nat) : FactColumns δ :=
  { memoryId
    factMemoryId := fact.anchorMemoryId
    factKind := fact.kind
    turnIndex := (fact.turnIndex.toNat : Int).bmod (2 ^ 32)
    weight := fact.weight.map Floats.widen
    note := fact.note
    linksJson := if fact.links.isEmpty then none else some (SerdeJson.toString (linksValue (δ := δ) fact.links)) }

/-- The primary key of `reflection_fact`. -/
def FactColumns.key (row : FactColumns δ) : Nat × Int × Int := (row.memoryId, row.factMemoryId, row.factKind)

/-- What of a fact is in its primary key. -/
def FactData.key (fact : FactData σ) : Int × Int := (fact.anchorMemoryId, fact.kind)

/-- The rows `run_phase3` inserts for a new memory. -/
def Tables.insertReflection (s : Tables δ) (scoreSource : Option String) (req : FinalizeFields σ)
    (parsed : ParsedOutput σ δ) (originThreadId : Nat) (p : PhaseOne) (aggregateThreadId memoryId : Nat) (now : Int) :
    Tables δ :=
  { memories := s.memories ++
      [⟨memoryId, searchDocument parsed, some (SerdeJson.toString (metadataValue req parsed))⟩]
    index := s.index ++ [sidecarColumns scoreSource req parsed originThreadId p aggregateThreadId memoryId now]
    failureModes :=
      insertAll id ((firstOfEach id (parsed.failureModes.filterMap failureModeName)).map (⟨memoryId, ·⟩)) s.failureModes
    tools := insertAll id ((parsed.toolsUsed.filter (· ≠ "")).map (⟨memoryId, ·⟩)) s.tools
    toolOutcomes :=
      insertAll id (parsed.toolOutcomes.map fun e => ⟨memoryId, e.tool, e.contribution, e.errorKind.getD ""⟩)
        s.toolOutcomes
    facts := insertAll FactColumns.key (parsed.facts.map (·.columns memoryId)) s.facts }

end

/-! ## Reading -/

/-- `ReflectionData`, but for the fields that are the same on every insert. -/
structure ReflectionData (σ δ : Type) where
  originThreadId : Nat
  originUserId : Int
  originChannel : Option String
  outcome : Int
  score : σ
  scoreSelf : σ
  scoreHeuristic : σ
  summary : String
  taskIntent : String
  taskCategory : Int
  reflectionAspect : Int
  failureModes : List Int
  failureModesOther : List String
  successFactors : List String
  lessons : List String
  keyDecisions : List String
  toolsUsed : List String
  mitigationHint : Option String
  failureSignature : Option (FailureSignature σ δ)
  isRecurrence : Bool
  facts : List (FactData σ)
  toolOutcomes : List ToolOutcomeEntry
  previousReflectionId : Option Nat
  reflectorId : String
  promptVersion : String
  targetModelVersion : Option String
  experimentId : Option String
  experimentVariant : Option String
  createdAt : Int
  updatedAt : Int

/-- `EvalFields`. -/
structure EvalFields (σ δ : Type) where
  summary : Option String
  taskIntent : Option String
  mitigationHint : Option String
  successFactors : List String
  lessons : List String
  keyDecisions : List String
  failureModesOther : List String
  failureSignature : Option (FailureSignature σ δ)

section

variable {σ δ : Type} [Floats σ δ] [SerdeJson δ]

/-- A number read as a `u64` and cast to a `u32`. -/
def JsonValue.u32? (v : JsonValue δ) (key : String) : Option UInt32 :=
  ((v.get key).bind JsonValue.asU64).map UInt32.ofNat

def JsonValue.str? (v : JsonValue δ) (key : String) : Option String := (v.get key).bind JsonValue.asStr

/-- `parse_indicators`. -/
def parseIndicators (v : JsonValue δ) : FailureSignatureIndicators σ :=
  { sameToolRepeatedCount := v.u32? "same_tool_repeated_count"
    sameToolName := v.str? "same_tool_name"
    consecutiveErrors := v.u32? "consecutive_errors"
    noStateChangeTurns := v.u32? "no_state_change_turns"
    toolCallsPerTurnRatio := ((v.get "tool_calls_per_turn_ratio").bind (JsonValue.asF64 (σ := σ))).map Floats.narrow
    compactBoundaryCount := v.u32? "compact_boundary_count"
    userClarificationCount := v.u32? "user_clarification_count"
    turnCountAtDetection := v.u32? "turn_count_at_detection"
    elapsedMsAtDetection := ((v.get "elapsed_ms_at_detection").bind JsonValue.asU64).map UInt64.ofNat }

/-- `parse_failure_signature`. -/
def parseFailureSignature (v : JsonValue δ) : FailureSignature σ δ :=
  { patternType := ((v.str? "pattern_type").bind (enumOfName failureSignaturePatterns)).getD 0
    indicators := some ((((v.get "indicators").filter fun i => !i.isNull).map parseIndicators).getD {})
    triggerThreshold := List.toAList ((((v.get "trigger_threshold").bind JsonValue.asObject).getD []).filterMap
      fun field => (JsonValue.asF64 (σ := σ) field.2).map fun x => ⟨field.1, x⟩)
    evidenceTurnIndices := (((v.get "evidence_turn_indices").bind JsonValue.asArray).getD []).filterMap
      fun x => x.asU64.map UInt32.ofNat }

/-- `string_array`. -/
def stringArray (scope : Option (JsonValue δ)) (key : String) : List String :=
  (((scope.bind (·.get key)).bind JsonValue.asArray).map (List.filterMap JsonValue.asStr)).getD []

/-- `extract_eval_fields`. -/
def extractEvalFields (metadata : Option (JsonValue δ)) : EvalFields σ δ :=
  match metadata with
  | none => ⟨none, none, none, [], [], [], [], none⟩
  | some root =>
    let eval := root.get "eval"
    { summary := eval.bind (·.str? "summary")
      taskIntent := eval.bind (·.str? "task_intent")
      mitigationHint := eval.bind (·.str? "mitigation_hint")
      successFactors := stringArray eval "success_factors"
      lessons := stringArray eval "lessons"
      keyDecisions := stringArray eval "key_decisions"
      failureModesOther := stringArray eval "failure_modes_other"
      failureSignature := ((eval.bind (·.get "failure_signature")).filter fun v => !v.isNull).map parseFailureSignature }

/-- `extract_reflector_id`. -/
def extractReflectorId (metadata : Option (JsonValue δ)) : Option String :=
  (metadata.bind (·.get "reflector")).bind (·.str? "id")

/-- A text parsed as JSON. -/
def parseJson (text : Option String) : Option (JsonValue δ) := text.bind SerdeJson.fromStr

/-- One link of `links_json`. -/
def parseLink (v : JsonValue δ) : Option FactLinkData := do
  let field ← (v.str? "field").bind (enumOfName factLinkFields)
  let index ← v.u32? "index"
  pure ⟨field, index⟩

/-- The links of a fact row. -/
def parseLinks (linksJson : Option String) : List FactLinkData :=
  (((parseJson (δ := δ) linksJson).bind JsonValue.asArray).map (List.filterMap parseLink)).getD []

/-- A fact row as it is read. -/
def FactColumns.read (row : FactColumns δ) : FactData σ :=
  { turnIndex := UInt32.ofNat (max row.turnIndex 0).toNat
    anchorMemoryId := row.factMemoryId
    kind := row.factKind
    weight := row.weight.map Floats.narrow
    note := row.note
    links := parseLinks (δ := δ) row.linksJson }

/-- A tool outcome row as it is read. -/
def ToolOutcomeRow.read (row : ToolOutcomeRow) : ToolOutcomeEntry :=
  ⟨row.tool, row.contribution, if row.errorKind = "" then none else some row.errorKind⟩

variable [RowOrder]

/-- `list_by_memory_ids` of a child table, for one memory. -/
def listByMemoryId {ρ : Type} (memoryId : ρ → Nat) (rows : List ρ) (id : Nat) : List ρ :=
  RowOrder.order (rows.filter fun row => memoryId row = id)

/-- `hydrate_rows`, of one row. -/
def Tables.hydrateRow (s : Tables δ) (row : SidecarColumns δ) : Option (ReflectionData σ δ) :=
  (s.memories.find? fun m => m.id = row.memoryId).map fun memory =>
    let metadata : Option (JsonValue δ) := parseJson memory.metadata
    let fields := extractEvalFields metadata
    { originThreadId := row.originThreadId
      originUserId := row.originUserId
      originChannel := row.originChannel
      outcome := row.outcome
      score := Floats.narrow row.score
      scoreSelf := Floats.narrow row.scoreSelf
      scoreHeuristic := Floats.narrow row.scoreHeuristic
      summary := fields.summary.getD memory.content
      taskIntent := fields.taskIntent.getD ""
      taskCategory := row.taskCategory
      reflectionAspect := row.reflectionAspect
      failureModes := (listByMemoryId FailureModeRow.memoryId s.failureModes row.memoryId).filterMap
        fun r => fromDbName r.mode
      failureModesOther := fields.failureModesOther
      successFactors := fields.successFactors
      lessons := fields.lessons
      keyDecisions := fields.keyDecisions
      toolsUsed := (listByMemoryId ToolRow.memoryId s.tools row.memoryId).map ToolRow.tool
      mitigationHint := fields.mitigationHint
      failureSignature := fields.failureSignature
      isRecurrence := row.isRecurrence
      facts := (listByMemoryId FactColumns.memoryId s.facts row.memoryId).map FactColumns.read
      toolOutcomes := (listByMemoryId ToolOutcomeRow.memoryId s.toolOutcomes row.memoryId).map ToolOutcomeRow.read
      previousReflectionId := row.previousReflectionId
      reflectorId := (extractReflectorId metadata).getD ""
      promptVersion := row.promptVersion
      targetModelVersion := row.targetModelVersion
      experimentId := row.experimentId
      experimentVariant := row.experimentVariant
      createdAt := row.createdAt
      updatedAt := row.updatedAt }

/-- `find_by_memory_id`, hydrated. -/
def Tables.readReflection (s : Tables δ) (memoryId : Nat) : Option (ReflectionData σ δ) :=
  (s.index.find? fun row => row.memoryId = memoryId).bind s.hydrateRow

end

/-! ## Child rows -/

/-- Of a new memory the rows read are the rows inserted, of each key the first. -/
theorem listByMemoryId_insertAll [RowOrder] {ρ κ : Type} [DecidableEq κ] {memoryId : ρ → Nat} {key : ρ → κ}
    {news rows : List ρ} {id : Nat} (hkey : ∀ a b, key a = key b → memoryId a = memoryId b)
    (hnews : ∀ row ∈ news, memoryId row = id) (hrows : ∀ row ∈ rows, memoryId row ≠ id) :
    (listByMemoryId memoryId (insertAll key news rows) id).Perm (firstOfEach key news) := by
  refine (RowOrder.perm _).trans ?_
  rw [insertAll_eq, List.filter_append, List.filter_filter]
  have hold : rows.filter (fun row => memoryId row = id) = [] :=
    List.filter_eq_nil_iff.2 fun row hrow => by simpa using hrows row hrow
  have hnew : (firstOfEach key news).filter (fun row => decide (memoryId row = id) && decide (key row ∉ rows.map key)) =
      firstOfEach key news := by
    refine List.filter_eq_self.2 fun row hrow => ?_
    have hid := hnews row ((firstOfEach_sublist key news).subset hrow)
    have hnone : key row ∉ rows.map key := by
      intro hmem
      obtain ⟨old, hold, heq⟩ := List.mem_map.1 hmem
      exact hrows old hold ((hkey old row heq).trans hid)
    simp only [hid, hnone, decide_true, not_false_eq_true, Bool.and_self]
  rw [hold, hnew, List.nil_append]

theorem mem_listByMemoryId_insertAll [RowOrder] {ρ : Type} [DecidableEq ρ] {memoryId : ρ → Nat} {news rows : List ρ}
    {memory : Nat} (hnews : ∀ row ∈ news, memoryId row = memory) (hrows : ∀ row ∈ rows, memoryId row ≠ memory)
    {row : ρ} : row ∈ listByMemoryId memoryId (insertAll id news rows) memory ↔ row ∈ news := by
  have hperm : (listByMemoryId memoryId (insertAll id news rows) memory).Perm (firstOfEach id news) :=
    listByMemoryId_insertAll (fun a b h => congrArg memoryId h) hnews hrows
  rw [hperm.mem_iff, mem_firstOfEach_id]

theorem find?_append_new {ρ : Type} {memoryId : ρ → Nat} {rows : List ρ} {row : ρ} {id : Nat}
    (hrows : ∀ r ∈ rows, memoryId r ≠ id) (hrow : memoryId row = id) :
    (rows ++ [row]).find? (fun r => memoryId r = id) = some row := by
  have hnone : rows.find? (fun r => memoryId r = id) = none :=
    List.find?_eq_none.2 fun r hr => by simpa using hrows r hr
  rw [List.find?_append, hnone, Option.none_or, List.find?_cons_of_pos (by simpa using hrow)]

theorem fromDbName_eq_some {name : String} {v : Int} : fromDbName name = some v ↔ failureModeName v = some name := by
  constructor
  · intro h
    unfold fromDbName at h
    split at h
    all_goals cases h
    all_goals rfl
  · intro h
    unfold failureModeName at h
    split at h
    all_goals cases h
    all_goals rfl

theorem failureModeName_isSome_iff {v : Int} (h : 0 ≤ v ∧ v < 17) : (∃ name, failureModeName v = some name) ↔ v ≠ 0 := by
  have htable : ∀ n < 17, (failureModeName (n : Nat)).isSome ↔ n ≠ 0 := by decide
  rw [← Option.isSome_iff_exists]
  have := htable v.toNat (by omega)
  rw [Int.toNat_of_nonneg h.1] at this
  rw [this]
  omega

/-! ## What is written and what is read -/

section

variable {σ δ : Type} [Floats σ δ]

/-- The values of the message are in its enumerations, and its floats are finite. -/
structure ParsedOutput.WellFormed (parsed : ParsedOutput σ δ) : Prop where
  failureModes : ∀ v ∈ parsed.failureModes, 0 ≤ v ∧ v < 17
  pattern : ∀ fs ∈ parsed.failureSignature, 0 ≤ fs.patternType ∧ fs.patternType < 9
  ratio : ∀ fs ∈ parsed.failureSignature, ∀ i ∈ fs.indicators, ∀ x ∈ i.toolCallsPerTurnRatio,
    Floats.isFinite σ (Floats.widen x : δ)
  thresholds : ∀ fs ∈ parsed.failureSignature, ∀ k x, fs.triggerThreshold.lookup k = some x → Floats.isFinite σ x
  links : ∀ fact ∈ parsed.facts, ∀ l ∈ fact.links, 0 ≤ l.field ∧ l.field < 5

/-- What is relied on of `serde_json`: texts are read back, and of a double that is a single float at least the
single float. -/
structure Serializes [SerdeJson δ] (req : FinalizeFields σ) (parsed : ParsedOutput σ δ) : Prop where
  metadata : (metadataValue req parsed).Rereads
  links : ∀ fact ∈ parsed.facts, (linksValue (δ := δ) fact.links).Rereads
  single : ∀ x : σ, Floats.isFinite σ (Floats.widen x : δ) →
    Floats.narrow (SerdeJson.reread (Floats.widen x : δ)) = x

theorem enumName_of_lt {names : List String} {v : Int} (h : 0 ≤ v ∧ v < names.length) :
    ∃ name, enumName names v = some name := by
  refine ⟨names.get ⟨v.toNat, by omega⟩, ?_⟩
  unfold enumName
  rw [if_pos h.1, List.getElem?_eq_getElem (by omega)]
  rfl

/-- The name of a value in its enumeration is read as the value. -/
theorem enumOfName_getD {names : List String} (hn : names.Nodup) {v : Int} (h : 0 ≤ v ∧ v < names.length)
    (other : String) : enumOfName names ((enumName names v).getD other) = some v := by
  obtain ⟨name, hname⟩ := enumName_of_lt h
  rw [hname, Option.getD_some]
  exact enumOfName_enumName hn hname

theorem str?_mapDoubles {δ : Type} (f : δ → δ) (v : JsonValue δ) (key : String) :
    (v.mapDoubles f).str? key = v.str? key := by
  unfold JsonValue.str?
  cases h : v.get key <;> simp [h]

theorem u32?_mapDoubles {δ : Type} (f : δ → δ) (v : JsonValue δ) (key : String) :
    (v.mapDoubles f).u32? key = v.u32? key := by
  unfold JsonValue.u32?
  cases h : v.get key <;> simp [h]

/-! ## Numbers, names and indicators -/

theorem toAList_lookup {κ β : Type} [DecidableEq κ] (entries : List (Sigma fun _ : κ => β)) (k : κ) :
    (List.toAList entries).lookup k = List.dlookup k entries := List.dlookup_dedupKeys k entries

theorem dlookup_map {κ β : Type} [DecidableEq κ] (f : β → β) (k : κ) :
    ∀ entries : List (Sigma fun _ : κ => β),
      List.dlookup k (entries.map fun e => (⟨e.1, f e.2⟩ : Sigma fun _ : κ => β)) = (List.dlookup k entries).map f
  | [] => rfl
  | ⟨k', b⟩ :: entries => by
    by_cases hk : k = k'
    · subst hk
      simp
    · rw [List.map_cons, List.dlookup_cons_ne _ _ hk, List.dlookup_cons_ne _ _ hk, dlookup_map f k entries]

theorem u32?_of_get {δ : Type} {v : JsonValue δ} {key : String} {n : Option UInt32} (h : v.get key = some (.ofU32? n)) :
    v.u32? key = n := by
  unfold JsonValue.u32?
  rw [h]
  cases n with
  | none => rfl
  | some n => exact congrArg some UInt32.ofNat_toNat

theorem str?_of_get {δ : Type} {v : JsonValue δ} {key : String} {text : Option String}
    (h : v.get key = some (.ofString? text)) : v.str? key = text := by
  unfold JsonValue.str?
  rw [h]
  cases text <;> rfl

theorem asF64_ofDouble (f : δ → δ) {x : δ} (h : Floats.isFinite σ x) :
    JsonValue.asF64 (σ := σ) ((JsonValue.ofDouble (σ := σ) x).mapDoubles f) = some (f x) := by
  unfold JsonValue.ofDouble
  rw [if_pos h]
  rfl

/-- The indicators are read as they were given. -/
theorem parseIndicators_view {fs : FailureSignature σ δ} {i : FailureSignatureIndicators σ} {v : JsonValue δ}
    {f : δ → δ} (hi : fs.indicators = some i) (hv : (failureSignatureView fs).get "indicators" = some v)
    (hratio : ∀ x ∈ i.toolCallsPerTurnRatio, Floats.isFinite σ (Floats.widen x : δ) ∧
      Floats.narrow (f (Floats.widen x : δ)) = x) :
    v.isNull = false ∧ parseIndicators (v.mapDoubles f) = i := by
  simp only [failureSignatureView, hi] at hv
  obtain rfl := Option.some.inj hv
  refine ⟨rfl, ?_⟩
  unfold parseIndicators
  simp only [u32?_mapDoubles, str?_mapDoubles, JsonValue.get_mapDoubles]
  obtain ⟨repeated, name, errors, turns, ratio, boundaries, clarifications, turnCount, elapsed⟩ := i
  rw [FailureSignatureIndicators.mk.injEq]
  refine ⟨u32?_of_get rfl, str?_of_get rfl, u32?_of_get rfl, u32?_of_get rfl, ?_, u32?_of_get rfl,
    u32?_of_get rfl, u32?_of_get rfl, ?_⟩
  · cases ratio with
    | none => rfl
    | some x =>
      obtain ⟨hfinite, hback⟩ := hratio x rfl
      exact (congrArg (Option.map Floats.narrow) (asF64_ofDouble f hfinite)).trans (congrArg some hback)
  · cases elapsed with
    | none => rfl
    | some n => exact congrArg some UInt64.ofNat_toNat

/-! ## Facts -/

theorem parseLink_value (f : δ → δ) {l : FactLinkData} (h : 0 ≤ l.field ∧ l.field < 5) :
    parseLink (l.value.mapDoubles f) = some l := by
  have hname : enumOfName factLinkFields ((enumName factLinkFields l.field).getD "FACT_LINK_FIELD_UNSPECIFIED") =
      some l.field := enumOfName_getD (by decide) h _
  have hfield : (l.value : JsonValue δ).str? "field" =
      some ((enumName factLinkFields l.field).getD "FACT_LINK_FIELD_UNSPECIFIED") := rfl
  have hindex : (l.value : JsonValue δ).u32? "index" = some (UInt32.ofNat l.index.toNat) := rfl
  unfold parseLink
  rw [str?_mapDoubles, u32?_mapDoubles, hfield, hindex, Option.bind_some, hname, UInt32.ofNat_toNat]
  rfl

variable [SerdeJson δ]

theorem parseLinks_value {links : List FactLinkData} (hr : (linksValue (δ := δ) links).Rereads)
    (h : ∀ l ∈ links, 0 ≤ l.field ∧ l.field < 5) :
    parseLinks (δ := δ) (if links.isEmpty then none else some (SerdeJson.toString (linksValue (δ := δ) links))) =
      links := by
  cases links with
  | nil => rfl
  | cons l rest =>
    have hparse : parseJson (some (SerdeJson.toString (linksValue (δ := δ) (l :: rest)))) =
        some ((linksValue (l :: rest)).mapDoubles (SerdeJson.reread : δ → δ)) := hr
    have hread : ∀ entries : List FactLinkData, (∀ l ∈ entries, 0 ≤ l.field ∧ l.field < 5) →
        (entries.map fun l => (l.value.mapDoubles SerdeJson.reread : JsonValue δ)).filterMap parseLink = entries := by
      intro entries hentries
      rw [List.filterMap_map]
      conv_rhs => rw [← List.filterMap_some (l := entries)]
      exact List.filterMap_congr fun l hl => parseLink_value SerdeJson.reread (hentries l hl)
    unfold parseLinks
    rw [List.isEmpty_cons, if_neg (by decide), hparse, Option.bind_some, JsonValue.asArray_mapDoubles]
    have harray : (linksValue (δ := δ) (l :: rest)).asArray = some ((l :: rest).map FactLinkData.value) := rfl
    rw [harray, Option.map_some, Option.map_some, Option.getD_some, List.map_map]
    exact hread (l :: rest) h

/-- The turn as it is read back. -/
theorem clamped_turn (t : UInt32) :
    UInt32.ofNat (max ((t.toNat : Int).bmod (2 ^ 32)) 0).toNat = if t.toNat < 2 ^ 31 then t else 0 := by
  have hlt := t.toNat_lt
  split
  next h =>
    have hmod : (t.toNat : Int).bmod (2 ^ 32) = t.toNat := by
      rw [Int.bmod_eq_of_le] <;> omega
    rw [hmod, Int.max_eq_left (by omega), Int.toNat_natCast, UInt32.ofNat_toNat]
  next h =>
    have hmod : (t.toNat : Int).bmod (2 ^ 32) ≤ 0 := by
      rw [Int.bmod_def]
      split <;> omega
    rw [Int.max_eq_right hmod]
    rfl

/-- A fact is read as it was given, but for a turn from 2^31 on, which is read as 0. -/
theorem FactData.read_columns {fact : FactData σ} (hr : (linksValue (δ := δ) fact.links).Rereads)
    (h : ∀ l ∈ fact.links, 0 ≤ l.field ∧ l.field < 5) (memoryId : Nat) :
    (fact.columns memoryId : FactColumns δ).read =
      { fact with turnIndex := if fact.turnIndex.toNat < 2 ^ 31 then fact.turnIndex else 0 } := by
  have hweight : (fact.weight.map (Floats.widen : σ → δ)).map Floats.narrow = fact.weight := by
    cases fact.weight with
    | none => rfl
    | some x => exact congrArg some (Floats.narrow_widen x)
  unfold FactColumns.read FactData.columns
  dsimp only
  rw [parseLinks_value hr h, clamped_turn, hweight]

/-! ## The failure signature -/

/-- The signature the reader makes of the one that was written: without indicators it has empty ones, and each
threshold is what its text is read as. -/
def FailureSignature.reread (fs : FailureSignature σ δ) : FailureSignature σ δ :=
  { fs with
      indicators := some (fs.indicators.getD {})
      triggerThreshold := List.toAList (fs.triggerThreshold.entries.map fun e => ⟨e.1, SerdeJson.reread e.2⟩) }

theorem parseFailureSignature_view {req : FinalizeFields σ} {parsed : ParsedOutput σ δ} (hs : Serializes req parsed)
    (hw : parsed.WellFormed) {fs : FailureSignature σ δ} (hfs : parsed.failureSignature = some fs) :
    parseFailureSignature ((failureSignatureView fs).mapDoubles SerdeJson.reread) = fs.reread := by
  unfold parseFailureSignature FailureSignature.reread
  have hpattern : enumOfName failureSignaturePatterns ((enumName failureSignaturePatterns fs.patternType).getD
      "FAILURE_SIGNATURE_PATTERN_UNSPECIFIED") = some fs.patternType :=
    enumOfName_getD (by decide) (hw.pattern fs hfs) _
  have hname : (failureSignatureView fs : JsonValue δ).str? "pattern_type" =
      some ((enumName failureSignaturePatterns fs.patternType).getD "FAILURE_SIGNATURE_PATTERN_UNSPECIFIED") := rfl
  have hthreshold : (failureSignatureView fs : JsonValue δ).get "trigger_threshold" =
      some (.object (fs.triggerThreshold.entries.map fun e => (e.1, .ofDouble (σ := σ) e.2))) := rfl
  have hevidence : (failureSignatureView fs : JsonValue δ).get "evidence_turn_indices" =
      some (.array (fs.evidenceTurnIndices.map fun n => .natural n.toNat)) := rfl
  rw [FailureSignature.mk.injEq]
  refine ⟨?_, ?_, ?_, ?_⟩
  · rw [str?_mapDoubles, hname, Option.bind_some, hpattern, Option.getD_some]
  · obtain ⟨v, hv⟩ : ∃ v, (failureSignatureView fs : JsonValue δ).get "indicators" = some v := ⟨_, rfl⟩
    rw [JsonValue.get_mapDoubles, hv, Option.map_some]
    cases hi : fs.indicators with
    | none =>
      have hnull : v = .null := by
        simp only [failureSignatureView, hi] at hv
        exact (Option.some.inj hv).symm
      subst hnull
      rfl
    | some i =>
      obtain ⟨hnull, hback⟩ := parseIndicators_view hi hv fun x hx =>
        ⟨hw.ratio fs hfs i hi x hx, hs.single x (hw.ratio fs hfs i hi x hx)⟩
      rw [Option.filter_some_pos (by simpa using hnull), Option.map_some, hback, Option.getD_some]
  · rw [JsonValue.get_mapDoubles, hthreshold, Option.map_some, Option.bind_some, JsonValue.asObject_mapDoubles]
    have hobject : (JsonValue.object (fs.triggerThreshold.entries.map fun e =>
        (e.1, JsonValue.ofDouble (σ := σ) e.2))).asObject = some _ := rfl
    rw [hobject, Option.map_some, Option.getD_some, List.map_map, List.filterMap_map]
    refine congrArg List.toAList ?_
    rw [← List.filterMap_eq_map]
    refine List.filterMap_congr fun e he => ?_
    have hfinite := hw.thresholds fs hfs e.1 e.2 (AList.mem_lookup_iff.2 he)
    simp only [Function.comp_apply, asF64_ofDouble SerdeJson.reread hfinite, Option.map_some]
  · rw [JsonValue.get_mapDoubles, hevidence, Option.map_some, Option.bind_some, JsonValue.asArray_mapDoubles]
    have harray : (JsonValue.array (fs.evidenceTurnIndices.map fun n => .natural n.toNat) : JsonValue δ).asArray =
        some _ := rfl
    rw [harray, Option.map_some, Option.getD_some, List.map_map, List.filterMap_map]
    conv_rhs => rw [← List.filterMap_some (l := fs.evidenceTurnIndices)]
    exact List.filterMap_congr fun n _ => congrArg some UInt32.ofNat_toNat

/-! ## The evaluation -/

theorem stringArray_some {δ : Type} (v : JsonValue δ) (key : String) :
    stringArray (some v) key = jsonStringArray v key := by
  unfold stringArray jsonStringArray
  rw [Option.bind_some]
  cases (v.get key).bind JsonValue.asArray <;> rfl

/-- The fields the reader takes from the metadata. -/
theorem extractEvalFields_metadata {req : FinalizeFields σ} {parsed : ParsedOutput σ δ} (hs : Serializes req parsed)
    (hw : parsed.WellFormed) :
    extractEvalFields (parseJson (some (SerdeJson.toString (metadataValue req parsed)))) =
      (⟨some parsed.summary, some parsed.taskIntent, parsed.mitigationHint, parsed.successFactors, parsed.lessons,
        parsed.keyDecisions, parsed.failureModesOther, parsed.failureSignature.map FailureSignature.reread⟩ :
        EvalFields σ δ) := by
  have hparse : parseJson (some (SerdeJson.toString (metadataValue req parsed))) =
      some ((metadataValue req parsed).mapDoubles (SerdeJson.reread : δ → δ)) := hs.metadata
  have heval : (metadataValue req parsed).get "eval" = some (evalView parsed) := rfl
  have harray : ∀ {key : String} {texts : List String}, (evalView parsed).get key = some (.ofStrings texts) →
      stringArray (some ((evalView parsed).mapDoubles (SerdeJson.reread : δ → δ))) key = texts := by
    intro key texts hget
    rw [stringArray_some, jsonStringArray_mapDoubles]
    unfold jsonStringArray
    rw [hget]
    exact filterMap_asStr texts
  rw [hparse]
  unfold extractEvalFields
  dsimp only
  rw [JsonValue.get_mapDoubles, heval, Option.map_some, EvalFields.mk.injEq]
  simp only [Option.bind_some, str?_mapDoubles]
  refine ⟨rfl, rfl, str?_of_get rfl, harray rfl, harray rfl, harray rfl, harray rfl, ?_⟩
  cases hfs : parsed.failureSignature with
  | none =>
    have hsignature : (evalView parsed).get "failure_signature" = some .null := by
      simp only [evalView, hfs]
      rfl
    rw [JsonValue.get_mapDoubles, hsignature, Option.map_some]
    rfl
  | some fs =>
    have hsignature : (evalView parsed).get "failure_signature" = some (failureSignatureView fs) := by
      simp only [evalView, hfs]
      rfl
    have hnull : (failureSignatureView fs : JsonValue δ).isNull = false := rfl
    rw [JsonValue.get_mapDoubles, hsignature, Option.map_some]
    rw [Option.filter_some_pos (by simp [hnull]), Option.map_some, parseFailureSignature_view hs hw hfs]
    rfl

theorem extractReflectorId_metadata {req : FinalizeFields σ} {parsed : ParsedOutput σ δ} (hs : Serializes req parsed) :
    extractReflectorId (δ := δ) (parseJson (some (SerdeJson.toString (metadataValue req parsed)))) =
      some req.reflectorId := by
  have hparse : parseJson (some (SerdeJson.toString (metadataValue req parsed))) =
      some ((metadataValue req parsed).mapDoubles (SerdeJson.reread : δ → δ)) := hs.metadata
  unfold extractReflectorId
  rw [hparse, Option.bind_some, JsonValue.get_mapDoubles]
  obtain ⟨v, hv⟩ : ∃ v, (metadataValue req parsed).get "reflector" = some v := ⟨_, rfl⟩
  rw [hv, Option.map_some, Option.bind_some, str?_mapDoubles]
  have hview : (metadataValue req parsed).get "reflector" = some (.object _) := rfl
  rw [hview, Option.some.injEq] at hv
  subst hv
  rfl

/-! ## The whole reflection -/

/-- Two signatures with the same pattern, indicators, thresholds and evidence. -/
def sameSignature : Option (FailureSignature σ δ) → Option (FailureSignature σ δ) → Prop
  | none, none => True
  | some a, some b => a.patternType = b.patternType ∧ a.indicators.getD {} = b.indicators.getD {} ∧
      (∀ k, a.triggerThreshold.lookup k = b.triggerThreshold.lookup k) ∧ a.evidenceTurnIndices = b.evidenceTurnIndices
  | _, _ => False

/-- What is read is what was finalized. -/
structure ReadsBack (scoreSource : Option String) (req : FinalizeFields σ) (parsed : ParsedOutput σ δ)
    (data : ReflectionData σ δ) : Prop where
  score : data.score = resolvedScore scoreSource parsed.scoreSelf req.heuristicScore
  scoreSelf : data.scoreSelf = parsed.scoreSelf
  scoreHeuristic : data.scoreHeuristic = req.heuristicScore
  outcome : data.outcome = parsed.outcome
  taskCategory : data.taskCategory = parsed.taskCategory
  reflectionAspect : data.reflectionAspect = parsed.reflectionAspect
  summary : data.summary = parsed.summary
  taskIntent : data.taskIntent = parsed.taskIntent
  failureModesOther : data.failureModesOther = parsed.failureModesOther
  successFactors : data.successFactors = parsed.successFactors
  lessons : data.lessons = parsed.lessons
  keyDecisions : data.keyDecisions = parsed.keyDecisions
  mitigationHint : data.mitigationHint = parsed.mitigationHint
  failureSignature : sameSignature data.failureSignature parsed.failureSignature
  reflectorId : data.reflectorId = req.reflectorId
  promptVersion : data.promptVersion = req.promptVersion
  targetModelVersion : data.targetModelVersion = req.targetModelVersion
  experimentId : data.experimentId = req.experimentId
  experimentVariant : data.experimentVariant = req.experimentVariant
  failureModes : ∀ v, v ∈ data.failureModes ↔ v ∈ parsed.failureModes
  toolsUsed : ∀ tool, tool ∈ data.toolsUsed ↔ tool ∈ parsed.toolsUsed ∧ tool ≠ ""
  toolOutcomes : ∀ entry, entry ∈ data.toolOutcomes ↔ entry ∈ parsed.toolOutcomes
  facts : data.facts.Perm (firstOfEach FactData.key parsed.facts)

/-- No value of the message is one that is not stored: the mode `UNSPECIFIED`, an empty error kind, a turn from
2^31 on, a threshold whose text is read as another double. -/
structure ParsedOutput.Kept (parsed : ParsedOutput σ δ) : Prop where
  failureModes : ∀ v ∈ parsed.failureModes, v ≠ 0
  toolOutcomes : ∀ entry ∈ parsed.toolOutcomes, entry.errorKind ≠ some ""
  turns : ∀ fact ∈ firstOfEach FactData.key parsed.facts, fact.turnIndex.toNat < 2 ^ 31
  thresholds : ∀ fs ∈ parsed.failureSignature, ∀ k x, fs.triggerThreshold.lookup k = some x → SerdeJson.reread x = x

/-- The signature read is the one given when every threshold is read as it was. -/
theorem sameSignature_reread_iff {σ δ : Type} [SerdeJson δ] (signature : Option (FailureSignature σ δ)) :
    sameSignature (signature.map FailureSignature.reread) signature ↔
      ∀ fs ∈ signature, ∀ k x, fs.triggerThreshold.lookup k = some x → SerdeJson.reread x = x := by
  cases signature with
  | none => simp [sameSignature]
  | some fs =>
    have hlookup : ∀ k, fs.reread.triggerThreshold.lookup k = (fs.triggerThreshold.lookup k).map SerdeJson.reread := by
      intro k
      unfold FailureSignature.reread
      dsimp only
      rw [toAList_lookup, dlookup_map]
      rfl
    have hsame : sameSignature ((some fs).map FailureSignature.reread) (some fs) ↔
        ∀ k, (fs.triggerThreshold.lookup k).map SerdeJson.reread = fs.triggerThreshold.lookup k := by
      simp only [Option.map_some, sameSignature, hlookup]
      exact ⟨fun h => h.2.2.1, fun h => ⟨rfl, rfl, h, rfl⟩⟩
    rw [hsame]
    constructor
    · intro h fs' hfs' k x hx
      obtain rfl : fs = fs' := Option.some.inj hfs'
      have := h k
      rw [hx, Option.map_some, Option.some.injEq] at this
      exact this
    · intro h k
      cases hx : fs.triggerThreshold.lookup k with
      | none => rfl
      | some x => exact congrArg some (h fs rfl k x hx)

variable [RowOrder]

/-- The modes read: those of the message but for `UNSPECIFIED`. -/
theorem mem_modes_read {modes : List Int} {rows : List FailureModeRow} {memoryId : Nat}
    (hmodes : ∀ v ∈ modes, 0 ≤ v ∧ v < 17) (hrows : ∀ row ∈ rows, row.memoryId ≠ memoryId) (v : Int) :
    v ∈ (listByMemoryId FailureModeRow.memoryId (insertAll id
      ((firstOfEach id (modes.filterMap failureModeName)).map (⟨memoryId, ·⟩)) rows) memoryId).filterMap
        (fun r => fromDbName r.mode) ↔ v ∈ modes ∧ v ≠ 0 := by
  rw [List.mem_filterMap]
  constructor
  · rintro ⟨row, hrow, hv⟩
    rw [mem_listByMemoryId_insertAll (by simp) hrows] at hrow
    obtain ⟨name, hname, rfl⟩ := List.mem_map.1 hrow
    obtain ⟨w, hw, hwname⟩ := List.mem_filterMap.1 (mem_firstOfEach_id.1 hname)
    obtain rfl : w = v := Option.some.inj ((fromDbName_eq_some.2 hwname).symm.trans hv)
    exact ⟨hw, (failureModeName_isSome_iff (hmodes w hw)).1 ⟨name, hwname⟩⟩
  · rintro ⟨hv, hne⟩
    obtain ⟨name, hname⟩ := (failureModeName_isSome_iff (hmodes v hv)).2 hne
    refine ⟨⟨memoryId, name⟩, ?_, fromDbName_eq_some.2 hname⟩
    rw [mem_listByMemoryId_insertAll (by simp) hrows]
    exact List.mem_map_of_mem (mem_firstOfEach_id.2 (List.mem_filterMap.2 ⟨v, hv, hname⟩))

theorem mem_tools_read (tools : List String) {rows : List ToolRow} {memoryId : Nat}
    (hrows : ∀ row ∈ rows, row.memoryId ≠ memoryId) (tool : String) :
    tool ∈ (listByMemoryId ToolRow.memoryId (insertAll id ((tools.filter (· ≠ "")).map (⟨memoryId, ·⟩)) rows)
      memoryId).map ToolRow.tool ↔ tool ∈ tools ∧ tool ≠ "" := by
  have hnews : ∀ row ∈ (tools.filter (· ≠ "")).map (⟨memoryId, ·⟩ : String → ToolRow), row.memoryId = memoryId := by
    intro row hrow
    obtain ⟨tool, -, rfl⟩ := List.mem_map.1 hrow
    rfl
  rw [List.mem_map]
  constructor
  · rintro ⟨row, hrow, rfl⟩
    rw [mem_listByMemoryId_insertAll hnews hrows] at hrow
    obtain ⟨tool, htool, rfl⟩ := List.mem_map.1 hrow
    simpa using htool
  · intro htool
    refine ⟨⟨memoryId, tool⟩, ?_, rfl⟩
    rw [mem_listByMemoryId_insertAll hnews hrows]
    exact List.mem_map_of_mem (by simpa using htool)

/-- The tool outcomes read: an empty error kind is none. -/
theorem mem_toolOutcomes_read (outcomes : List ToolOutcomeEntry) {rows : List ToolOutcomeRow} {memoryId : Nat}
    (hrows : ∀ row ∈ rows, row.memoryId ≠ memoryId) (entry : ToolOutcomeEntry) :
    entry ∈ (listByMemoryId ToolOutcomeRow.memoryId (insertAll id
      (outcomes.map fun e => ⟨memoryId, e.tool, e.contribution, e.errorKind.getD ""⟩) rows) memoryId).map
        ToolOutcomeRow.read ↔
      ∃ e ∈ outcomes, entry = { e with errorKind := e.errorKind.filter (· ≠ "") } := by
  have hread : ∀ e : ToolOutcomeEntry, ToolOutcomeRow.read ⟨memoryId, e.tool, e.contribution, e.errorKind.getD ""⟩ =
      { e with errorKind := e.errorKind.filter (· ≠ "") } := by
    rintro ⟨tool, contribution, errorKind⟩
    cases errorKind with
    | none => rfl
    | some kind => by_cases hempty : kind = "" <;> simp [ToolOutcomeRow.read, hempty, Option.filter]
  rw [List.mem_map]
  constructor
  · rintro ⟨row, hrow, rfl⟩
    rw [mem_listByMemoryId_insertAll (by simp) hrows] at hrow
    obtain ⟨e, he, rfl⟩ := List.mem_map.1 hrow
    exact ⟨e, he, hread e⟩
  · rintro ⟨e, he, rfl⟩
    refine ⟨⟨memoryId, e.tool, e.contribution, e.errorKind.getD ""⟩, ?_, hread e⟩
    rw [mem_listByMemoryId_insertAll (by simp) hrows]
    exact List.mem_map_of_mem he

/-- The facts read: of each anchor and kind the first, a turn from 2^31 on as 0. -/
theorem facts_read {facts : List (FactData σ)} {rows : List (FactColumns δ)} {memoryId : Nat}
    (hlinks : ∀ fact ∈ facts, (linksValue (δ := δ) fact.links).Rereads)
    (hfields : ∀ fact ∈ facts, ∀ l ∈ fact.links, 0 ≤ l.field ∧ l.field < 5)
    (hrows : ∀ row ∈ rows, row.memoryId ≠ memoryId) :
    ((listByMemoryId FactColumns.memoryId (insertAll FactColumns.key (facts.map (·.columns memoryId)) rows)
      memoryId).map FactColumns.read).Perm ((firstOfEach FactData.key facts).map fun fact =>
        { fact with turnIndex := if fact.turnIndex.toNat < 2 ^ 31 then fact.turnIndex else 0 }) := by
  have hkey : ∀ a b : FactData σ, FactColumns.key (a.columns memoryId : FactColumns δ) =
      FactColumns.key (b.columns memoryId : FactColumns δ) ↔ a.key = b.key := by
    intro a b
    simp [FactColumns.key, FactData.columns, FactData.key]
  have hperm : (listByMemoryId FactColumns.memoryId (insertAll FactColumns.key
      (facts.map fun fact => (fact.columns memoryId : FactColumns δ)) rows) memoryId).Perm _ :=
    listByMemoryId_insertAll (fun a b h => congrArg Prod.fst h) (by simp [FactData.columns]) hrows
  refine (hperm.map _).trans ?_
  rw [firstOfEach_map _ hkey, List.map_map]
  refine List.Perm.of_eq (List.map_congr_left fun fact hfact => ?_)
  have hmem := (firstOfEach_sublist FactData.key facts).subset hfact
  exact FactData.read_columns (hlinks fact hmem) (hfields fact hmem) memoryId

/-- **A finalized reflection reads back as it was given exactly when no value of the message is one that is not
stored.** -/
theorem reads_back_iff (scoreSource : Option String) {req : FinalizeFields σ} {parsed : ParsedOutput σ δ}
    (hw : parsed.WellFormed) (hs : Serializes req parsed) (originThreadId : Nat) (p : PhaseOne)
    (aggregateThreadId memoryId : Nat) (now : Int) {s : Tables δ} (hfresh : s.Fresh memoryId) :
    (∃ data, (s.insertReflection scoreSource req parsed originThreadId p aggregateThreadId memoryId
        now).readReflection memoryId = some data ∧ ReadsBack scoreSource req parsed data) ↔ parsed.Kept := by
  obtain ⟨data, hread, hdata⟩ : ∃ data, (s.insertReflection scoreSource req parsed originThreadId p aggregateThreadId
      memoryId now).readReflection memoryId = some data ∧
      (ReadsBack scoreSource req parsed data ↔ parsed.Kept) := by
    unfold Tables.readReflection Tables.hydrateRow Tables.insertReflection
    dsimp only
    rw [find?_append_new hfresh.index rfl, Option.bind_some,
      show (sidecarColumns scoreSource req parsed originThreadId p aggregateThreadId memoryId now).memoryId = memoryId
        from rfl, find?_append_new hfresh.memories rfl, Option.map_some,
      extractEvalFields_metadata hs hw, extractReflectorId_metadata hs]
    refine ⟨_, rfl, ?_⟩
    have hmodes := mem_modes_read hw.failureModes hfresh.failureModes
    have htools := mem_tools_read parsed.toolsUsed hfresh.tools
    have houtcomes := mem_toolOutcomes_read parsed.toolOutcomes hfresh.toolOutcomes
    have hfacts := facts_read hs.links hw.links hfresh.facts
    constructor
    · intro h
      refine ⟨fun v hv => ((hmodes v).1 ((h.failureModes v).2 hv)).2, fun entry hentry hkind => ?_,
        fun fact hfact => ?_, (sameSignature_reread_iff _).1 h.failureSignature⟩
      · obtain ⟨e, -, rfl⟩ := (houtcomes entry).1 ((h.toolOutcomes entry).2 hentry)
        simp [Option.filter_eq_some_iff] at hkind
      · obtain ⟨given, -, rfl⟩ := List.mem_map.1 (hfacts.mem_iff.1 (h.facts.mem_iff.2 hfact))
        dsimp only
        split
        · next hlt => exact hlt
        · decide
    · intro h
      have hsame : ∀ e ∈ parsed.toolOutcomes, { e with errorKind := e.errorKind.filter (· ≠ "") } = e := by
        rintro ⟨tool, contribution, errorKind⟩ he
        have hkind := h.toolOutcomes _ he
        cases errorKind with
        | none => rfl
        | some kind => simpa [Option.filter] using hkind
      have hturns : (firstOfEach FactData.key parsed.facts).map (fun fact =>
          { fact with turnIndex := if fact.turnIndex.toNat < 2 ^ 31 then fact.turnIndex else 0 }) =
          firstOfEach FactData.key parsed.facts := by
        conv_rhs => rw [← List.map_id (firstOfEach FactData.key parsed.facts)]
        refine List.map_congr_left fun fact hfact => ?_
        rw [if_pos (h.turns fact hfact)]
        rfl
      exact
        { score := Floats.narrow_widen _
          scoreSelf := Floats.narrow_widen _
          scoreHeuristic := Floats.narrow_widen _
          outcome := rfl
          taskCategory := rfl
          reflectionAspect := rfl
          summary := rfl
          taskIntent := rfl
          failureModesOther := rfl
          successFactors := rfl
          lessons := rfl
          keyDecisions := rfl
          mitigationHint := rfl
          failureSignature := (sameSignature_reread_iff _).2 h.thresholds
          reflectorId := rfl
          promptVersion := rfl
          targetModelVersion := rfl
          experimentId := rfl
          experimentVariant := rfl
          failureModes := fun v => (hmodes v).trans ⟨And.left, fun hv => ⟨hv, h.failureModes v hv⟩⟩
          toolsUsed := htools
          toolOutcomes := fun entry => (houtcomes entry).trans
            ⟨fun ⟨e, he, heq⟩ => heq.trans (hsame e he) ▸ he, fun he => ⟨entry, he, (hsame entry he).symm⟩⟩
          facts := hfacts.trans (.of_eq hturns) }
  constructor
  · rintro ⟨data', hread', hback⟩
    rw [hread] at hread'
    exact hdata.1 (Option.some.inj hread' ▸ hback)
  · exact fun h => ⟨data, hread, hdata.2 h⟩

end

/-! ## One fact -/

/-- An output with one fact, at this turn, linked to its first lesson. -/
def withFact (turn : UInt32) : ParsedOutput Nat Nat :=
  { listingModes [1] with facts := [⟨turn, 7, 1, some 2, none, [⟨1, 0⟩]⟩] }

def factLinksText : String := "[\x7b\"field\":\"FACT_LINK_FIELD_LESSON\",\"index\":0\x7d]"

/-- `serde_json` on the metadata and the links of `withFact`. -/
@[reducible]
def factJson : SerdeJson Nat where
  toString
    | .array _ => factLinksText
    | _ => plainMetadata "\"FAILURE_MODE_TOOL_MISUSE\""
  fromStr text :=
    if text = factLinksText then some (linksValue [⟨1, 0⟩])
    else if text = plainMetadata "\"FAILURE_MODE_TOOL_MISUSE\"" then some (plainValue [1])
    else none
  reread := id

@[reducible]
def storedOrder : RowOrder where
  order := id
  perm _ := .refl _

/-- Tables without a reflection, and a thread without labels. -/
def noTables : Tables Nat := ⟨[], [], [], [], [], []⟩

def plainOrigin : PhaseOne := ⟨1, none, [], false, none⟩

/-- What is read of the output with a fact at this turn. -/
def readWithFact (turn : UInt32) : Option (ReflectionData Nat Nat) :=
  let := wholeFloats
  let := factJson
  let := storedOrder
  (noTables.insertReflection none plainFields (withFact turn) 3 plainOrigin 4 9 1000).readReflection 9

theorem withFact_wellFormed (turn : UInt32) :
    let := wholeFloats
    (withFact turn).WellFormed := by
  intro _
  have hmodes : ∀ v ∈ [(1 : Int)], 0 ≤ v ∧ v < 17 := by decide
  have hlinks : ∀ l ∈ [(⟨1, 0⟩ : FactLinkData)], 0 ≤ l.field ∧ l.field < 5 := by decide
  refine ⟨hmodes, fun _ h => ?_, fun _ h => ?_, fun _ h => ?_, fun fact h => ?_⟩
  · exact (Option.not_mem_none _ h).elim
  · exact (Option.not_mem_none _ h).elim
  · exact (Option.not_mem_none _ h).elim
  · obtain rfl := List.mem_singleton.1 h
    exact hlinks

theorem withFact_serializes (turn : UInt32) :
    let := wholeFloats
    let := factJson
    Serializes plainFields (withFact turn) := by
  intro _ _
  have hne : plainMetadata "\"FAILURE_MODE_TOOL_MISUSE\"" ≠ factLinksText := by decide +kernel
  refine ⟨?_, fun fact h => ?_, fun _ _ => rfl⟩
  · exact (if_neg hne).trans (if_pos rfl)
  · obtain rfl := List.mem_singleton.1 h
    exact if_pos rfl

theorem noTables_fresh : noTables.Fresh 9 := ⟨nofun, nofun, nofun, nofun, nofun, nofun⟩

/-- A turn of 2^31 is read as 0. -/
theorem late_turn_reads_zero :
    let := wholeFloats
    let := factJson
    (withFact 2147483648).WellFormed ∧ Serializes plainFields (withFact 2147483648) ∧ noTables.Fresh 9 ∧
      (withFact 2147483648).facts.map FactData.turnIndex = [2147483648] ∧
      (readWithFact 2147483648).map (fun data => data.facts.map FactData.turnIndex) = some [0] := by
  refine ⟨withFact_wellFormed _, withFact_serializes _, noTables_fresh, rfl, ?_⟩
  decide +kernel

theorem early_turn_reads_back :
    let := wholeFloats
    ∃ data, readWithFact 3 = some data ∧ ReadsBack none plainFields (withFact 3) data := by
  let := wholeFloats
  let := factJson
  let := storedOrder
  refine (reads_back_iff none (withFact_wellFormed 3) (withFact_serializes 3) 3 plainOrigin 4 9 1000 noTables_fresh).2 ?_
  have hmodes : ∀ v ∈ [(1 : Int)], v ≠ 0 := by decide
  exact ⟨hmodes, nofun, by decide, nofun⟩

end MemoryStore.Reflection
