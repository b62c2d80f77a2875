/-
The messages a reflection is finalized from, and the metadata that is stored with
it (`protobuf/llm_memory/data/reflection.proto`,
`app/src/app/reflection/build_memory_data.rs`).

Single and double floats are types of their own, with the conversions between
them. Writing and reading JSON texts is `serde_json`'s: what a double is read back
as is a function of it, and everything else is read back as it was written.
-/
import MemoryStore.Lib.FirstOfEach
import MemoryStore.Lib.KeyMap
import MemoryStore.Reflection.Repository

namespace MemoryStore.Reflection

open FirstOfEach

/-! ## Numbers and JSON -/

/-- Single and double floats. -/
class Floats (single double : Type) where
  widen : single → double
  narrow : double → single
  isFinite : double → Bool
  ofNat : Nat → double
  /-- `f32 as f64 as f32` -/
  narrow_widen : ∀ x, narrow (widen x) = x

/-- `serde_json::Value`. No negative number is written. -/
inductive JsonValue (double : Type) where
  | null
  | bool (b : Bool)
  | natural (n : Nat)
  | double (x : double)
  | string (s : String)
  | array (values : List (JsonValue double))
  | object (fields : List (String × JsonValue double))

namespace JsonValue

variable {δ : Type}

/-- `get` of a field. -/
def get (v : JsonValue δ) (key : String) : Option (JsonValue δ) :=
  match v with
  | object fields => fields.lookup key
  | _ => none

/-- `as_str` -/
def asStr : JsonValue δ → Option String
  | string s => some s
  | _ => none

/-- `as_u64` -/
def asU64 : JsonValue δ → Option Nat
  | natural n => some n
  | _ => none

/-- `as_array` -/
def asArray : JsonValue δ → Option (List (JsonValue δ))
  | array values => some values
  | _ => none

/-- `as_object` -/
def asObject : JsonValue δ → Option (List (String × JsonValue δ))
  | object fields => some fields
  | _ => none

/-- `is_null` -/
def isNull : JsonValue δ → Bool
  | null => true
  | _ => false

mutual

/-- A value with every double in it replaced. -/
def mapDoubles (f : δ → δ) : JsonValue δ → JsonValue δ
  | null => null
  | bool b => bool b
  | natural n => natural n
  | double x => double (f x)
  | string s => string s
  | array values => array (mapAll f values)
  | object fields => object (mapFields f fields)

def mapAll (f : δ → δ) : List (JsonValue δ) → List (JsonValue δ)
  | [] => []
  | v :: values => mapDoubles f v :: mapAll f values

def mapFields (f : δ → δ) : List (String × JsonValue δ) → List (String × JsonValue δ)
  | [] => []
  | (key, v) :: fields => (key, mapDoubles f v) :: mapFields f fields

end

theorem mapAll_eq (f : δ → δ) : ∀ values : List (JsonValue δ), mapAll f values = values.map (mapDoubles f)
  | [] => rfl
  | v :: values => by rw [mapAll, mapAll_eq f values, List.map_cons]

theorem mapFields_eq (f : δ → δ) : ∀ fields : List (String × JsonValue δ),
    mapFields f fields = fields.map fun field => (field.1, mapDoubles f field.2)
  | [] => rfl
  | (key, v) :: fields => by rw [mapFields, mapFields_eq f fields, List.map_cons]

@[simp]
theorem get_mapDoubles (f : δ → δ) (v : JsonValue δ) (key : String) :
    (v.mapDoubles f).get key = (v.get key).map (mapDoubles f) := by
  cases v with
  | object fields =>
    simp only [mapDoubles, get]
    induction fields with
    | nil => rfl
    | cons field fields ih =>
      obtain ⟨k, v⟩ := field
      rw [mapFields, List.lookup_cons, List.lookup_cons]
      cases key == k
      · exact ih
      · rfl
  | _ => rfl

@[simp]
theorem asStr_mapDoubles (f : δ → δ) (v : JsonValue δ) : (v.mapDoubles f).asStr = v.asStr := by
  cases v <;> rfl

@[simp]
theorem asU64_mapDoubles (f : δ → δ) (v : JsonValue δ) : (v.mapDoubles f).asU64 = v.asU64 := by
  cases v <;> rfl

@[simp]
theorem isNull_mapDoubles (f : δ → δ) (v : JsonValue δ) : (v.mapDoubles f).isNull = v.isNull := by
  cases v <;> rfl

@[simp]
theorem asArray_mapDoubles (f : δ → δ) (v : JsonValue δ) :
    (v.mapDoubles f).asArray = v.asArray.map fun values => values.map (mapDoubles f) := by
  cases v with
  | array values => simp only [mapDoubles, asArray, mapAll_eq, Option.map_some]
  | _ => rfl

@[simp]
theorem asObject_mapDoubles (f : δ → δ) (v : JsonValue δ) :
    (v.mapDoubles f).asObject =
      v.asObject.map fun fields => fields.map fun field => (field.1, mapDoubles f field.2) := by
  cases v with
  | object fields => simp only [mapDoubles, asObject, mapFields_eq, Option.map_some]
  | _ => rfl

/-- A text, or `null`. -/
def ofString? : Option String → JsonValue δ
  | some s => string s
  | none => null

/-- An array of texts. -/
def ofStrings (texts : List String) : JsonValue δ := array (texts.map string)

/-- A number, or `null`. -/
def ofU32? : Option UInt32 → JsonValue δ
  | some n => natural n.toNat
  | none => null

variable {σ : Type} [Floats σ δ]

/-- A double, or `null` where it is not finite. -/
def ofDouble (x : δ) : JsonValue δ := if Floats.isFinite σ x then double x else null

/-- `as_f64` -/
def asF64 : JsonValue δ → Option δ
  | natural n => some (Floats.ofNat σ n)
  | double x => some x
  | _ => none

end JsonValue

/-- `serde_json::to_string` and `serde_json::from_str`, and what a double in a text is read back as. -/
class SerdeJson (double : Type) where
  toString : JsonValue double → String
  fromStr : String → Option (JsonValue double)
  reread : double → double

/-- The text of a value is read back as the value, up to its doubles. -/
def JsonValue.Rereads {δ : Type} [SerdeJson δ] (v : JsonValue δ) : Prop :=
  SerdeJson.fromStr (SerdeJson.toString v) = some (v.mapDoubles SerdeJson.reread)

/-! ## Enumerations -/

/-- `as_str_name` of an enumeration with these names: none of a number that is not in it. -/
def enumName (names : List String) (v : Int) : Option String := if 0 ≤ v then names[v.toNat]? else none

/-- `from_str_name`. -/
def enumOfName (names : List String) (name : String) : Option Int := (names.idxOf? name).map Int.ofNat

theorem enumOfName_enumName {names : List String} (hn : names.Nodup) {v : Int} {name : String}
    (h : enumName names v = some name) : enumOfName names name = some v := by
  unfold enumName at h
  split at h
  next hv =>
    obtain ⟨hlt, hname⟩ := List.getElem?_eq_some_iff.1 h
    have hidx : names.idxOf? name = some v.toNat := by
      rw [List.idxOf?, List.findIdx?_eq_some_iff_getElem]
      refine ⟨hlt, by simp [hname], fun j hj => ?_⟩
      simp only [beq_iff_eq]
      rw [← hname]
      exact fun heq => absurd ((List.Nodup.getElem_inj_iff hn).1 heq) (Nat.ne_of_lt hj)
    rw [enumOfName, hidx, Option.map_some]
    exact congrArg some (Int.toNat_of_nonneg hv)
  · cases h

def reflectionOutcomes : List String :=
  ["REFLECTION_OUTCOME_UNSPECIFIED", "REFLECTION_OUTCOME_SUCCESS", "REFLECTION_OUTCOME_PARTIAL",
    "REFLECTION_OUTCOME_FAILURE", "REFLECTION_OUTCOME_ABORTED", "REFLECTION_OUTCOME_UNKNOWN"]

def taskCategories : List String :=
  ["TASK_CATEGORY_UNSPECIFIED", "TASK_CATEGORY_CODING", "TASK_CATEGORY_CONSULTATION", "TASK_CATEGORY_RESEARCH",
    "TASK_CATEGORY_CREATIVE", "TASK_CATEGORY_GENERAL"]

def reflectionAspects : List String :=
  ["REFLECTION_ASPECT_UNSPECIFIED", "REFLECTION_ASPECT_TASK_OUTCOME", "REFLECTION_ASPECT_INTERACTION_STYLE",
    "REFLECTION_ASPECT_BOTH"]

def failureModeEnum : List String :=
  ["FAILURE_MODE_UNSPECIFIED", "FAILURE_MODE_TOOL_MISUSE", "FAILURE_MODE_LOOP", "FAILURE_MODE_SCOPE_DRIFT",
    "FAILURE_MODE_HALLUCINATION", "FAILURE_MODE_CONTEXT_OVERFLOW", "FAILURE_MODE_DATA_LOSS",
    "FAILURE_MODE_PERMISSION_ISSUE", "FAILURE_MODE_AMBIGUOUS_INSTRUCTION", "FAILURE_MODE_CONFLICTING_REQUIREMENTS",
    "FAILURE_MODE_MISSING_CONTEXT", "FAILURE_MODE_MISLEADING_PREMISE", "FAILURE_MODE_GOAL_DRIFT_BY_USER",
    "FAILURE_MODE_TOOL_UNAVAILABLE", "FAILURE_MODE_EXTERNAL_SERVICE_FAILURE", "FAILURE_MODE_RATE_LIMIT",
    "FAILURE_MODE_OTHER"]

def failureSignaturePatterns : List String :=
  ["FAILURE_SIGNATURE_PATTERN_UNSPECIFIED", "FAILURE_SIGNATURE_PATTERN_TOOL_LOOP",
    "FAILURE_SIGNATURE_PATTERN_NO_PROGRESS", "FAILURE_SIGNATURE_PATTERN_CONTEXT_THRASH",
    "FAILURE_SIGNATURE_PATTERN_ERROR_CASCADE", "FAILURE_SIGNATURE_PATTERN_SCOPE_EXPLOSION",
    "FAILURE_SIGNATURE_PATTERN_PREMATURE_COMPLETION", "FAILURE_SIGNATURE_PATTERN_USER_CLARIFICATION_LOOP",
    "FAILURE_SIGNATURE_PATTERN_OTHER"]

def factLinkFields : List String :=
  ["FACT_LINK_FIELD_UNSPECIFIED", "FACT_LINK_FIELD_LESSON", "FACT_LINK_FIELD_FAILURE_MODE",
    "FACT_LINK_FIELD_KEY_DECISION", "FACT_LINK_FIELD_SUCCESS_FACTOR"]

/-! ## Messages -/

structure FailureSignatureIndicators (σ : Type) where
  sameToolRepeatedCount : Option UInt32 := none
  sameToolName : Option String := none
  consecutiveErrors : Option UInt32 := none
  noStateChangeTurns : Option UInt32 := none
  toolCallsPerTurnRatio : Option σ := none
  compactBoundaryCount : Option UInt32 := none
  userClarificationCount : Option UInt32 := none
  turnCountAtDetection : Option UInt32 := none
  elapsedMsAtDetection : Option UInt64 := none

structure FailureSignature (σ δ : Type) where
  patternType : Int
  indicators : Option (FailureSignatureIndicators σ)
  triggerThreshold : KeyMap String δ
  evidenceTurnIndices : List UInt32

/-- `FactLink`. -/
structure FactLinkData where
  field : Int
  index : UInt32
  deriving DecidableEq, Repr

/-- `ReflectionFact`, its anchor resolved. -/
structure FactData (σ : Type) where
  turnIndex : UInt32
  anchorMemoryId : Int
  kind : Int
  weight : Option σ
  note : Option String
  links : List FactLinkData

/-- `ReflectionLlmOutput`. -/
structure ParsedOutput (σ δ : Type) where
  outcome : Int
  scoreSelf : σ
  summary : String
  taskIntent : String
  taskCategory : Int
  reflectionAspect : Int
  failureModes : List Int
  toolsUsed : List String
  failureModesOther : List String
  successFactors : List String
  lessons : List String
  keyDecisions : List String
  mitigationHint : Option String
  failureSignature : Option (FailureSignature σ δ)
  toolOutcomes : List ToolOutcomeEntry
  facts : List (FactData σ)

/-- `FinalizeReflectionRequest`, but for the thread and the output. -/
structure FinalizeFields (σ : Type) where
  heuristicScore : σ
  reflectorId : String
  promptVersion : String
  targetModelVersion : Option String
  targetRetryCount : Option UInt32
  targetErrorCount : Option UInt32
  targetToolCallsCount : Option UInt32
  targetWindowCount : Option UInt32
  targetWindowSize : Option UInt32
  targetFactUnresolvedCount : Option UInt32
  experimentId : Option String
  experimentVariant : Option String
  reflectorErrorKind : Option String

/-! ## The metadata -/

section

variable {σ δ : Type} [Floats σ δ]

/-- `build_failure_signature_view`. -/
def failureSignatureView (fs : FailureSignature σ δ) : JsonValue δ :=
  .object [
    ("pattern_type", .string ((enumName failureSignaturePatterns fs.patternType).getD
      "FAILURE_SIGNATURE_PATTERN_UNSPECIFIED")),
    ("indicators", match fs.indicators with
      | none => .null
      | some i => .object [
          ("same_tool_repeated_count", .ofU32? i.sameToolRepeatedCount),
          ("same_tool_name", .ofString? i.sameToolName),
          ("consecutive_errors", .ofU32? i.consecutiveErrors),
          ("no_state_change_turns", .ofU32? i.noStateChangeTurns),
          ("tool_calls_per_turn_ratio", match i.toolCallsPerTurnRatio with
            | some x => .ofDouble (σ := σ) (Floats.widen x)
            | none => .null),
          ("compact_boundary_count", .ofU32? i.compactBoundaryCount),
          ("user_clarification_count", .ofU32? i.userClarificationCount),
          ("turn_count_at_detection", .ofU32? i.turnCountAtDetection),
          ("elapsed_ms_at_detection", match i.elapsedMsAtDetection with
            | some n => .natural n.toNat
            | none => .null)]),
    ("trigger_threshold", .object (fs.triggerThreshold.entries.map fun e => (e.1, .ofDouble (σ := σ) e.2))),
    ("evidence_turn_indices", .array (fs.evidenceTurnIndices.map fun n => .natural n.toNat))]

/-- The name of a failure mode in the snapshot: unknown values and `UNSPECIFIED` have none. -/
def snapshotName (v : Int) : Option String := if v = 0 then none else enumName failureModeEnum v

/-- The failure modes of the snapshot: the names of the known ones, each once. -/
def snapshotModes (modes : List Int) : List String := firstOfEach id (modes.filterMap snapshotName)

/-- `build_eval_view`. -/
def evalView (p : ParsedOutput σ δ) : JsonValue δ :=
  .object [
    ("outcome", .string ((enumName reflectionOutcomes p.outcome).getD "REFLECTION_OUTCOME_UNSPECIFIED")),
    ("score_self", .ofDouble (σ := σ) (Floats.widen p.scoreSelf)),
    ("summary", .string p.summary),
    ("task_intent", .string p.taskIntent),
    ("task_category", .string ((enumName taskCategories p.taskCategory).getD "TASK_CATEGORY_UNSPECIFIED")),
    ("reflection_aspect", .string ((enumName reflectionAspects p.reflectionAspect).getD
      "REFLECTION_ASPECT_UNSPECIFIED")),
    ("failure_modes", .ofStrings (snapshotModes p.failureModes)),
    ("failure_modes_other", .ofStrings p.failureModesOther),
    ("success_factors", .ofStrings p.successFactors),
    ("lessons", .ofStrings p.lessons),
    ("key_decisions", .ofStrings p.keyDecisions),
    ("tools_used", .ofStrings p.toolsUsed),
    ("mitigation_hint", .ofString? p.mitigationHint),
    ("failure_signature", match p.failureSignature with
      | some fs => failureSignatureView fs
      | none => .null)]

/-- A field that is there only when the request has it. -/
def ifSome {α : Type} (key : String) (value : α → JsonValue δ) : Option α → List (String × JsonValue δ)
  | some a => [(key, value a)]
  | none => []

/-- `build_metadata_json`, before it is written. -/
def metadataValue (req : FinalizeFields σ) (parsed : ParsedOutput σ δ) : JsonValue δ :=
  let number := fun n : UInt32 => JsonValue.natural n.toNat
  .object [
    ("target", .object (
      ifSome "model_version" .string req.targetModelVersion ++ ifSome "retry_count" number req.targetRetryCount ++
      ifSome "error_count" number req.targetErrorCount ++ ifSome "tool_calls_count" number req.targetToolCallsCount ++
      ifSome "window_count" number req.targetWindowCount ++ ifSome "window_size" number req.targetWindowSize ++
      ifSome "fact_unresolved_count" number req.targetFactUnresolvedCount)),
    ("reflector", .object ([("id", .string req.reflectorId), ("prompt_version", .string req.promptVersion)] ++
      ifSome "error_kind" .string req.reflectorErrorKind)),
    ("experiment", .object (
      ifSome "id" .string req.experimentId ++ ifSome "variant" .string req.experimentVariant)),
    ("eval", evalView parsed)]

end

end MemoryStore.Reflection
