/-
The search document of a reflection (`app/src/app/reflection/build_memory_data.rs`):
built from the message when the reflection is finalized, and rebuilt from its
metadata by a backfill. The metadata lists each failure mode once, the document of
the message as often as the message does, so the two agree exactly when no known
failure mode is listed twice.
-/
import MemoryStore.Lib.Utf8
import MemoryStore.Reflection.Message

namespace MemoryStore.Reflection

open FirstOfEach
open Whitespace (trim trim_trim)

/-! ## Documents -/

/-- `push_scalar_section`. -/
def scalarSection (title value : String) : List String :=
  let value := trim value
  if value = "" then [] else [title ++ ":\n" ++ value]

/-- The lines of `push_list_section`. -/
def listLines (values : List String) : List String := ((values.map trim).filter (· ≠ "")).map ("- " ++ ·)

/-- `push_list_section`. -/
def listSection (title : String) (values : List String) : List String :=
  let lines := listLines values
  if lines.isEmpty then [] else [title ++ ":\n" ++ "\n".intercalate lines]

/-- `build_reflection_search_document_from_parts`. -/
def documentFromParts (summary taskIntent : String) (lessons keyDecisions successFactors failureModes : List String)
    (mitigationHint : Option String) : String :=
  let sections := scalarSection "Summary" summary ++ scalarSection "Intent" taskIntent ++
    listSection "Lessons" lessons ++ listSection "Key decisions" keyDecisions ++
    listSection "Success factors" successFactors ++ listSection "Failure modes" failureModes ++
    (match mitigationHint with
    | some hint => scalarSection "Mitigation" hint
    | none => [])
  "\n\n".intercalate sections

/-- `from_db_name` -/
def fromDbName : String → Option Int
  | "tool_misuse" => some 1
  | "loop" => some 2
  | "scope_drift" => some 3
  | "hallucination" => some 4
  | "context_overflow" => some 5
  | "data_loss" => some 6
  | "permission_issue" => some 7
  | "ambiguous_instruction" => some 8
  | "conflicting_requirements" => some 9
  | "missing_context" => some 10
  | "misleading_premise" => some 11
  | "goal_drift_by_user" => some 12
  | "tool_unavailable" => some 13
  | "external_service_failure" => some 14
  | "rate_limit" => some 15
  | "OTHER" => some 16
  | _ => none

/-- One mode of `metadata_failure_modes_to_db_keys`. -/
def metadataModeToDbKey (mode : String) : Option String :=
  let mode := trim mode
  if mode = "" then none
  else
    match enumOfName failureModeEnum mode with
    | some parsed => failureModeName parsed
    | none =>
      match fromDbName mode with
      | some parsed => failureModeName parsed
      | none => some mode

section

variable {σ δ : Type}

/-- `build_reflection_search_document`. -/
def searchDocument (parsed : ParsedOutput σ δ) : String :=
  let failureModes := parsed.failureModes.filterMap failureModeName ++
    (parsed.failureModesOther.map trim).filter (· ≠ "")
  documentFromParts parsed.summary parsed.taskIntent parsed.lessons parsed.keyDecisions parsed.successFactors
    failureModes parsed.mitigationHint

/-- `json_string`. -/
def jsonString (parent : JsonValue δ) (key : String) : String := ((parent.get key).bind JsonValue.asStr).getD ""

/-- `json_string_array`. -/
def jsonStringArray (parent : JsonValue δ) (key : String) : List String :=
  (((parent.get key).bind JsonValue.asArray).getD []).filterMap JsonValue.asStr

/-- `build_reflection_search_document_from_metadata`. -/
def searchDocumentFromMetadata [SerdeJson δ] (metadata : String) : Except String String :=
  match (SerdeJson.fromStr metadata : Option (JsonValue δ)) with
  | none => .error "reflection metadata parse"
  | some root =>
    match root.get "eval" with
    | none => .error "reflection metadata missing eval"
    | some eval =>
      let failureModes := (jsonStringArray eval "failure_modes").filterMap metadataModeToDbKey ++
        jsonStringArray eval "failure_modes_other"
      let mitigationHint := jsonString eval "mitigation_hint"
      .ok (documentFromParts (jsonString eval "summary") (jsonString eval "task_intent")
        (jsonStringArray eval "lessons") (jsonStringArray eval "key_decisions") (jsonStringArray eval "success_factors")
        failureModes (if mitigationHint = "" then none else some mitigationHint))

/-! ## The metadata read back -/

theorem jsonString_mapDoubles (f : δ → δ) (v : JsonValue δ) (key : String) :
    jsonString (v.mapDoubles f) key = jsonString v key := by
  unfold jsonString
  rw [JsonValue.get_mapDoubles]
  cases v.get key <;> simp

theorem jsonStringArray_mapDoubles (f : δ → δ) (v : JsonValue δ) (key : String) :
    jsonStringArray (v.mapDoubles f) key = jsonStringArray v key := by
  unfold jsonStringArray
  rw [JsonValue.get_mapDoubles]
  cases hv : v.get key with
  | none => rfl
  | some w =>
    cases hw : w.asArray <;> simp [hw, List.filterMap_map]

theorem filterMap_asStr (texts : List String) :
    (texts.map fun s => (JsonValue.string s : JsonValue δ)).filterMap JsonValue.asStr = texts := by
  rw [List.filterMap_map]
  exact List.filterMap_some

/-- The document rebuilt from the metadata: the modes of the snapshot, and everything else as in the message. -/
theorem searchDocumentFromMetadata_eq [Floats σ δ] [SerdeJson δ] {req : FinalizeFields σ} {parsed : ParsedOutput σ δ}
    (h : (metadataValue req parsed).Rereads) :
    searchDocumentFromMetadata (δ := δ) (SerdeJson.toString (metadataValue req parsed)) =
      .ok (documentFromParts parsed.summary parsed.taskIntent parsed.lessons parsed.keyDecisions parsed.successFactors
        ((snapshotModes parsed.failureModes).filterMap metadataModeToDbKey ++ parsed.failureModesOther)
        (parsed.mitigationHint.filter (· ≠ ""))) := by
  have heval : (metadataValue req parsed).get "eval" = some (evalView parsed) := rfl
  have hhint : jsonString (evalView parsed) "mitigation_hint" = parsed.mitigationHint.getD "" := by
    have hget : (evalView parsed).get "mitigation_hint" = some (.ofString? parsed.mitigationHint) := rfl
    unfold jsonString
    rw [hget]
    cases parsed.mitigationHint <;> rfl
  have harray : ∀ {key : String} {texts : List String}, (evalView parsed).get key = some (.ofStrings texts) →
      jsonStringArray (evalView parsed) key = texts := by
    intro key texts hget
    unfold jsonStringArray
    rw [hget]
    exact filterMap_asStr texts
  have hstring : ∀ {key text : String}, (evalView parsed).get key = some (.string text) →
      jsonString (evalView parsed) key = text := by
    intro key text hget
    unfold jsonString
    rw [hget]
    rfl
  have hfilter : (if parsed.mitigationHint.getD "" = "" then none else some (parsed.mitigationHint.getD "")) =
      parsed.mitigationHint.filter (· ≠ "") := by
    cases hm : parsed.mitigationHint with
    | none => rfl
    | some hint => by_cases hempty : hint = "" <;> simp [hempty, Option.filter]
  unfold searchDocumentFromMetadata
  rw [h]
  simp only [JsonValue.get_mapDoubles, heval, Option.map_some, jsonString_mapDoubles, jsonStringArray_mapDoubles, hhint,
    hfilter]
  rw [hstring (show (evalView parsed).get "summary" = _ from rfl),
    hstring (show (evalView parsed).get "task_intent" = _ from rfl),
    harray (show (evalView parsed).get "lessons" = _ from rfl),
    harray (show (evalView parsed).get "key_decisions" = _ from rfl),
    harray (show (evalView parsed).get "success_factors" = _ from rfl),
    harray (show (evalView parsed).get "failure_modes" = _ from rfl),
    harray (show (evalView parsed).get "failure_modes_other" = _ from rfl)]

end

/-! ## Modes and their names -/

/-- The modes with a name in the database. -/
theorem failureModeName_some {v : Int} {name : String} (h : failureModeName v = some name) : 1 ≤ v ∧ v ≤ 16 := by
  unfold failureModeName at h
  split at h
  all_goals first
    | exact ⟨by decide, by decide⟩
    | cases h

theorem enumName_some {names : List String} {v : Int} {name : String} (h : enumName names v = some name) :
    0 ≤ v ∧ v < names.length := by
  unfold enumName at h
  split at h
  · obtain ⟨hlt, -⟩ := List.getElem?_eq_some_iff.1 h
    omega
  · cases h

/-- The names of a mode in the snapshot and in the database. -/
theorem snapshotName_table : ∀ n < 17, (snapshotName (n : Nat)).bind metadataModeToDbKey = failureModeName (n : Nat) ∧
    (snapshotName (n : Nat)).isSome = (failureModeName (n : Nat)).isSome ∧
    ∀ key ∈ failureModeName (n : Nat), trim key ≠ "" := by
  decide +kernel

theorem snapshotName_spec (v : Int) : (snapshotName v).bind metadataModeToDbKey = failureModeName v ∧
    (snapshotName v).isSome = (failureModeName v).isSome ∧ ∀ key ∈ failureModeName v, trim key ≠ "" := by
  by_cases hv : 0 ≤ v ∧ v.toNat < 17
  · have := snapshotName_table v.toNat hv.2
    rwa [Int.toNat_of_nonneg hv.1] at this
  · have hkey : failureModeName v = none := by
      cases h : failureModeName v with
      | none => rfl
      | some key =>
        have := failureModeName_some h
        omega
    have hname : snapshotName v = none := by
      unfold snapshotName
      split
      · rfl
      · cases h : enumName failureModeEnum v with
        | none => rfl
        | some name =>
          have hlen : failureModeEnum.length = 17 := rfl
          have := enumName_some h
          omega
    simp [hkey, hname]

/-- Two modes of one name are one. -/
theorem snapshotName_inj {v w : Int} {name : String} (hv : snapshotName v = some name) (hw : snapshotName w = some name) :
    v = w := by
  have hn : failureModeEnum.Nodup := by decide
  unfold snapshotName at hv hw
  split at hv
  · cases hv
  split at hw
  · cases hw
  exact Option.some.inj ((enumOfName_enumName hn hv).symm.trans (enumOfName_enumName hn hw))

/-- A mode the database has a name for. -/
def knownMode (v : Int) : Bool := (failureModeName v).isSome

/-- The names repeat where the known modes do. -/
theorem nodup_snapshotNames (modes : List Int) :
    (modes.filterMap snapshotName).Nodup ↔ (modes.filter knownMode).Nodup := by
  have hmap : modes.filterMap snapshotName = (modes.filter knownMode).map fun v => (snapshotName v).getD "" := by
    induction modes with
    | nil => rfl
    | cons v modes ih =>
      have hsome := (snapshotName_spec v).2.1
      cases hname : snapshotName v with
      | none =>
        have hknown : knownMode v = false := by rw [knownMode, ← hsome, hname]; rfl
        rw [List.filterMap_cons_none hname, List.filter_cons_of_neg (by simp [hknown]), ih]
      | some name =>
        have hknown : knownMode v = true := by rw [knownMode, ← hsome, hname]; rfl
        rw [List.filterMap_cons_some hname, List.filter_cons_of_pos hknown, List.map_cons, hname, ih]
        rfl
  rw [hmap]
  constructor
  · exact List.Nodup.of_map _
  · refine List.Nodup.map_on fun v hv w hw heq => ?_
    have hname : ∀ u ∈ modes.filter knownMode, snapshotName u = some ((snapshotName u).getD "") := by
      intro u hu
      have hsome : (snapshotName u).isSome = true := (snapshotName_spec u).2.1.trans (List.mem_filter.1 hu).2
      obtain ⟨name, h⟩ := Option.isSome_iff_exists.1 hsome
      rw [h, Option.getD_some]
    exact snapshotName_inj (hname v hv) (heq ▸ hname w hw)

/-- The modes of the message under their names in the database. -/
theorem filterMap_failureModeName (modes : List Int) :
    modes.filterMap failureModeName = (modes.filterMap snapshotName).filterMap metadataModeToDbKey := by
  rw [List.filterMap_filterMap]
  exact List.filterMap_congr fun v _ => ((snapshotName_spec v).1).symm

/-! ## Lengths of documents -/

/-- The length of the texts, each with a separator. -/
def separatedLength (sep : String) (texts : List String) : Nat := (texts.map fun t => t.length + sep.length).sum

theorem length_intercalate (sep : String) : ∀ texts : List String,
    (sep.intercalate texts).length = separatedLength sep texts - sep.length
  | [] => by simp [separatedLength]
  | [t] => by simp [separatedLength]
  | t :: u :: texts => by
    have ih := length_intercalate sep (u :: texts)
    have hcons : separatedLength sep (u :: texts) = u.length + sep.length + separatedLength sep texts := rfl
    have hcons' : separatedLength sep (t :: u :: texts) =
      t.length + sep.length + separatedLength sep (u :: texts) := rfl
    rw [String.intercalate_cons_cons, String.length_append, String.length_append, ih, hcons']
    omega

theorem separatedLength_append (sep : String) (texts more : List String) :
    separatedLength sep (texts ++ more) = separatedLength sep texts + separatedLength sep more := by
  simp [separatedLength]

/-- Fewer texts are shorter. -/
theorem separatedLength_lt {sep : String} (hsep : 0 < sep.length) {texts fewer : List String}
    (hsub : fewer.Sublist texts) (hlt : fewer.length < texts.length) :
    separatedLength sep fewer < separatedLength sep texts := by
  induction hsub with
  | slnil => exact absurd hlt (Nat.lt_irrefl 0)
  | cons t hsub ih =>
    rename_i fewer texts
    have hcons : separatedLength sep (t :: texts) = t.length + sep.length + separatedLength sep texts := rfl
    by_cases hlen : fewer.length < texts.length
    · have := ih hlen
      omega
    · have heq : fewer = texts := hsub.eq_of_length (Nat.le_antisymm hsub.length_le (by omega))
      rw [heq]
      omega
  | cons_cons t hsub ih =>
    have := ih (by simpa using hlt)
    simp only [separatedLength, List.map_cons, List.sum_cons] at this ⊢
    omega

/-! ## Lines -/

theorem listLines_append (values more : List String) :
    listLines (values ++ more) = listLines values ++ listLines more := by
  simp [listLines]

theorem listLines_trimmed (values : List String) :
    listLines ((values.map trim).filter (· ≠ "")) = listLines values := by
  have htrim : ((values.map trim).filter (· ≠ "")).map trim = (values.map trim).filter (· ≠ "") := by
    conv_rhs => rw [← List.map_id ((values.map trim).filter (· ≠ ""))]
    refine List.map_congr_left fun text htext => ?_
    obtain ⟨value, -, rfl⟩ := List.mem_map.1 (List.mem_filter.1 htext).1
    exact trim_trim value
  unfold listLines
  rw [htrim, List.filter_filter]
  simp

theorem listLines_sublist {values fewer : List String} (h : fewer.Sublist values) :
    (listLines fewer).Sublist (listLines values) :=
  ((h.map trim).filter _).map _

theorem length_listLines {values : List String} (h : ∀ v ∈ values, trim v ≠ "") :
    (listLines values).length = values.length := by
  unfold listLines
  rw [List.length_map, List.filter_eq_self.2, List.length_map]
  intro text htext
  obtain ⟨value, hvalue, rfl⟩ := List.mem_map.1 htext
  simpa using h value hvalue

/-- A document with fewer lines in one of its sections is shorter. -/
theorem documentFromParts_lt {summary taskIntent : String}
    {lessons keyDecisions successFactors values fewer : List String} {hint : Option String}
    (hsub : (listLines fewer).Sublist (listLines values))
    (hlt : (listLines fewer).length < (listLines values).length) :
    (documentFromParts summary taskIntent lessons keyDecisions successFactors fewer hint).length <
      (documentFromParts summary taskIntent lessons keyDecisions successFactors values hint).length := by
  have hne : listLines values ≠ [] := fun h => by simp [h] at hlt
  have hfull : listSection "Failure modes" values = ["Failure modes" ++ ":\n" ++ "\n".intercalate (listLines values)] := by
    simp [listSection, hne]
  have hlen : 2 < separatedLength "\n\n" (listSection "Failure modes" values) := by
    have hsep : "\n\n".length = 2 := rfl
    have htitle : ("Failure modes" ++ ":\n").length = 15 := rfl
    rw [hfull]
    simp only [separatedLength, List.map_cons, List.map_nil, List.sum_cons, List.sum_nil, String.length_append, hsep]
      at htitle ⊢
    omega
  have hshorter : separatedLength "\n\n" (listSection "Failure modes" fewer) <
      separatedLength "\n\n" (listSection "Failure modes" values) := by
    by_cases hnil : listLines fewer = []
    · have hempty : listSection "Failure modes" fewer = [] := by simp [listSection, hnil]
      rw [hempty]
      exact Nat.lt_of_le_of_lt (Nat.zero_le _) hlen
    · have hpart : listSection "Failure modes" fewer =
          ["Failure modes" ++ ":\n" ++ "\n".intercalate (listLines fewer)] := by
        simp [listSection, hnil]
      have hlines : separatedLength "\n" (listLines fewer) < separatedLength "\n" (listLines values) :=
        separatedLength_lt (by decide) hsub hlt
      have hsome : 1 ≤ separatedLength "\n" (listLines fewer) := by
        obtain ⟨line, lines, heq⟩ := List.exists_cons_of_ne_nil hnil
        have hsep : "\n".length = 1 := rfl
        simp only [heq, separatedLength, List.map_cons, List.sum_cons, hsep]
        omega
      rw [hpart, hfull]
      simp only [separatedLength, List.map_cons, List.map_nil, List.sum_cons, List.sum_nil, String.length_append,
        length_intercalate, show "\n".length = 1 from rfl] at hlines hsome ⊢
      omega
  have hsep : "\n\n".length = 2 := rfl
  unfold documentFromParts
  dsimp only
  simp only [length_intercalate, separatedLength_append, hsep]
  omega

/-- The free texts may come trimmed or not, and an empty hint may be there or not. -/
theorem documentFromParts_congr {summary taskIntent : String}
    {lessons keyDecisions successFactors values values' : List String} {hint : Option String}
    (h : listLines values = listLines values') :
    documentFromParts summary taskIntent lessons keyDecisions successFactors values (hint.filter (· ≠ "")) =
      documentFromParts summary taskIntent lessons keyDecisions successFactors values' hint := by
  have hsection : listSection "Failure modes" values = listSection "Failure modes" values' := by
    unfold listSection
    rw [h]
  unfold documentFromParts
  rw [hsection]
  cases hint with
  | none => rfl
  | some text =>
    by_cases hempty : text = ""
    · subst hempty
      rfl
    · have hfilter : (some text).filter (· ≠ "") = some text := by simp [Option.filter, hempty]
      rw [hfilter]

/-! ## The two documents -/

section

variable {σ δ : Type} [Floats σ δ] [SerdeJson δ]

/-- **The document rebuilt from the metadata is the document of the message exactly when no known failure
mode is listed twice.** -/
theorem rebuilt_document_iff (req : FinalizeFields σ) (parsed : ParsedOutput σ δ)
    (h : (metadataValue req parsed).Rereads) :
    searchDocumentFromMetadata (δ := δ) (SerdeJson.toString (metadataValue req parsed)) = .ok (searchDocument parsed) ↔
      (parsed.failureModes.filter knownMode).Nodup := by
  have hids : ∀ names : List String, names.map id = names := fun names => List.map_id names
  have hmode : ∀ v ∈ parsed.failureModes.filterMap snapshotName, ∃ key, metadataModeToDbKey v = some key ∧ trim key ≠ "" := by
    intro name hname
    obtain ⟨v, -, hv⟩ := List.mem_filterMap.1 hname
    obtain ⟨hkey, hsome, htrim⟩ := snapshotName_spec v
    rw [hv, Option.bind_some] at hkey
    rw [hv] at hsome
    obtain ⟨key, heq⟩ := Option.isSome_iff_exists.1 hsome.symm
    exact ⟨key, hkey.trans heq, htrim key heq⟩
  rw [searchDocumentFromMetadata_eq h, ← nodup_snapshotNames]
  unfold searchDocument
  dsimp only
  rw [filterMap_failureModeName]
  constructor
  · intro heq
    by_contra hn
    have hsub : (snapshotModes parsed.failureModes).Sublist (parsed.failureModes.filterMap snapshotName) :=
      firstOfEach_sublist id _
    have hlt : (snapshotModes parsed.failureModes).length < (parsed.failureModes.filterMap snapshotName).length :=
      length_firstOfEach_lt id (by rwa [hids])
    have hkeys : ∀ names : List String, (∀ name ∈ names, ∃ key, metadataModeToDbKey name = some key ∧ trim key ≠ "") →
        (listLines (names.filterMap metadataModeToDbKey)).length = names.length := by
      intro names hnames
      rw [length_listLines]
      · rw [List.length_filterMap_eq_countP, List.countP_eq_length]
        intro name hname
        obtain ⟨key, hkey, -⟩ := hnames name hname
        rw [hkey]
        rfl
      · intro key hkey
        obtain ⟨name, hname, heq⟩ := List.mem_filterMap.1 hkey
        obtain ⟨key', hkey', htrim⟩ := hnames name hname
        rw [heq] at hkey'
        cases hkey'
        exact htrim
    have hfewer : documentFromParts parsed.summary parsed.taskIntent parsed.lessons parsed.keyDecisions
        parsed.successFactors ((snapshotModes parsed.failureModes).filterMap metadataModeToDbKey ++
          parsed.failureModesOther) parsed.mitigationHint =
        documentFromParts parsed.summary parsed.taskIntent parsed.lessons parsed.keyDecisions parsed.successFactors
          ((parsed.failureModes.filterMap snapshotName).filterMap metadataModeToDbKey ++
            (parsed.failureModesOther.map trim).filter (· ≠ "")) parsed.mitigationHint :=
      (documentFromParts_congr rfl).symm.trans (Except.ok.inj heq)
    refine absurd (congrArg String.length hfewer) (Nat.ne_of_lt (documentFromParts_lt ?_ ?_))
    · rw [listLines_append, listLines_append, listLines_trimmed]
      exact (listLines_sublist (hsub.filterMap _)).append_right _
    · rw [listLines_append, listLines_append, listLines_trimmed, List.length_append, List.length_append,
        hkeys _ fun name hname => hmode name (hsub.subset hname), hkeys _ hmode]
      omega
  · intro hn
    rw [snapshotModes, firstOfEach_eq_self id (by rwa [hids])]
    refine congrArg Except.ok (documentFromParts_congr ?_)
    rw [listLines_append, listLines_append, listLines_trimmed]

end

/-! ## Two outputs -/

/-- An output with these failure modes and nothing else. -/
def listingModes (modes : List Int) : ParsedOutput Nat Nat where
  outcome := 3
  scoreSelf := 0
  summary := "looped"
  taskIntent := ""
  taskCategory := 1
  reflectionAspect := 1
  failureModes := modes
  toolsUsed := []
  failureModesOther := []
  successFactors := []
  lessons := []
  keyDecisions := []
  mitigationHint := none
  failureSignature := none
  toolOutcomes := []
  facts := []

def plainFields : FinalizeFields Nat where
  heuristicScore := 0
  reflectorId := "r"
  promptVersion := "v1"
  targetModelVersion := none
  targetRetryCount := none
  targetErrorCount := none
  targetToolCallsCount := none
  targetWindowCount := none
  targetWindowSize := none
  targetFactUnresolvedCount := none
  experimentId := none
  experimentVariant := none
  reflectorErrorKind := none

/-- Floats that are small whole numbers. -/
@[reducible]
def wholeFloats : Floats Nat Nat where
  widen := id
  narrow := id
  isFinite := fun _ => true
  ofNat := id
  narrow_widen := fun _ => rfl

/-- The metadata of `plainFields` and an output that lists these names. -/
def plainMetadata (modes : String) : String :=
  "\x7b\"eval\":\x7b\"failure_modes\":[" ++ modes ++ "],\"failure_modes_other\":[],\"failure_signature\":null," ++
  "\"key_decisions\":[],\"lessons\":[],\"mitigation_hint\":null,\"outcome\":\"REFLECTION_OUTCOME_FAILURE\"," ++
  "\"reflection_aspect\":\"REFLECTION_ASPECT_TASK_OUTCOME\",\"score_self\":0.0,\"success_factors\":[]," ++
  "\"summary\":\"looped\",\"task_category\":\"TASK_CATEGORY_CODING\",\"task_intent\":\"\",\"tools_used\":[]\x7d," ++
  "\"experiment\":\x7b\x7d,\"reflector\":\x7b\"id\":\"r\",\"prompt_version\":\"v1\"\x7d,\"target\":\x7b\x7d\x7d"

/-- `serde_json` where one value is written. -/
@[reducible]
def writtenAs (text : String) (value : JsonValue Nat) : SerdeJson Nat where
  toString := fun _ => text
  fromStr := fun t => if t = text then some value else none
  reread := id

/-- The value that is written for these modes. -/
def plainValue (modes : List Int) : JsonValue Nat :=
  let := wholeFloats
  metadataValue plainFields (listingModes modes)

/-- A mode listed twice: the stored document has it on two lines, the rebuilt one on one. -/
theorem repeated_mode_rebuilt_once :
    let := wholeFloats
    let := writtenAs (plainMetadata "\"FAILURE_MODE_TOOL_MISUSE\"") (plainValue [1, 1])
    (metadataValue plainFields (listingModes [1, 1])).Rereads ∧
      searchDocument (listingModes [1, 1]) =
        "Summary:\nlooped\n\nFailure modes:\n- tool_misuse\n- tool_misuse" ∧
      searchDocumentFromMetadata (δ := Nat) (SerdeJson.toString (metadataValue plainFields (listingModes [1, 1]))) =
        .ok "Summary:\nlooped\n\nFailure modes:\n- tool_misuse" := by
  refine ⟨?_, by decide +kernel, by decide +kernel⟩
  exact if_pos rfl

theorem distinct_modes_rebuilt :
    let := wholeFloats
    let := writtenAs (plainMetadata "\"FAILURE_MODE_TOOL_MISUSE\",\"FAILURE_MODE_LOOP\"") (plainValue [1, 2])
    searchDocumentFromMetadata (δ := Nat) (SerdeJson.toString (metadataValue plainFields (listingModes [1, 2]))) =
      .ok (searchDocument (listingModes [1, 2])) := by
  intro _ _
  have hread : (metadataValue plainFields (listingModes [1, 2])).Rereads := by
    exact if_pos rfl
  exact (rebuilt_document_iff plainFields (listingModes [1, 2]) hread).2 (by decide)

end MemoryStore.Reflection
