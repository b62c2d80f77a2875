/-
The raw payload of an imported entry (`agent-chat-import/src/common/canonical.rs`):
what a transcript line held is kept next to the canonical metadata, with the
fields that may carry unbounded text or attachments cut down to their budgets.

A text is its characters; `serde_json` numbers are their values. Decoding base64
is the class `Base64`.
-/
import MemoryStore.Lib.Sha
import MemoryStore.Lib.Utf8

namespace MemoryStore.AgentImport

open Utf8 (byteLen)

abbrev Text := List Char

/-- `serde_json::Value` -/
inductive Value where
  | null
  | bool (b : Bool)
  | number (n : ℚ)
  | string (s : Text)
  | array (values : List Value)
  | object (fields : List (String × Value))

/-- The budgets of `SizeConfig` that raw payloads are held to. -/
structure SizeConfig where
  toolOutputFull : Nat
  attachmentInlineMax : Nat

/-- `base64::engine::general_purpose::STANDARD.decode`, and the length of what it gives. -/
class Base64 where
  decodedLen : Text → Option Nat

/-! ## Texts -/

/-- `str::is_char_boundary` -/
def isCharBoundary (s : Text) (i : Nat) : Bool := s.inits.any fun before => byteLen before = i

/-- `&s[..end]`, for a character boundary. -/
def takeBytes : Text → Nat → Text
  | [], _ => []
  | c :: s, stop => if stop = 0 then [] else c :: takeBytes s (stop - c.utf8Size)

/-- The loop of `safe_truncate_at_char_boundary`. -/
def boundaryBelow (s : Text) : Nat → Nat
  | 0 => 0
  | stop + 1 => if isCharBoundary s (stop + 1) then stop + 1 else boundaryBelow s stop

/-- `safe_truncate_at_char_boundary` -/
def safeTruncateAtCharBoundary (s : Text) (maxBytes : Nat) : Text :=
  if byteLen s ≤ maxBytes then s else takeBytes s (boundaryBelow s maxBytes)

/-- `strip_nul_bytes` -/
def stripNulBytes (s : Text) : Text := s.filter fun c => c ≠ Char.ofNat 0

/-- `sha256_hex_prefix` -/
def sha256HexPrefix (input : Text) (n : Nat) : Text :=
  (Sha256.digestHex ((Utf8.encode input).map UInt8.toNat)).take n

/-! ## URLs -/

inductive ImageUrlVariant where
  | dataBase64 (mediaType : Option Text) (base64Payload : Text)
  | dataNonBase64 (mediaType : Option Text) (raw : Text)
  | file (url : Text)
  | http (url : Text)
  | unrecognized (raw : Text)
  deriving DecidableEq

/-- The media type of a data URL's header, and whether the payload is base64. -/
def parseHeader (header : Text) : Text × Bool :=
  match ";base64".toList.isSuffixOf? header with
  | some mt => (mt, true)
  | none => if header = "base64".toList then ([], true) else (header, false)

/-- A data URL, after its scheme. -/
def parseDataUrl (s rest : Text) : ImageUrlVariant :=
  match rest.dropWhile fun c => c ≠ ',' with
  | [] => .unrecognized s
  | _ :: payload =>
    let (mt, isBase64) := parseHeader (rest.takeWhile fun c => c ≠ ',')
    let mediaType := if mt.isEmpty then none else some mt
    if isBase64 then .dataBase64 mediaType payload else .dataNonBase64 mediaType payload

/-- `parse_image_url` -/
def parseImageUrl (s : Text) : ImageUrlVariant :=
  match "data:".toList.isPrefixOf? s with
  | some rest => parseDataUrl s rest
  | none =>
    if "file://".toList.isPrefixOf s then .file s
    else if "http://".toList.isPrefixOf s || "https://".toList.isPrefixOf s then .http s
    else .unrecognized s

/-! ## Elision -/

/-- `RAW_LARGE_TEXT_FIELDS` -/
def rawLargeTextFields : List String := ["output", "stdout", "stderr", "text"]

/-- What stands for an elided text. -/
def textRecord (sizeBytes : Nat) (sha256 preview : Text) : Value :=
  .object [("elided", .bool true), ("size_bytes", .number sizeBytes), ("sha256", .string sha256),
    ("preview", .string preview)]

/-- `elide_text` -/
def elideText (s : Text) (fullBudget : Nat) : Value :=
  let previewBudget := min fullBudget 256
  let preview := safeTruncateAtCharBoundary s previewBudget
  textRecord (byteLen s) (sha256HexPrefix s 64) preview

/-- `json!` of an optional text. -/
def jsonText : Option Text → Value
  | some s => .string s
  | none => .null

/-- What stands for an elided data URL. -/
def dataUrlRecord (mediaType : Option Text) (sizeBytes : Nat) (sha256 : Text) : Value :=
  .object [("elided", .bool true), ("kind", .string "data_url".toList), ("media_type", jsonText mediaType),
    ("size_bytes", .number sizeBytes), ("sha256", .string sha256)]

section Decoding

variable [Base64]

/-- The decoded length of a payload, or its own where it does not decode. -/
def rawLen (base64Payload : Text) : Nat := (Base64.decodedLen base64Payload).getD (byteLen base64Payload)

/-- `elide_data_url` -/
def elideDataUrl (s : Text) (cfg : SizeConfig) : Option Value :=
  match parseImageUrl s with
  | .dataBase64 mediaType payload =>
    if rawLen payload ≤ cfg.attachmentInlineMax then none
    else some (dataUrlRecord mediaType (rawLen payload) (sha256HexPrefix payload 64))
  | _ => none

/-- Whether the field's text is cut to `tool_output_full`. -/
def isLargeTextField (fieldHint : Option String) : Bool := fieldHint.any fun name => rawLargeTextFields.contains name

/-- `sanitize_string` -/
def sanitizeString (s : Text) (cfg : SizeConfig) (fieldHint : Option String) : Value :=
  match if "data:".toList.isPrefixOf s then elideDataUrl s cfg else none with
  | some elided => elided
  | none =>
    if isLargeTextField fieldHint && cfg.toolOutputFull < byteLen s then elideText s cfg.toolOutputFull
    else .string (stripNulBytes s)

mutual

/-- `sanitize_value` -/
def sanitizeValue (cfg : SizeConfig) (fieldHint : Option String) : Value → Value
  | .object fields => .object (sanitizeFields cfg fields)
  | .array values => .array (sanitizeValues cfg fieldHint values)
  | .string s => sanitizeString s cfg fieldHint
  | .null => .null
  | .bool b => .bool b
  | .number n => .number n

def sanitizeValues (cfg : SizeConfig) (fieldHint : Option String) : List Value → List Value
  | [] => []
  | v :: values => sanitizeValue cfg fieldHint v :: sanitizeValues cfg fieldHint values

def sanitizeFields (cfg : SizeConfig) : List (String × Value) → List (String × Value)
  | [] => []
  | (k, v) :: fields => (k, sanitizeValue cfg (some k) v) :: sanitizeFields cfg fields

end

/-- `sanitize_raw_payload_with_config` -/
def sanitizeRawPayload (payload : Value) (cfg : SizeConfig) : Value := sanitizeValue cfg none payload

end Decoding

end MemoryStore.AgentImport
