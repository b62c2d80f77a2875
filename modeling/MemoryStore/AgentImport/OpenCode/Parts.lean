/-
The parts of a message (`agent-chat-import/src/source/opencode.rs`): the checks a
part goes through, and the entries it is cut into. A tool call and its output are
two entries, and the files of an output hang off it.

What an entry carries besides its place (content, metadata, canonical parts), the
text of a JSON value and the URL parser are the class `Rendering`. Of a data URL
the type, the encoding and whether it decodes are here.
-/
import MemoryStore.AgentImport.ClaudeCode.Transcript
import MemoryStore.AgentImport.OpenCode.Rows
import MemoryStore.Lib.Fallible
import MemoryStore.Lib.Utf8

namespace MemoryStore.AgentImport.OpenCode

open Utf8 (byteLen)
open Whitespace (trimChars)
open ClaudeCode (CanonicalEntry MessageRole)

/-- `Map<String, Value>` -/
abbrev Fields := List (String × Data)

/-- `Value::get` -/
def Data.get (key : String) : Data → Option Data
  | .object fields => fields.lookup key
  | _ => none

/-- `Value::as_object` -/
def Data.asObject : Data → Option Fields
  | .object fields => some fields
  | _ => none

/-- `Value::as_str` -/
def Data.asStr : Data → Option Text
  | .string s => some s
  | _ => none

/-- `Value::as_bool` -/
def Data.asBool : Data → Option Bool
  | .bool b => some b
  | _ => none

/-- `Value::as_i64` -/
def Data.asI64 : Data → Option Int
  | .int n => if -2 ^ 63 ≤ n ∧ n < 2 ^ 63 then some n else none
  | _ => none

/-- `Value::as_array` -/
def Data.asArray : Data → Option (List Data)
  | .array values => some values
  | _ => none

def Data.isNull : Data → Bool
  | .null => true
  | _ => false

/-! ## Reading a field -/

/-- `bail!` -/
def refuse (c : Prop) [Decidable c] (text : String) : Except String Unit := if c then .error text else .ok ()

/-- `ok_or_else` -/
def required {α : Type} (text : String) : Option α → Except String α
  | some a => .ok a
  | none => .error text

/-- `object` -/
def object (value : Data) (what : String) : Except String Fields := required s!"{what} must be a JSON object" value.asObject

/-- `non_empty_or_empty_string` -/
def nonEmptyOrEmptyString (value : Option Data) (what : String) : Except String Text :=
  required s!"{what} must be a string" (value.bind Data.asStr)

/-- `non_empty_string` -/
def nonEmptyString (value : Option Data) (what : String) : Except String Text := do
  let value ← nonEmptyOrEmptyString value what
  refuse (value = []) s!"{what} must not be empty"
  pure value

/-- A field that is checked when it is there. -/
def optionally {α : Type} (value : Option α) (check : α → Except String Unit) : Except String Unit :=
  match value with
  | none => .ok ()
  | some value => check value

/-- `positive_ms` -/
def positiveMs (value : Option Data) (what : String) : Except String (Option Int) :=
  match value with
  | none => .ok none
  | some value =>
    if value.isNull then .ok none
    else do
      let n ← required s!"{what} must be an integer" value.asI64
      refuse (n < 0) s!"{what} must not be negative"
      pure (if 0 < n then some n else none)

/-- `message_completed_at` -/
def messageCompletedAt (data : Fields) : Except String (Option Int) :=
  match data.lookup "time" with
  | none => .ok none
  | some time => do
    let time ← object time "message.time"
    positiveMs (time.lookup "completed") "message.time.completed"

/-- A text that is checked when it is there. -/
def checkString (data : Fields) (key what : String) : Except String Unit :=
  optionally (data.lookup key) fun value => do discard (nonEmptyString (some value) what)

/-- The `variant` of a model. -/
def checkVariant (data : Fields) (what : String) : Except String Unit :=
  optionally ((data.lookup "variant").filter fun value => !value.isNull) fun value => do
    discard (nonEmptyString (some value) what)

/-- The checks of `normalized_model`. -/
def normalizedModel (value : Option Data) : Except String Unit :=
  optionally value fun value => do
    let obj ← object value "session.model"
    optionally ((obj.lookup "id").or (obj.lookup "modelID")) fun v => do discard (nonEmptyString (some v) "model.id")
    checkString obj "providerID" "model.providerID"
    checkVariant obj "model.variant"

/-- The checks of `message_model`. -/
def messageModel (data : Fields) (role : Text) : Except String Unit :=
  if role = "user".toList then normalizedModel (data.lookup "model")
  else do
    checkString data "providerID" "message.providerID"
    checkString data "modelID" "message.modelID"
    checkVariant data "message.variant"

/-- The checks of `normalize_error_metadata`. -/
def normalizeErrorMetadata (data : Fields) : Except String Unit :=
  optionally (data.lookup "error") fun error => do
    let error ← object error "message.error"
    optionally (error.lookup "name") fun name => do discard (nonEmptyOrEmptyString (some name) "message.error.name")
    optionally (error.lookup "data") fun data => do
      let data ← object data "message.error.data"
      optionally (data.lookup "message") fun message => do
        discard (nonEmptyOrEmptyString (some message) "message.error.data.message")

/-- The checks of `runtime_metadata`. -/
def runtimeMetadata (kind : Text) (data : Fields) : Except String Unit :=
  if kind = "subtask".toList then do
    discard (nonEmptyOrEmptyString (data.lookup "agent") "subtask.agent")
    discard (nonEmptyOrEmptyString (data.lookup "description") "subtask.description")
    optionally (data.lookup "command") fun value => do discard (nonEmptyOrEmptyString (some value) "subtask.command")
    normalizedModel (data.lookup "model")
  else if kind = "patch".toList then do
    let files ← required "patch.files is required" (data.lookup "files")
    refuse (!files.asArray.any fun values => values.all fun value => value.asStr.isSome)
      "patch.files must be an array of strings"
    discard (nonEmptyOrEmptyString (data.lookup "hash") "patch.hash")
  else if kind = "compaction".toList then do
    let auto ← required "compaction.auto is required" (data.lookup "auto")
    discard (required "compaction.auto must be a boolean" auto.asBool)
    optionally (data.lookup "overflow") fun value => do
      discard (required "compaction.overflow must be a boolean" value.asBool)
    optionally (data.lookup "tail_start_id") fun value => do
      let value ← nonEmptyOrEmptyString (some value) "compaction.tail_start_id"
      validateId value "compaction tail_start_id" "msg".toList
  else .ok ()

/-! ## Diagnostics -/

/-- `SourceDiagnostics` -/
structure SourceDiagnostics where
  deferred : Nat
  ignoredByReason : KeyMap String Nat
  warningExclusionsByReason : KeyMap String Nat
  warningsByReason : KeyMap String Nat

/-- What is noted on the way, and the usage warnings given so far. -/
structure Noted where
  diagnostics : SourceDiagnostics
  usageWarningSeen : List Text

/-- A part is read noting what is odd about it; what is noted stays when it fails. -/
abbrev Noting := ExceptT String (StateM Noted)

def SourceDiagnostics.defer (d : SourceDiagnostics) (n : Nat) : SourceDiagnostics := { d with deferred := d.deferred + n }

def SourceDiagnostics.ignore (d : SourceDiagnostics) (reason : String) (n : Nat) : SourceDiagnostics :=
  { d with ignoredByReason := d.ignoredByReason.add reason n }

/-- `warning_exclusion` -/
def SourceDiagnostics.exclude (d : SourceDiagnostics) (reason : String) (n : Nat) : SourceDiagnostics :=
  { d with warningExclusionsByReason := d.warningExclusionsByReason.add reason n }

def SourceDiagnostics.warn (d : SourceDiagnostics) (reason : String) : SourceDiagnostics :=
  { d with warningsByReason := d.warningsByReason.add reason 1 }

def Noted.note (n : Noted) (f : SourceDiagnostics → SourceDiagnostics) : Noted := { n with diagnostics := f n.diagnostics }

def noting (f : SourceDiagnostics → SourceDiagnostics) : Noting Unit := modify fun n => n.note f

/-- `numeric_nonnegative` -/
def numericNonnegative : Data → Bool
  | .int n => 0 ≤ n
  | .float q => 0 ≤ q
  | _ => false

/-- `usage_warning` -/
def usageWarning (messageId : Text) (field : String) : Noting Unit :=
  modify fun n =>
    let key := messageId ++ ':' :: field.toList
    if key ∈ n.usageWarningSeen then n
    else { (n.note fun d => d.warn "invalid_usage_value") with usageWarningSeen := key :: n.usageWarningSeen }

/-- One number of the usage. -/
def usageNumber (messageId : Text) (data : Fields) (key field : String) : Noting Unit :=
  if (data.lookup key).all numericNonnegative then pure () else usageWarning messageId field

/-- The checks of `normalize_usage`. -/
def normalizeUsage (data : Fields) (messageId : Text) : Noting Unit := do
  usageNumber messageId data "cost" "cost"
  match data.lookup "tokens" with
  | none => pure ()
  | some tokens =>
    let tokens ← object tokens "message.tokens"
    ["total", "input", "output", "reasoning"].forM fun key => usageNumber messageId tokens key key
    match tokens.lookup "cache" with
    | none => pure ()
    | some cache =>
      let cache ← object cache "message.tokens.cache"
      ["read", "write"].forM fun key => usageNumber messageId cache key s!"cache.{key}"

/-! ## Data URLs -/

/-- `char::is_ascii_whitespace` -/
def isAsciiWhitespace (c : Char) : Bool := c ∈ [' ', '\t', '\n', '\r', Char.ofNat 12]

/-- `str::split_once` -/
def splitOnce (c : Char) (s : Text) : Option (Text × Text) :=
  if c ∈ s then some (s.takeWhile (· ≠ c), (s.dropWhile (· ≠ c)).tail) else none

/-- `normalize_mime` -/
def normalizeMime (value : Text) : Text := (trimChars (value.takeWhile (· ≠ ';'))).map Char.toLower

/-- `is_mime_token_byte` -/
def isMimeTokenByte (c : Char) : Bool := c.isAlphanum || "!#$%&'*+-.^_`|~".toList.contains c

/-- `valid_mime` -/
def validMime (value : Text) : Bool :=
  let base := trimChars (value.takeWhile (· ≠ ';'))
  if base = [] ∨ base.any (fun c => isAsciiWhitespace c || c == Char.ofNat 0) then false
  else match splitOnce '/' base with
    | none => false
    | some (major, subtype) =>
      major ≠ [] && subtype ≠ [] && major.all isMimeTokenByte && subtype.all isMimeTokenByte

/-- `url.get(..5)` is `data:`, in any case. -/
def isDataUrl (url : Text) : Bool := (url.take 5).map Char.toLower = "data:".toList

/-- A hexadecimal digit. -/
def hexDigit (c : Char) : Option Nat :=
  if '0' ≤ c ∧ c ≤ '9' then some (c.toNat - 48)
  else if 'a' ≤ c ∧ c ≤ 'f' then some (c.toNat - 87)
  else if 'A' ≤ c ∧ c ≤ 'F' then some (c.toNat - 55)
  else none

/-- `percent_decode_digest`, the number of bytes. -/
def percentDecode : Text → Except String Nat
  | '%' :: hi :: lo :: rest =>
    match hexDigit hi, hexDigit lo with
    | some hi, some lo =>
      if hi * 16 + lo = 0 then .error "data URL contains NUL" else (percentDecode rest).map (· + 1)
    | _, _ => .error "invalid percent escape"
  | '%' :: _ => .error "invalid percent escape"
  | c :: rest => if c = Char.ofNat 0 then .error "data URL contains NUL" else (percentDecode rest).map (· + c.utf8Size)
  | [] => .ok 0

/-- `decode_base64_bounded`, the number of bytes; what is not ASCII is never base64. -/
def decodeBase64Bounded [Base64] (value : Text) : Except String Nat :=
  let chunks := value.toChunks 4
  if value = [] ∨ byteLen value % 4 ≠ 0 ∨ value.any (fun c => 128 ≤ c.toNat) then .error "invalid base64 data URL"
  else if chunks.dropLast.any (fun chunk => chunk.contains '=') then .error "invalid base64 data URL"
  else match chunks.mapM Base64.decodedLen with
    | none => .error "invalid base64 data URL"
    | some sizes => .ok sizes.sum

/-- `ParsedDataUrl`, without the payload. -/
structure ParsedDataUrl where
  mediaType : Option Text
  base64 : Bool

/-- The loop over the parameters of a data URL: only the last may be `base64`. -/
def readParameters : List Text → Except String Bool
  | [] => .ok false
  | parameter :: rest =>
    if parameter.map Char.toLower = "base64".toList then
      if rest = [] then .ok true else .error "invalid data URL parameter"
    else match splitOnce '=' parameter with
      | none => .error "invalid data URL parameter"
      | some (name, value) =>
        if name = [] ∨ value = [] then .error "invalid data URL parameter" else readParameters rest

/-- `parse_data_url` -/
def parseDataUrl [Base64] (value : Text) : Except String ParsedDataUrl := do
  refuse ('#' ∈ value) "data URL fragments are not accepted"
  refuse (!isDataUrl value) "invalid data URL"
  let (header, payload) ← required "data URL has no comma" (splitOnce ',' (value.drop 5))
  refuse (header.any isAsciiWhitespace) "data URL header contains whitespace"
  let fields := header.splitOn ';'
  let first := fields.headD []
  let base64 ← readParameters fields.tail
  let media := if first = [] then none else some (normalizeMime first)
  let media := media.filter fun media => media ≠ []
  refuse (media.any fun media => !validMime media) "data URL has an invalid MIME type"
  let size ← if base64 then decodeBase64Bounded payload else percentDecode payload
  refuse (size = 0) "empty data URL payload"
  pure ⟨media, base64⟩

/-! ## File parts -/

/-- What the metadata of an entry is made of. -/
structure Common where
  sessionId : Text
  message : MessageRow
  part : PartRow
  role : Text

/-- What an entry carries besides its place. -/
class Rendering (Body : outParam Type) where
  text : Common → Text → Body
  toolCall : Common → Body
  toolOutput : Common → Text → Body
  /-- A file part, or an attachment of a tool output with its id. -/
  file : Common → Option Text → Fields → Body
  /-- `opencode.remove("usage")` -/
  withoutUsage : Body → Body
  /-- `Value::to_string` -/
  toJson : Data → Text
  /-- `url::Url::parse` accepts the text. -/
  urlParses : Text → Bool

section Rendered

variable {Body : Type} [Base64] [Rendering Body]

open Rendering

/-- `entry` -/
def entry (id : Text) (role : MessageRole) (body : Body) (timestamp : Int) (kind : String) : CanonicalEntry Body where
  externalId := id
  parentExternalIds := []
  role := role
  timestampMs := timestamp
  importOrder := timestamp
  kindTag := kind
  body := body

/-- The URL of a file part is accepted. -/
def checkUrl (url : Text) : Except String Unit :=
  if isDataUrl url then discard (parseDataUrl url)
  else
    refuse (!urlParses url ∧ (splitOnce ':' url).any fun (scheme, _) =>
        scheme.map Char.toLower ∈ ["http".toList, "https".toList, "file".toList])
      "file.url is not a valid URL"

/-- `normalize_file_part` -/
def normalizeFilePart (base : Text) (data : Fields) (role : MessageRole) (body : Body) (timestamp : Int) :
    Except String (List (CanonicalEntry Body)) := do
  let mime ← required "file.mime is required" (data.lookup "mime")
  let rawMime ← required "file.mime must be a string" mime.asStr
  refuse ((data.lookup "filename").any fun value => value.asStr.isNone) "file.filename must be a string"
  refuse (trimChars rawMime ≠ [] ∧ !validMime rawMime) "file.mime is not a valid MIME type"
  let url ← nonEmptyString (data.lookup "url") "file.url"
  refuse (Char.ofNat 0 ∈ url) "file.url contains NUL"
  checkUrl url
  pure [entry base role body timestamp "attachment"]

/-- The text contains another. -/
def containsText (text part : String) : Bool := decide (part.toList <:+: text.toList)

/-- `attachment_error_reason` -/
def attachmentErrorReason (error : String) : String :=
  if containsText error "data URL" || containsText error "base64" || containsText error "percent" then "invalid_data_url"
  else "invalid_file_part"

/-- `is_attachment_error` -/
def isAttachmentError (error : String) : Bool :=
  "file.".toList.isPrefixOf error.toList || containsText error "data URL" || containsText error "base64" ||
    containsText error "percent"

/-- `record_attachment_warnings` -/
def recordAttachmentWarnings (data : Fields) (d : SourceDiagnostics) : SourceDiagnostics :=
  let mime := (data.lookup "mime").bind Data.asStr
  let d := if mime.any fun value => trimChars value = [] then d.warn "empty_mime_fallback" else d
  match (data.lookup "url").bind Data.asStr with
  | none => d
  | some url =>
    if !isDataUrl url then d
    else match parseDataUrl url with
      | .error _ => d
      | .ok parsed =>
        if !parsed.base64 then d.warn "data_url_non_base64"
        else if parsed.mediaType.map normalizeMime ≠ some (normalizeMime (mime.getD "application/octet-stream".toList)) then
          d.warn "data_url_mime_mismatch"
        else d

/-! ## Times -/

/-- The time of a row that carries one. -/
def rowTime (part : PartRow) (message : MessageRow) : Option Int :=
  if 0 < part.createdAtMs then some part.createdAtMs
  else if 0 < message.createdAtMs then some message.createdAtMs
  else none

/-- `part_timestamp`, which is not asked about tools. -/
def partTimestamp (part : PartRow) (message : MessageRow) (kind : Text) : Except String Int := do
  discard (object part.data "part.data")
  let candidate ←
    if kind = "text".toList ∨ kind = "reasoning".toList then
      positiveMs ((part.data.get "time").bind (Data.get "start")) "part.time.start"
    else pure none
  required "no valid entry timestamp" (candidate.or (rowTime part message))

/-- `tool_timestamp` -/
def toolTimestamp (part : PartRow) (message : MessageRow) (output : Bool) : Except String Int := do
  let data ← object part.data "part.data"
  let state ← required "tool.state is required" (data.lookup "state")
  let state ← object state "tool.state"
  let time := (state.lookup "time").bind Data.asObject
  let start ← positiveMs (time.bind fun time => time.lookup "start") "tool.time.start"
  let stop ← positiveMs (time.bind fun time => time.lookup "end") "tool.time.end"
  refuse (start.any fun start => stop.any fun stop => stop < start) "tool end precedes start"
  let fallback ← required "no valid tool entry timestamp" (rowTime part message)
  pure (if output then (stop.or start).getD fallback else start.getD fallback)

/-! ## Tool parts -/

/-- The loop over the attachments of a tool output: those that are files of the message, with their ids. -/
def validAttachments (sessionId messageId : Text) : List Text → List Data → Noting (List (Text × Fields))
  | _, [] => pure []
  | seen, attachment :: rest =>
    match attachment.asObject with
    | none => do
      noting fun d => d.exclude "invalid_file_part" 1
      validAttachments sessionId messageId seen rest
    | some fields =>
      match (fields.lookup "id").bind Data.asStr with
      | none => do
        noting fun d => d.exclude "invalid_file_part" 1
        validAttachments sessionId messageId seen rest
      | some id =>
        if !validId "prt".toList id || id ∈ seen then do
          noting fun d => d.exclude "invalid_file_part" 1
          validAttachments sessionId messageId seen rest
        else if (fields.lookup "type").bind Data.asStr ≠ some "file".toList ∨
            (fields.lookup "sessionID").bind Data.asStr ≠ some sessionId ∨
            (fields.lookup "messageID").bind Data.asStr ≠ some messageId then do
          noting fun d => d.exclude "invalid_file_part" 1
          validAttachments sessionId messageId (id :: seen) rest
        else do
          let valid ← validAttachments sessionId messageId (id :: seen) rest
          pure ((id, fields) :: valid)

/-- The entry of an attachment hangs off the tool output. -/
def hangOff (outputId : Text) (value : CanonicalEntry Body) : CanonicalEntry Body :=
  { value with parentExternalIds := value.parentExternalIds ++ [outputId] }

/-- The loop over the valid attachments. -/
def attachmentEntries (common : Common) (outputId : Text) (timestamp : Int) :
    List (Text × Fields) → Noting (List (CanonicalEntry Body))
  | [] => pure []
  | (id, fields) :: rest =>
    match normalizeFilePart (outputId ++ ":attachment:".toList ++ id) fields .roleTool (file common (some id) fields)
      timestamp with
    | .ok values => do
      noting (recordAttachmentWarnings fields)
      let more ← attachmentEntries common outputId timestamp rest
      pure (values.map (hangOff outputId) ++ more)
    | .error error => do
      noting fun d => d.exclude (attachmentErrorReason error) 1
      attachmentEntries common outputId timestamp rest

/-- The result of a tool, which its status says where to find. -/
def toolResult (status : Text) (state : Fields) : Except String Text :=
  if status = "completed".toList then do
    let output ← nonEmptyOrEmptyString (state.lookup "output") "tool.output"
    discard (nonEmptyOrEmptyString (state.lookup "title") "tool.title")
    let metadata ← required "completed tool metadata is required" (state.lookup "metadata")
    refuse metadata.asObject.isNone "tool.metadata must be an object"
    pure output
  else do
    let error ← nonEmptyOrEmptyString (state.lookup "error") "tool.error"
    refuse ((state.lookup "metadata").any fun metadata => metadata.asObject.isNone) "tool.metadata must be an object"
    pure error

/-- A time a terminal tool must have. -/
def checkTerminalTime (time : Fields) (field : String) : Except String Unit := do
  let value ← required s!"tool.time.{field} is required" (time.lookup field)
  refuse value.isNull s!"tool.time.{field} must be an integer"
  discard (positiveMs (some value) s!"tool.time.{field}")

/-- The checks of a terminal tool: its input and times. -/
def checkTerminal (state : Fields) : Except String Fields := do
  refuse ((state.lookup "input").bind Data.asObject).isNone "terminal tool input must be an object"
  let time ← required "terminal tool time is required" (state.lookup "time")
  let time ← object time "tool.time"
  checkTerminalTime time "start"
  checkTerminalTime time "end"
  pure time

/-- Only the output of a completed tool is compacted. -/
def compacted (status : Text) (time : Fields) : Bool := status = "completed".toList && (time.lookup "compacted").isSome

/-- The files of a tool output, in the order of their ids. -/
def outputFiles (common : Common) (outputId : Text) (timestamp : Int) (state : Fields) :
    Noting (List (CanonicalEntry Body)) :=
  match (state.lookup "attachments").bind Data.asArray with
  | none => pure []
  | some attachments => do
    let valid ← validAttachments common.sessionId common.message.id [] attachments
    attachmentEntries common outputId timestamp (valid.insertionSort fun a b => a.1 ≤ b.1)

/-- `normalize_tool_part` -/
def normalizeToolPart (base : Text) (data : Fields) (common : Common) : Noting (List (CanonicalEntry Body)) := do
  let state ← required "tool.state is required" (data.lookup "state")
  let state ← object state "tool.state"
  let status ← nonEmptyString (state.lookup "status") "tool.state.status"
  if status ∉ ["pending".toList, "running".toList, "completed".toList, "error".toList] then pure []
  else do
    discard (nonEmptyString (data.lookup "tool") "tool.name" : Except String Text)
    discard (nonEmptyString (data.lookup "callID") "tool.callID" : Except String Text)
    if status ∈ ["pending".toList, "running".toList] then pure []
    else do
      let time ← checkTerminal state
      let callTimestamp ← toolTimestamp common.part common.message false
      let outputTimestamp ← toolTimestamp common.part common.message true
      optionally (time.lookup "compacted") fun value => do discard (positiveMs (some value) "tool.time.compacted")
      let output ← toolResult status state
      let call := entry (base ++ ":call".toList) .roleAssistant (toolCall common) callTimestamp "tool_call"
      if compacted status time then pure [call]
      else do
        let outputId := base ++ ":output".toList
        let result := entry outputId .roleTool (toolOutput common output) outputTimestamp "tool_output"
        let files ← outputFiles common outputId outputTimestamp state
        pure (call :: result :: files)

/-! ## Parts -/

/-- The kinds of parts whose flags are checked. -/
def flaggedKinds : List Text :=
  ["text".toList, "reasoning".toList, "tool".toList, "file".toList, "subtask".toList, "patch".toList, "agent".toList,
    "compaction".toList]

/-- A field that is null or of a type when it is there. -/
def checkType (data : Fields) (test : Data → Bool) (what : String) (field : String) : Except String Unit :=
  refuse ((data.lookup field).any fun value => !value.isNull && !test value) s!"part.{field} must be a {what}"

/-- The flags of a part. -/
def checkFlags (kind : Text) (data : Fields) : Except String Unit :=
  if kind ∈ flaggedKinds then do
    ["agent", "finish"].forM (checkType data (fun value => value.asStr.isSome) "string")
    ["ignored", "synthetic"].forM (checkType data (fun value => value.asBool.isSome) "boolean")
  else .ok ()

/-- The id that the entries of a part go by. -/
def partBase (sessionId messageId partId : Text) : Text :=
  "opencode:".toList ++ sessionId ++ ":msg:".toList ++ messageId ++ ":part:".toList ++ partId

/-- The role of a message. -/
def messageRole (role : Text) : MessageRole := if role = "user".toList then .roleUser else .roleAssistant

/-- A text or reasoning part. -/
def textPart (base kind : Text) (data : Fields) (common : Common) : Except String (List (CanonicalEntry Body)) := do
  refuse ((data.lookup "time").any fun time => !time.isNull && time.asObject.isNone) "part.time must be an object"
  let timestamp ← partTimestamp common.part common.message kind
  let content ← nonEmptyOrEmptyString (data.lookup "text") "part.text"
  if content = [] ∨ (data.lookup "ignored").bind Data.asBool = some true then pure []
  else if kind = "reasoning".toList then
    pure [entry base .roleAssistant (text common content) timestamp "reasoning"]
  else
    pure [entry base (messageRole common.role) (text common content) timestamp
      (if common.role = "user".toList then "user" else "assistant")]

/-- A tool part; one that still runs gives nothing. -/
def toolPart (base : Text) (data : Fields) (common : Common) : Noting (List (CanonicalEntry Body)) := do
  let state ← required "tool.state is required" (data.lookup "state")
  let state ← object state "tool.state"
  let status ← nonEmptyString (state.lookup "status") "tool.state.status"
  if status ∈ ["pending".toList, "running".toList] then pure [] else normalizeToolPart base data common

/-- A file part. -/
def filePart (base kind : Text) (data : Fields) (common : Common) : Noting (List (CanonicalEntry Body)) := do
  let timestamp ← partTimestamp common.part common.message kind
  let values ← normalizeFilePart base data (messageRole common.role) (file common none data) timestamp
  noting (recordAttachmentWarnings data)
  pure values

/-- The text of a part about the run itself. -/
def runtimeText (kind : Text) (data : Fields) : Except String Text :=
  if kind = "subtask".toList then do
    let description ← nonEmptyOrEmptyString (data.lookup "description") "subtask.description"
    let prompt ← nonEmptyOrEmptyString (data.lookup "prompt") "subtask.prompt"
    pure (description ++ '\n' :: prompt)
  else if kind = "patch".toList then do
    let files ← required "patch.files is required" (data.lookup "files")
    pure (toJson files)
  else if kind = "agent".toList then nonEmptyOrEmptyString (data.lookup "name") "agent.name"
  else pure "OpenCode compaction".toList

/-- A part about the run itself. -/
def runtimePart (base kind : Text) (data : Fields) (common : Common) : Except String (List (CanonicalEntry Body)) := do
  let timestamp ← partTimestamp common.part common.message kind
  runtimeMetadata kind data
  let content ← runtimeText kind data
  if content = [] then pure [] else pure [entry base .roleMeta (text common content) timestamp "system"]

/-- The checks of an assistant message, its usage noted. -/
def assistantChecks (role : Text) (data : Fields) (messageId : Text) : Noting Unit :=
  if role = "assistant".toList then do
    normalizeUsage data messageId
    normalizeErrorMetadata data
  else pure ()

/-- `normalize_part` -/
def normalizePart (sessionId : Text) (message : MessageRow) (part : PartRow) (role : Text) :
    Noting (List (CanonicalEntry Body)) := do
  refuse (part.sessionId ≠ sessionId ∨ part.messageId ≠ message.id) "part reference mismatch"
  let data ← object part.data "part.data"
  let kind ← nonEmptyString (data.lookup "type") "part.type"
  checkFlags kind data
  let messageData ← object message.data "message.data"
  refuse (role = "assistant".toList ∧
      ((messageData.lookup "summary").any fun summary => !summary.isNull && summary.asBool.isNone))
    "message.summary must be a boolean"
  discard (messageCompletedAt messageData : Except String (Option Int))
  messageModel messageData role
  assistantChecks role messageData message.id
  let base := partBase sessionId message.id part.id
  let common : Common := ⟨sessionId, message, part, role⟩
  if kind = "text".toList ∨ kind = "reasoning".toList then textPart base kind data common
  else if kind = "tool".toList then toolPart base data common
  else if kind = "file".toList then filePart base kind data common
  else if kind ∈ ["subtask".toList, "patch".toList, "agent".toList, "compaction".toList] then
    runtimePart base kind data common
  else pure []

end Rendered

/-! ## What a part gives -/

/-- Whatever a part is read to, when it is read, is as said. -/
def Gives {α : Type} (x : Noting α) (P : α → Prop) : Prop := ∀ n a n', x.run.run n = (.ok a, n') → P a

section Gives

variable {α β : Type} {P : α → Prop} {Q : β → Prop} {x : Noting α} {f : α → Noting β}

theorem gives_pure {a : α} (h : P a) : Gives (pure a : Noting α) P := by
  intro n b n' heq
  obtain rfl : a = b := Except.ok.inj (congrArg Prod.fst heq)
  exact h

theorem gives_bind (hx : Gives x P) (hf : ∀ a, P a → Gives (f a) Q) : Gives (x >>= f) Q := by
  intro n b n' heq
  rcases h : x.run.run n with ⟨e | a, n₁⟩
  · have hrun : (x >>= f).run.run n = (.error e, n₁) := by
      simp only [ExceptT.run_bind, StateT.run_bind, h]
      rfl
    rw [hrun] at heq
    exact absurd (congrArg Prod.fst heq) (by simp)
  · have hrun : (x >>= f).run.run n = (f a).run.run n₁ := by
      simp only [ExceptT.run_bind, StateT.run_bind, h]
      rfl
    rw [hrun] at heq
    exact hf a (hx n a n₁ h) n₁ b n' heq

/-- What the first step reads does not matter. -/
theorem gives_after (hf : ∀ a, Gives (f a) Q) : Gives (x >>= f) Q :=
  gives_bind (P := fun _ => True) (fun _ _ _ _ => trivial) fun a _ => hf a

theorem gives_except {y : Except String α} (h : ∀ a, y = .ok a → P a) : Gives (liftM y : Noting α) P := by
  intro n a n' heq
  have hrun : (liftM y : Noting α).run.run n = (y, n) := rfl
  rw [hrun] at heq
  exact h a (congrArg Prod.fst heq)

theorem Gives.mono {P' : α → Prop} (h : Gives x P) (hp : ∀ a, P a → P' a) : Gives x P' :=
  fun n a n' heq => hp a (h n a n' heq)

end Gives

/-- An id that goes by a base. -/
def Under (base id : Text) : Prop := id = base ∨ ∃ rest, id = base ++ ':' :: rest

/-- **What a part gives**: entries that go by its base, each once; one that hangs off another of them
hangs off a tool output before it. -/
structure Produced (base : Text) (produced : List (CanonicalEntry Body)) : Prop where
  under : ∀ e ∈ produced, Under base e.externalId
  nodup : (produced.map CanonicalEntry.externalId).Nodup
  hangs : ∀ before e after, produced = before ++ e :: after → ∀ p ∈ e.parentExternalIds,
    ":output".toList.isSuffixOf p = true ∧ ∃ x ∈ before, x.kindTag = "tool_output" ∧ x.externalId = p

section Produced

variable {Body : Type} {base : Text}

theorem produced_nil : Produced base ([] : List (CanonicalEntry Body)) where
  under e he := absurd he List.not_mem_nil
  nodup := List.nodup_nil
  hangs before e after h := absurd h (by simp)

/-- One entry without parents. -/
theorem produced_one {e : CanonicalEntry Body} (hu : Under base e.externalId) (hp : e.parentExternalIds = []) :
    Produced base [e] where
  under x hx := List.mem_singleton.1 hx ▸ hu
  nodup := List.nodup_singleton _
  hangs before x after h := by
    have hx : x ∈ [e] := by simp [h]
    rw [List.mem_singleton.1 hx, hp]
    exact fun p hmem => absurd hmem List.not_mem_nil

/-- The id of the output of a tool, and of a file of it. -/
def outputOf (base : Text) : Text := base ++ ":output".toList

def fileOf (outputId id : Text) : Text := outputId ++ ":attachment:".toList ++ id

theorem under_suffix (tail : Text) : Under base (base ++ ':' :: tail) := .inr ⟨tail, rfl⟩

theorem callId_eq : ":call".toList = ':' :: 'c' :: "all".toList := by decide

theorem outputId_eq : ":output".toList = ':' :: 'o' :: "utput".toList := by decide

theorem call_ne_output (more : Text) : base ++ ":call".toList ≠ outputOf base ++ more := by
  rw [outputOf, List.append_assoc, outputId_eq, callId_eq]
  intro h
  have htail := List.append_cancel_left h
  rw [List.cons_append, List.cons_append] at htail
  exact absurd (List.cons.inj (List.cons.inj htail).2).1 (by decide)

/-- A call, its output and the files that hang off it. -/
theorem produced_tool {call output : CanonicalEntry Body} {files : List (CanonicalEntry Body)} {ids : List Text}
    (hcall : call.externalId = base ++ ":call".toList) (hcallParents : call.parentExternalIds = [])
    (houtput : output.externalId = outputOf base) (houtputParents : output.parentExternalIds = [])
    (hkind : output.kindTag = "tool_output") (hn : ids.Nodup)
    (hfiles : files.map CanonicalEntry.externalId = ids.map (fileOf (outputOf base)))
    (hparents : ∀ e ∈ files, e.parentExternalIds = [outputOf base]) : Produced base (call :: output :: files) where
  under e he := by
    rcases List.mem_cons.1 he with rfl | he
    · rw [hcall, callId_eq]
      exact under_suffix _
    · rcases List.mem_cons.1 he with rfl | he
      · rw [houtput, outputOf, outputId_eq]
        exact under_suffix _
      · have hid := List.mem_map_of_mem (f := CanonicalEntry.externalId) he
        rw [hfiles] at hid
        obtain ⟨id, -, hid⟩ := List.mem_map.1 hid
        rw [← hid, fileOf, outputOf, outputId_eq]
        exact .inr ⟨_, by simp only [List.append_assoc, List.cons_append]; rfl⟩
  nodup := by
    rw [List.map_cons, List.map_cons, hfiles, hcall, houtput, List.nodup_cons, List.nodup_cons]
    refine ⟨fun hmem => ?_, fun hmem => ?_, hn.map fun id id' h => List.append_cancel_left h⟩
    · rcases List.mem_cons.1 hmem with h | hmem
      · exact call_ne_output [] (by rw [h, List.append_nil])
      · obtain ⟨id, -, hid⟩ := List.mem_map.1 hmem
        exact call_ne_output (":attachment:".toList ++ id) (by rw [← hid, fileOf, List.append_assoc])
    · obtain ⟨id, -, hid⟩ := List.mem_map.1 hmem
      rw [fileOf, List.append_assoc, List.append_right_eq_self, List.append_eq_nil_iff] at hid
      exact absurd hid.1 (by decide)
  hangs
    | [], e, after, h, p, hp => by
      obtain ⟨rfl, -⟩ := List.cons.inj h
      rw [hcallParents] at hp
      exact absurd hp List.not_mem_nil
    | [x], e, after, h, p, hp => by
      obtain ⟨-, h⟩ := List.cons.inj h
      obtain ⟨rfl, -⟩ := List.cons.inj h
      rw [houtputParents] at hp
      exact absurd hp List.not_mem_nil
    | x :: y :: before, e, after, h, p, hp => by
      obtain ⟨-, htail⟩ := List.cons.inj h
      obtain ⟨rfl, hfiles⟩ := List.cons.inj htail
      have he : e ∈ files := by
        rw [hfiles]
        exact List.mem_append_right _ List.mem_cons_self
      rw [hparents e he] at hp
      obtain rfl := List.mem_singleton.1 hp
      refine ⟨?_, output, by simp, hkind, houtput⟩
      rw [List.isSuffixOf_iff_suffix]
      exact List.suffix_append _ _

theorem gives_validAttachments (sessionId messageId : Text) : ∀ (attachments : List Data) (seen : List Text),
    Gives (validAttachments sessionId messageId seen attachments) fun valid =>
      (valid.map Prod.fst).Nodup ∧ ∀ id ∈ valid.map Prod.fst, id ∉ seen
  | [], _ => gives_pure (by simp)
  | attachment :: rest, seen => by
    have hskip : ∀ (d : SourceDiagnostics → SourceDiagnostics) (seen' : List Text), seen ⊆ seen' →
        Gives (do noting d; validAttachments sessionId messageId seen' rest) fun valid =>
          (valid.map Prod.fst).Nodup ∧ ∀ id ∈ valid.map Prod.fst, id ∉ seen := by
      intro d seen' hsub
      refine gives_after fun _ => (gives_validAttachments sessionId messageId rest seen').mono ?_
      intro valid ⟨hn, hnew⟩
      exact ⟨hn, fun id hid hs => hnew id hid (hsub hs)⟩
    unfold validAttachments
    split
    · exact hskip _ seen (List.Subset.refl _)
    · split
      · exact hskip _ seen (List.Subset.refl _)
      · next id _ =>
        split
        · exact hskip _ seen (List.Subset.refl _)
        · next hseen =>
          split
          · exact hskip _ (id :: seen) (List.subset_cons_self _ _)
          · refine gives_bind (gives_validAttachments sessionId messageId rest (id :: seen)) ?_
            intro valid ⟨hn, hnew⟩
            refine gives_pure ⟨?_, ?_⟩
            · rw [List.map_cons, List.nodup_cons]
              exact ⟨fun hmem => hnew id hmem List.mem_cons_self, hn⟩
            · intro x hx
              rw [List.map_cons, List.mem_cons] at hx
              rcases hx with rfl | hx
              · simp only [Bool.or_eq_true, decide_eq_true_eq, not_or] at hseen
                exact hseen.2
              · exact fun hs => hnew x hx (List.mem_cons_of_mem _ hs)

end Produced

section Rendered

variable {Body : Type} [Rendering Body] {base : Text}

open Rendering

theorem textPart_produced {kind : Text} {data : Fields} {common : Common} {produced : List (CanonicalEntry Body)}
    (h : textPart base kind data common = .ok produced) : Produced base produced := by
  unfold textPart at h
  simp only [Except.bind_eq_ok] at h
  obtain ⟨_, -, timestamp, -, content, -, h⟩ := h
  split at h
  · obtain rfl := Except.ok.inj h
    exact produced_nil
  · split at h
    · obtain rfl := Except.ok.inj h
      exact produced_one (.inl rfl) rfl
    · obtain rfl := Except.ok.inj h
      exact produced_one (.inl rfl) rfl

theorem runtimePart_produced {kind : Text} {data : Fields} {common : Common} {produced : List (CanonicalEntry Body)}
    (h : runtimePart base kind data common = .ok produced) : Produced base produced := by
  unfold runtimePart at h
  simp only [Except.bind_eq_ok] at h
  obtain ⟨timestamp, -, _, -, content, -, h⟩ := h
  split at h
  · obtain rfl := Except.ok.inj h
    exact produced_nil
  · obtain rfl := Except.ok.inj h
    exact produced_one (.inl rfl) rfl

variable [Base64]

theorem normalizeFilePart_ok {data : Fields} {role : MessageRole} {body : Body} {timestamp : Int}
    {values : List (CanonicalEntry Body)} (h : normalizeFilePart base data role body timestamp = .ok values) :
    values = [entry base role body timestamp "attachment"] := by
  unfold normalizeFilePart at h
  simp only [Except.bind_eq_ok] at h
  obtain ⟨_, -, _, -, _, -, _, -, _, -, _, -, _, -, h⟩ := h
  exact (Except.ok.inj h).symm

/-- The files of an output have ids of their own and hang off it. -/
theorem gives_attachmentEntries (common : Common) (outputId : Text) (timestamp : Int) : ∀ valid : List (Text × Fields),
    Gives (attachmentEntries common outputId timestamp valid) fun files =>
      ∃ ids : List Text, ids.Sublist (valid.map Prod.fst) ∧ files.map CanonicalEntry.externalId = ids.map (fileOf outputId) ∧
        ∀ e ∈ files, e.parentExternalIds = [outputId]
  | [] => gives_pure ⟨[], List.Sublist.refl _, rfl, by simp⟩
  | (id, fields) :: rest => by
    unfold attachmentEntries
    split
    next values hvalues =>
      rw [normalizeFilePart_ok hvalues]
      refine gives_after fun _ => gives_bind (gives_attachmentEntries common outputId timestamp rest) ?_
      intro files ⟨ids, hsub, hids, hparents⟩
      refine gives_pure ⟨id :: ids, hsub.cons_cons id, ?_, ?_⟩
      · rw [List.map_cons, List.map_append, hids]
        rfl
      · intro e he
        rcases List.mem_append.1 he with he | he
        · obtain rfl := List.mem_singleton.1 he
          rfl
        · exact hparents e he
    next error _ =>
      refine gives_after fun _ => (gives_attachmentEntries common outputId timestamp rest).mono ?_
      intro files ⟨ids, hsub, hids, hparents⟩
      exact ⟨ids, hsub.cons id, hids, hparents⟩

theorem gives_outputFiles (common : Common) (outputId : Text) (timestamp : Int) (state : Fields) :
    Gives (outputFiles common outputId timestamp state) fun files =>
      ∃ ids : List Text, ids.Nodup ∧ files.map CanonicalEntry.externalId = ids.map (fileOf outputId) ∧
        ∀ e ∈ files, e.parentExternalIds = [outputId] := by
  unfold outputFiles
  split
  · exact gives_pure ⟨[], List.nodup_nil, rfl, by simp⟩
  · next attachments _ =>
    refine gives_bind (gives_validAttachments common.sessionId common.message.id attachments []) ?_
    intro valid ⟨hn, _⟩
    refine (gives_attachmentEntries common outputId timestamp _).mono ?_
    intro files ⟨ids, hsub, hids, hparents⟩
    have hperm := (List.perm_insertionSort (fun a b : Text × Fields => a.1 ≤ b.1) valid).map Prod.fst
    exact ⟨ids, hsub.nodup (hperm.nodup_iff.2 hn), hids, hparents⟩

theorem gives_normalizeToolPart (data : Fields) (common : Common) :
    Gives (normalizeToolPart base data common) (Produced base) := by
  unfold normalizeToolPart
  refine gives_after fun _ => gives_after fun state => gives_after fun status => ?_
  split
  · exact gives_pure produced_nil
  refine gives_after fun _ => gives_after fun _ => ?_
  split
  · exact gives_pure produced_nil
  refine gives_after fun time => gives_after fun callTimestamp => gives_after fun outputTimestamp =>
    gives_after fun _ => gives_after fun output => ?_
  dsimp only
  split
  · refine gives_pure (produced_one ?_ rfl)
    show Under base (base ++ ":call".toList)
    rw [callId_eq]
    exact under_suffix _
  · refine gives_bind (gives_outputFiles common _ outputTimestamp state) ?_
    intro files ⟨ids, hn, hids, hparents⟩
    exact gives_pure (produced_tool rfl rfl rfl rfl rfl hn hids hparents)

/-- **Whatever a part is cut into hangs together.** -/
theorem gives_normalizePart (sessionId : Text) (message : MessageRow) (part : PartRow) (role : Text) :
    Gives (normalizePart sessionId message part role)
      (Produced (partBase sessionId message.id part.id)) := by
  unfold normalizePart
  refine gives_after fun _ => gives_after fun data => gives_after fun kind => gives_after fun _ =>
    gives_after fun messageData => gives_after fun _ => gives_after fun _ => gives_after fun _ =>
    gives_after fun _ => ?_
  dsimp only
  generalize partBase sessionId message.id part.id = base
  split
  · exact gives_except fun produced h => textPart_produced h
  split
  · unfold toolPart
    refine gives_after fun _ => gives_after fun _ => gives_after fun _ => ?_
    split
    · exact gives_pure produced_nil
    · exact gives_normalizeToolPart _ _
  split
  · unfold filePart
    refine gives_after fun _ => gives_bind (gives_except fun values h => normalizeFilePart_ok h) ?_
    intro values hvalues
    refine gives_after fun _ => gives_pure ?_
    rw [hvalues]
    exact produced_one (.inl rfl) rfl
  split
  · exact gives_except fun produced h => runtimePart_produced h
  · exact gives_pure produced_nil

end Rendered

end MemoryStore.AgentImport.OpenCode
