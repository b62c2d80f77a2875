/-
A Claude Code transcript (`agent-chat-import/src/source/claude_code.rs`): its
lines, and the entries they are cut into, one for each block of a message. The
id of an entry is its place in the transcript and a digest of its block; parents
are found in a table of the lines' first blocks that is built beforehand.

Reading a timestamp, writing a JSON value, Unicode lower case and what an entry
carries besides its place (content, metadata, canonical parts) are the class
`Rendering`. A text is its characters.
-/
import MemoryStore.AgentImport.RawPayload
import MemoryStore.Lib.KeyMap
import MemoryStore.Lib.Sha

namespace MemoryStore.AgentImport.ClaudeCode

/-- `RawEntry`, the fields that entries are cut by. -/
structure RawEntry where
  entryType : String
  uuid : Option Text
  timestamp : Option Text
  parentUuid : Option Text
  message : Option Value
  content : Option Value
  subtype : Option Text
  raw : Value

/-- `Value::get` -/
def get (key : String) : Value → Option Value
  | .object fields => fields.lookup key
  | _ => none

/-- `Value::as_str` -/
def asStr : Value → Option Text
  | .string s => some s
  | _ => none

/-- The text at a key. -/
def textAt (key : String) (value : Value) : Option Text := (get key value).bind asStr

/-- The values of the array at a key. -/
def arrayAt (key : String) (value : Value) : List Value :=
  match get key value with
  | some (.array values) => values
  | _ => []

/-- `AttachmentSubtypePolicy` -/
inductive AttachmentSubtypePolicy where
  | default
  | all
  | none
  | whitelist (set : List Text)

/-- The include set and the attachment policy. -/
structure Settings where
  includeTypes : List String
  attachmentPolicy : AttachmentSubtypePolicy

inductive MessageRole where
  | roleUser
  | roleAssistant
  | roleTool
  | roleMeta
  | roleUnspecified
  deriving DecidableEq, Repr

/-- What an entry is made of besides its place; nothing here depends on the settings. -/
class Rendering (Body : outParam Type) where
  parseTimestampMillis : Text → Option Int
  toLowercase : Text → Text
  /-- `serde_json::to_string` -/
  toJson : Value → Text
  system : RawEntry → Value → Body
  textBlock : RawEntry → Value → Text → Body
  toolCall : RawEntry → Value → Body
  toolOutput : RawEntry → Value → Body
  image : RawEntry → Value → String → Body
  reasoning : RawEntry → Value → Text → Body
  attachment : RawEntry → Body

open Rendering

/-- `CanonicalEntry` -/
structure CanonicalEntry (Body : Type) where
  externalId : Text
  parentExternalIds : List Text
  role : MessageRole
  timestampMs : Int
  importOrder : Int
  kindTag : String
  body : Body
  deriving DecidableEq, Repr

/-! ## Places and ids -/

/-- `BlockIdx` -/
inductive BlockIdx where
  | top (i : Nat)
  | sub (o i : Nat)
  deriving DecidableEq, Repr

/-- `BlockIdx::token` -/
def BlockIdx.token : BlockIdx → Text
  | .top i => 'b' :: (toString i).toList
  | .sub o i => 'b' :: (toString o).toList ++ "_sub".toList ++ (toString i).toList

/-- `BlockIdx::order_offset` -/
def BlockIdx.orderOffset : BlockIdx → Nat
  | .top i => i <<< 16
  | .sub o i => o <<< 16 ||| 1 <<< 15 ||| i

/-- `(line_idx << 32) | idx.order_offset()`, of 64 bits with a sign. -/
def importOrder (lineIdx : Nat) (idx : BlockIdx) : Int := Int.bmod (lineIdx <<< 32 ||| idx.orderOffset : Nat) (2 ^ 64)

/-- `sha1_hex_prefix` -/
def sha1HexPrefix (input : Text) (n : Nat) : Text := (Sha1.digestHex ((Utf8.encode input).map UInt8.toNat)).take n

/-- `build_block_external_id` -/
def buildBlockExternalId (sessionId msgUuid : Text) (idx : BlockIdx) (payloadJson : Text) : Text :=
  "claude_code:".toList ++ sessionId ++ ':' :: msgUuid ++ ':' :: idx.token ++ ':' :: sha1HexPrefix payloadJson 16

/-- `is_canonical_event_type` -/
def isCanonicalEventType (entryType : String) : Bool := entryType ∈ ["user", "assistant", "system", "attachment"]

/-- `HIGH_VALUE_ATTACHMENT_SUBTYPES` -/
def highValueAttachmentSubtypes : List Text :=
  ["task_reminder".toList, "diagnostics".toList, "edited_text_file".toList, "nested_memory".toList]

/-- The synthetic block of a bare text. -/
def syntheticBlock (s : Text) : Value := .object [("type", .string "text".toList), ("text", .string s)]

section Rendered

variable {Body : Type} [Rendering Body]

/-- `AttachmentSubtypePolicy::includes` -/
def AttachmentSubtypePolicy.includes (subtype : Text) : AttachmentSubtypePolicy → Bool
  | .default => highValueAttachmentSubtypes.any fun s => s.map Char.toLower = subtype.map Char.toLower
  | .all => true
  | .none => false
  | .whitelist set => toLowercase subtype ∈ set

/-- `block0_payload_for_message` -/
def block0PayloadForMessage (entry : RawEntry) : Option Text :=
  match entry.message.bind (get "content") with
  | some (.array arr) => arr.head?.map toJson
  | some (.string s) => some (toJson (syntheticBlock s))
  | _ => none

/-- What the id of a line's first block digests. -/
def anchorPayload (entry : RawEntry) : Text :=
  if entry.entryType = "attachment" then toJson ((get "content" entry.raw).getD .null)
  else if entry.entryType = "system" then (entry.content.map toJson).getD []
  else (block0PayloadForMessage entry).getD []

/-- One pass of `build_block0_anchor_map`. -/
def insertAnchor (sessionId : Text) (out : KeyMap Text Text) (entry : RawEntry) : KeyMap Text Text :=
  match entry.uuid with
  | none => out
  | some uuid => out.insert uuid (buildBlockExternalId sessionId uuid (.top 0) (anchorPayload entry))

/-- `build_block0_anchor_map` -/
def buildBlock0AnchorMap (sessionId : Text) (entries : List RawEntry) : KeyMap Text Text :=
  entries.foldl (insertAnchor sessionId) ∅

/-! ## Blocks -/

/-- `BlockEmit` -/
structure BlockEmit (Body : Type) where
  entries : List (CanonicalEntry Body)
  filtered : Nat

def BlockEmit.skip (out : BlockEmit Body) : BlockEmit Body := { out with filtered := out.filtered + 1 }

def BlockEmit.push (out : BlockEmit Body) (entry : CanonicalEntry Body) : BlockEmit Body :=
  { out with entries := out.entries ++ [entry] }

/-- `BlockCtx` -/
structure BlockCtx where
  entry : RawEntry
  sessionId : Text
  uuid : Text
  lineIdx : Nat
  includeTypes : List String
  parentAnchor : List Text
  timestampMs : Int
  entryRole : MessageRole

/-- What the emitters of a line share and change. -/
structure Emitting (Body : Type) where
  out : BlockEmit Body
  block0Eid : Option Text
  toolCallIdMap : KeyMap Text Text

/-- The id of a block of the line. -/
def BlockCtx.eid (ctx : BlockCtx) (idx : BlockIdx) (block : Value) : Text :=
  buildBlockExternalId ctx.sessionId ctx.uuid idx (toJson block)

/-- `anchor_and_parents` -/
def anchorAndParents (ctx : BlockCtx) (blockIdx : Nat) (eid : Text) (block0Eid : Option Text) :
    Option Text × List Text :=
  if blockIdx = 0 then (some eid, ctx.parentAnchor) else (block0Eid, block0Eid.toList)

/-- What the emitters of one entry differ in. -/
structure Shape (Body : Type) where
  kindTag : String
  role : MessageRole
  body : Body

/-- An emitter of one entry: `emit_text_block`, `emit_image_block` and `emit_reasoning_block`. -/
def emitBlock (ctx : BlockCtx) (blockIdx : Nat) (block : Value) (shape : Shape Body) (s : Emitting Body) :
    Emitting Body :=
  let eid := ctx.eid (.top blockIdx) block
  let (block0Eid, parentExternalIds) := anchorAndParents ctx blockIdx eid s.block0Eid
  if shape.kindTag ∉ ctx.includeTypes then { s with out := s.out.skip, block0Eid := block0Eid }
  else
    { s with
        block0Eid := block0Eid
        out := s.out.push
          { externalId := eid
            parentExternalIds := parentExternalIds
            role := shape.role
            timestampMs := ctx.timestampMs
            importOrder := importOrder ctx.lineIdx (.top blockIdx)
            kindTag := shape.kindTag
            body := shape.body } }

/-- `emit_text_block` -/
def textShape (ctx : BlockCtx) (block : Value) (blockType : Text) : Shape Body where
  kindTag :=
    match ctx.entry.entryType with
    | "user" => "user"
    | "assistant" => "assistant"
    | _ => "system"
  role := ctx.entryRole
  body := textBlock ctx.entry block blockType

/-- `emit_tool_use_block`, its entry -/
def toolUseShape (ctx : BlockCtx) (block : Value) : Shape Body :=
  ⟨"tool_call", .roleAssistant, toolCall ctx.entry block⟩

/-- `emit_image_block` -/
def imageShape (ctx : BlockCtx) (block : Value) : Shape Body :=
  ⟨"attachment", ctx.entryRole, image ctx.entry block "image"⟩

/-- `emit_reasoning_block` -/
def reasoningShape (ctx : BlockCtx) (block : Value) (blockType : Text) : Shape Body :=
  ⟨"reasoning", .roleAssistant, reasoning ctx.entry block blockType⟩

/-- `emit_tool_use_block`: the call is registered whether or not its entry is emitted. -/
def emitToolUseBlock (ctx : BlockCtx) (blockIdx : Nat) (block : Value) (s : Emitting Body) : Emitting Body :=
  let toolCallIdMap :=
    match textAt "id" block with
    | some tid => s.toolCallIdMap.insert tid (ctx.eid (.top blockIdx) block)
    | none => s.toolCallIdMap
  emitBlock ctx blockIdx block (toolUseShape ctx block) { s with toolCallIdMap := toolCallIdMap }

/-- The loop over the images inside a tool result. -/
def emitImages (ctx : BlockCtx) (blockIdx : Nat) (parent : List Text) : Nat → List Value → BlockEmit Body → BlockEmit Body
  | _, [], out => out
  | subIdx, sub :: rest, out =>
    emitImages ctx blockIdx parent (subIdx + 1) rest
      (if (textAt "type" sub).getD [] ≠ "image".toList then out
      else if "attachment" ∉ ctx.includeTypes then out.skip
      else
        out.push
          { externalId := ctx.eid (.sub blockIdx subIdx) sub
            parentExternalIds := parent
            role := .roleTool
            timestampMs := ctx.timestampMs
            importOrder := importOrder ctx.lineIdx (.sub blockIdx subIdx)
            kindTag := "attachment"
            body := image ctx.entry sub "tool_result.image" })

/-- The parents of a tool result: its call first, and the conversation's unless it is there already. -/
def toolOutputParents (toolCallEid : Option Text) (conversationAnchor : List Text) : List Text :=
  match toolCallEid with
  | some callEid => conversationAnchor.foldl (fun v anchor => if anchor ∈ v then v else v ++ [anchor]) [callEid]
  | none => conversationAnchor

/-- `emit_tool_result_blocks` -/
def emitToolResultBlocks (ctx : BlockCtx) (blockIdx : Nat) (block : Value) (s : Emitting Body) : Emitting Body :=
  let toolOutputEid := ctx.eid (.top blockIdx) block
  let (block0Eid, conversationAnchor) := anchorAndParents ctx blockIdx toolOutputEid s.block0Eid
  let toolCallEid := (textAt "tool_use_id" block).bind s.toolCallIdMap.lookup
  let out :=
    if "tool_output" ∈ ctx.includeTypes then
      s.out.push
        { externalId := toolOutputEid
          parentExternalIds := toolOutputParents toolCallEid conversationAnchor
          role := .roleTool
          timestampMs := ctx.timestampMs
          importOrder := importOrder ctx.lineIdx (.top blockIdx)
          kindTag := "tool_output"
          body := toolOutput ctx.entry block }
    else s.out.skip
  let parent := if "tool_output" ∈ ctx.includeTypes then [toolOutputEid] else conversationAnchor
  { s with block0Eid := block0Eid, out := emitImages ctx blockIdx parent 0 (arrayAt "content" block) out }

/-- One pass of the loop over the blocks of a message. -/
def emitOne (ctx : BlockCtx) (blockIdx : Nat) (block : Value) (s : Emitting Body) : Emitting Body :=
  let blockType := (textAt "type" block).getD []
  if blockType = "tool_use".toList then emitToolUseBlock ctx blockIdx block s
  else if blockType = "tool_result".toList then emitToolResultBlocks ctx blockIdx block s
  else if blockType = "image".toList then emitBlock ctx blockIdx block (imageShape ctx block) s
  else if blockType = "thinking".toList ∨ blockType = "redacted_thinking".toList then
    emitBlock ctx blockIdx block (reasoningShape ctx block blockType) s
  else emitBlock ctx blockIdx block (textShape ctx block blockType) s

/-- The loop over the blocks of a message. -/
def emitBlocks (ctx : BlockCtx) : Nat → List Value → Emitting Body → Emitting Body
  | _, [], s => s
  | blockIdx, block :: rest, s => emitBlocks ctx (blockIdx + 1) rest (emitOne ctx blockIdx block s)

/-! ## Lines -/

/-- The blocks of a message. -/
def messageBlocks (entry : RawEntry) : List Value :=
  match entry.message.bind (get "content") with
  | some (.array arr) => arr
  | some (.string s) => [syntheticBlock s]
  | _ => []

def entryRole (entryType : String) : MessageRole :=
  match entryType with
  | "user" => .roleUser
  | "assistant" => .roleAssistant
  | "system" => .roleMeta
  | _ => .roleUnspecified

/-- `build_message_block_entries` -/
def buildMessageBlockEntries (sessionId : Text) (settings : Settings) (anchorMap : KeyMap Text Text) (entry : RawEntry)
    (lineIdx : Nat) (toolCallIdMap : KeyMap Text Text) : BlockEmit Body × KeyMap Text Text :=
  match entry.uuid, entry.timestamp.bind parseTimestampMillis with
  | some uuid, some timestampMs =>
    let parentAnchor := (entry.parentUuid.bind anchorMap.lookup).toList
    if entry.entryType = "system" then
      if "system" ∉ settings.includeTypes then (⟨[], 1⟩, toolCallIdMap)
      else match entry.content with
        | none => (⟨[], 1⟩, toolCallIdMap)
        | some .null => (⟨[], 1⟩, toolCallIdMap)
        | some contentValue =>
          (⟨[{ externalId := buildBlockExternalId sessionId uuid (.top 0) (toJson contentValue)
               parentExternalIds := parentAnchor
               role := entryRole entry.entryType
               timestampMs := timestampMs
               importOrder := importOrder lineIdx (.top 0)
               kindTag := "system"
               body := system entry contentValue }], 0⟩, toolCallIdMap)
    else if messageBlocks entry = [] then (⟨[], 1⟩, toolCallIdMap)
    else
      let ctx : BlockCtx := {
        entry := entry
        sessionId := sessionId
        uuid := uuid
        lineIdx := lineIdx
        includeTypes := settings.includeTypes
        parentAnchor := parentAnchor
        timestampMs := timestampMs
        entryRole := entryRole entry.entryType }
      let s := emitBlocks ctx 0 (messageBlocks entry) ⟨⟨[], 0⟩, none, toolCallIdMap⟩
      (s.out, s.toolCallIdMap)
  | _, _ => (⟨[], 1⟩, toolCallIdMap)

/-- `build_attachment_event_entries` -/
def buildAttachmentEventEntries (sessionId : Text) (settings : Settings) (anchorMap : KeyMap Text Text)
    (entry : RawEntry) (lineIdx : Nat) : BlockEmit Body :=
  if "attachment" ∉ settings.includeTypes then ⟨[], 1⟩
  else if !settings.attachmentPolicy.includes (entry.subtype.getD []) then ⟨[], 1⟩
  else match entry.uuid, entry.timestamp.bind parseTimestampMillis with
    | some uuid, some timestampMs =>
      let payload := (get "content" entry.raw).getD .null
      let parentAnchor := ((entry.parentUuid.filter fun p => !p.isEmpty).bind anchorMap.lookup).toList
      ⟨[{ externalId := buildBlockExternalId sessionId uuid (.top 0) (toJson payload)
          parentExternalIds := parentAnchor
          role := .roleMeta
          timestampMs := timestampMs
          importOrder := importOrder lineIdx (.top 0)
          kindTag := "attachment"
          body := attachment entry }], 0⟩
    | _, _ => ⟨[], 1⟩

/-! ## The iterator -/

/-- `StreamItem` -/
inductive StreamItem (Body : Type) where
  | filtered
  | entry (e : CanonicalEntry Body)

/-- What an entry of the transcript gives, and the tool calls known after it. -/
def dispatch (sessionId : Text) (settings : Settings) (anchorMap : KeyMap Text Text) (entry : RawEntry) (lineIdx : Nat)
    (toolCallIdMap : KeyMap Text Text) : BlockEmit Body × KeyMap Text Text :=
  if !isCanonicalEventType entry.entryType then (⟨[], 1⟩, toolCallIdMap)
  else if entry.entryType = "attachment" then
    (buildAttachmentEventEntries sessionId settings anchorMap entry lineIdx, toolCallIdMap)
  else buildMessageBlockEntries sessionId settings anchorMap entry lineIdx toolCallIdMap

/-- The items of a line, as they are buffered. -/
def BlockEmit.items (emit : BlockEmit Body) : List (StreamItem Body) :=
  List.replicate emit.filtered .filtered ++ emit.entries.map .entry

/-- `ClaudeCodeEntryIter`: the entries from `idx` on, and what changes. -/
structure ClaudeCodeEntryIter (Body : Type) where
  rest : List RawEntry
  idx : Nat
  toolCallIdMap : KeyMap Text Text
  pending : List (StreamItem Body)

/-- `ClaudeCodeEntryIter::new` -/
def ClaudeCodeEntryIter.new (entries : List RawEntry) : ClaudeCodeEntryIter Body := ⟨entries, 0, ∅, []⟩

/-- The loop of `ClaudeCodeEntryIter::next`. -/
def nextFrom (sessionId : Text) (settings : Settings) (anchorMap : KeyMap Text Text) :
    List RawEntry → Nat → KeyMap Text Text → List (StreamItem Body) → Option (StreamItem Body × ClaudeCodeEntryIter Body)
  | rest, idx, toolCallIdMap, item :: pending => some (item, ⟨rest, idx, toolCallIdMap, pending⟩)
  | [], _, _, [] => none
  | entry :: rest, idx, toolCallIdMap, [] =>
    let (emit, toolCallIdMap) := dispatch sessionId settings anchorMap entry idx toolCallIdMap
    nextFrom sessionId settings anchorMap rest (idx + 1) toolCallIdMap emit.items

/-- `ClaudeCodeEntryIter::next` -/
def ClaudeCodeEntryIter.next (sessionId : Text) (settings : Settings) (anchorMap : KeyMap Text Text)
    (iter : ClaudeCodeEntryIter Body) : Option (StreamItem Body × ClaudeCodeEntryIter Body) :=
  nextFrom sessionId settings anchorMap iter.rest iter.idx iter.toolCallIdMap iter.pending

end Rendered

end MemoryStore.AgentImport.ClaudeCode
