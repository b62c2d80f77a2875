/-
What the lines of a transcript give, in closed form: the pieces of a line do not
depend on the settings but for where images within a tool result hang, and the
settings choose among them. The iterator yields the lines' pieces one after the
other.
-/
import MemoryStore.AgentImport.ClaudeCode.Transcript

namespace MemoryStore.AgentImport.ClaudeCode

open Rendering

variable {Body : Type}

/-- A line that is cut into entries, and its place. -/
structure Line where
  entry : RawEntry
  sessionId : Text
  uuid : Text
  lineIdx : Nat
  parentAnchor : List Text
  timestampMs : Int

/-- What a line has at a place. -/
structure Piece (Body : Type) where
  idx : BlockIdx
  payload : Text
  parents : List Text
  shape : Shape Body

/-- The id of a payload at a place of the line. -/
def Line.eid (line : Line) (idx : BlockIdx) (payload : Text) : Text :=
  buildBlockExternalId line.sessionId line.uuid idx payload

/-- The entry of a piece. -/
def Line.entryOf (line : Line) (piece : Piece Body) : CanonicalEntry Body where
  externalId := line.eid piece.idx piece.payload
  parentExternalIds := piece.parents
  role := piece.shape.role
  timestampMs := line.timestampMs
  importOrder := importOrder line.lineIdx piece.idx
  kindTag := piece.shape.kindTag
  body := piece.shape.body

/-- The context the emitters work in. -/
def Line.ctx (line : Line) (includeTypes : List String) : BlockCtx where
  entry := line.entry
  sessionId := line.sessionId
  uuid := line.uuid
  lineIdx := line.lineIdx
  includeTypes := includeTypes
  parentAnchor := line.parentAnchor
  timestampMs := line.timestampMs
  entryRole := entryRole line.entry.entryType

def blockType (block : Value) : Text := (textAt "type" block).getD []

def isToolResult (block : Value) : Bool := blockType block = "tool_result".toList

/-- The images within a tool result, by their index. -/
def innerImages (block : Value) : List Value := if isToolResult block then arrayAt "content" block else []

section Rendered

variable [Rendering Body]

/-- The id of the line's first block. -/
def Line.firstId (line : Line) : Text := line.eid (.top 0) (anchorPayload line.entry)

/-- Where a block hangs in the conversation. -/
def Line.conversation (line : Line) (k : Nat) : List Text := if k = 0 then line.parentAnchor else [line.firstId]

/-- The kind, role and body of a block. -/
def Line.shapeOf (line : Line) (block : Value) : Shape Body :=
  if blockType block = "tool_use".toList then ⟨"tool_call", .roleAssistant, toolCall line.entry block⟩
  else if blockType block = "tool_result".toList then ⟨"tool_output", .roleTool, toolOutput line.entry block⟩
  else if blockType block = "image".toList then imageShape (line.ctx []) block
  else if blockType block = "thinking".toList ∨ blockType block = "redacted_thinking".toList then
    reasoningShape (line.ctx []) block (blockType block)
  else textShape (line.ctx []) block (blockType block)

/-- The parents of a block, when these calls are known. -/
def Line.parentsOf (line : Line) (calls : KeyMap Text Text) (k : Nat) (block : Value) : List Text :=
  if isToolResult block then
    toolOutputParents ((textAt "tool_use_id" block).bind calls.lookup) (line.conversation k)
  else line.conversation k

/-- The pieces of the images of a tool result, from an index on. -/
def Line.imagePieces (line : Line) (parent : List Text) (k : Nat) : Nat → List Value → List (Piece Body)
  | _, [] => []
  | i, sub :: rest =>
    if blockType sub = "image".toList then
      ⟨.sub k i, toJson sub, parent, "attachment", .roleTool, image line.entry sub "tool_result.image"⟩ ::
        line.imagePieces parent k (i + 1) rest
    else line.imagePieces parent k (i + 1) rest

/-- The pieces of a block; images hang off the tool result when it is shown. -/
def Line.blockPieces (line : Line) (shown : Bool) (calls : KeyMap Text Text) (k : Nat) (block : Value) :
    List (Piece Body) :=
  ⟨.top k, toJson block, line.parentsOf calls k block, line.shapeOf block⟩ ::
    line.imagePieces (if shown then [line.eid (.top k) (toJson block)] else line.conversation k) k 0 (innerImages block)

/-- The calls that are known after a block. -/
def Line.register (line : Line) (k : Nat) (block : Value) (calls : KeyMap Text Text) : KeyMap Text Text :=
  if blockType block = "tool_use".toList then
    match textAt "id" block with
    | some tid => calls.insert tid (line.eid (.top k) (toJson block))
    | none => calls
  else calls

def Line.piecesFrom (line : Line) (shown : Bool) : KeyMap Text Text → Nat → List Value → List (Piece Body)
  | _, _, [] => []
  | calls, k, block :: rest =>
    line.blockPieces shown calls k block ++ line.piecesFrom shown (line.register k block calls) (k + 1) rest

def Line.callsFrom (line : Line) : KeyMap Text Text → Nat → List Value → KeyMap Text Text
  | calls, _, [] => calls
  | calls, k, block :: rest => line.callsFrom (line.register k block calls) (k + 1) rest

/-- The piece of an entry that has no blocks. -/
def Line.whole (line : Line) (payload : Text) (shape : Shape Body) : Piece Body :=
  ⟨.top 0, payload, line.parentAnchor, shape⟩

/-- **The pieces of a line.** -/
def Line.pieces (line : Line) (shown : Bool) (calls : KeyMap Text Text) : List (Piece Body) :=
  if line.entry.entryType = "attachment" then
    [line.whole (anchorPayload line.entry) ⟨"attachment", .roleMeta, attachment line.entry⟩]
  else if line.entry.entryType = "system" then
    match line.entry.content with
    | none => []
    | some .null => []
    | some contentValue =>
      [line.whole (anchorPayload line.entry) ⟨"system", entryRole line.entry.entryType, system line.entry contentValue⟩]
  else line.piecesFrom shown calls 0 (messageBlocks line.entry)

/-- The calls that are known after a line. -/
def Line.calls (line : Line) (calls : KeyMap Text Text) : KeyMap Text Text :=
  if line.entry.entryType = "attachment" ∨ line.entry.entryType = "system" then calls
  else line.callsFrom calls 0 (messageBlocks line.entry)

/-- Whether the settings keep a piece of a line. -/
def Settings.keeps (settings : Settings) (entry : RawEntry) (piece : Piece Body) : Bool :=
  piece.shape.kindTag ∈ settings.includeTypes &&
    (entry.entryType ≠ "attachment" || settings.attachmentPolicy.includes (entry.subtype.getD []))

/-- Tool outputs are kept. -/
def Settings.shown (settings : Settings) : Bool := "tool_output" ∈ settings.includeTypes

/-- The entries of a line. -/
def Line.entries (line : Line) (settings : Settings) (calls : KeyMap Text Text) : List (CanonicalEntry Body) :=
  ((line.pieces settings.shown calls).filter (settings.keeps line.entry)).map line.entryOf

/-- The line of an entry, when it is cut into entries at all. -/
def lineAt (sessionId : Text) (anchorMap : KeyMap Text Text) (entry : RawEntry) (lineIdx : Nat) : Option Line :=
  if isCanonicalEventType entry.entryType then
    match entry.uuid, entry.timestamp.bind parseTimestampMillis with
    | some uuid, some timestampMs =>
      let parentUuid :=
        if entry.entryType = "attachment" then entry.parentUuid.filter fun p => !p.isEmpty else entry.parentUuid
      some ⟨entry, sessionId, uuid, lineIdx, (parentUuid.bind anchorMap.lookup).toList, timestampMs⟩
    | _, _ => none
  else none

/-! ## Blocks -/

variable {line : Line} {types : List String}

/-- The pieces that an include set keeps, as entries. -/
def Line.chosen (line : Line) (types : List String) (pieces : List (Piece Body)) : List (CanonicalEntry Body) :=
  (pieces.filter fun piece => piece.shape.kindTag ∈ types).map line.entryOf

theorem Line.chosen_append (pieces more : List (Piece Body)) :
    line.chosen types (pieces ++ more) = line.chosen types pieces ++ line.chosen types more := by
  unfold Line.chosen
  rw [List.filter_append, List.map_append]

theorem Line.chosen_cons (piece : Piece Body) (pieces : List (Piece Body)) :
    line.chosen types (piece :: pieces) =
      (if piece.shape.kindTag ∈ types then [line.entryOf piece] else []) ++ line.chosen types pieces := by
  unfold Line.chosen
  by_cases h : piece.shape.kindTag ∈ types <;> simp [h]

/-- The first block sets the anchor, and the others find it. -/
def Anchored (line : Line) (k : Nat) (block : Value) (block0Eid : Option Text) : Prop :=
  if k = 0 then line.eid (.top 0) (toJson block) = line.firstId else block0Eid = some line.firstId

theorem anchorAndParents_eq {k : Nat} {block : Value} {block0Eid : Option Text} (h : Anchored line k block block0Eid) :
    anchorAndParents (line.ctx types) k ((line.ctx types).eid (.top k) block) block0Eid =
      (some line.firstId, line.conversation k) := by
  unfold anchorAndParents Line.conversation
  unfold Anchored at h
  split
  · next hk =>
    subst hk
    rw [if_pos rfl] at h
    rw [← h]
    rfl
  · next hk =>
    rw [if_neg hk] at h
    rw [h]
    rfl

theorem emitBlock_spec {k : Nat} {block : Value} {s : Emitting Body} (shape : Shape Body)
    (h : Anchored line k block s.block0Eid) :
    (emitBlock (line.ctx types) k block shape s).out.entries = s.out.entries ++
        line.chosen types [⟨.top k, toJson block, line.conversation k, shape⟩] ∧
      (emitBlock (line.ctx types) k block shape s).block0Eid = some line.firstId ∧
      (emitBlock (line.ctx types) k block shape s).toolCallIdMap = s.toolCallIdMap := by
  have htypes : (line.ctx types).includeTypes = types := rfl
  unfold emitBlock
  simp only [anchorAndParents_eq h, htypes]
  by_cases hkind : shape.kindTag ∈ types
  · rw [if_neg (not_not.2 hkind)]
    exact ⟨by simp [BlockEmit.push, Line.chosen, hkind]; rfl, rfl, rfl⟩
  · rw [if_pos hkind]
    exact ⟨by simp [BlockEmit.skip, Line.chosen, hkind], rfl, rfl⟩

theorem emitImages_spec {k : Nat} {parent : List Text} : ∀ (i : Nat) (subs : List Value) (out : BlockEmit Body),
    (emitImages (line.ctx types) k parent i subs out).entries =
      out.entries ++ line.chosen types (line.imagePieces parent k i subs)
  | _, [], out => by simp [emitImages, Line.imagePieces, Line.chosen]
  | i, sub :: rest, out => by
    have htypes : (line.ctx types).includeTypes = types := rfl
    rw [emitImages, emitImages_spec (i + 1) rest, Line.imagePieces]
    by_cases htype : blockType sub = "image".toList
    · have htype' : (textAt "type" sub).getD [] = "image".toList := htype
      rw [if_neg (not_not.2 htype'), if_pos htype, Line.chosen_cons, htypes]
      by_cases hkind : "attachment" ∈ types
      · rw [if_neg (not_not.2 hkind), if_pos hkind, BlockEmit.push, List.append_assoc]
        rfl
      · rw [if_pos hkind, if_neg hkind]
        rfl
    · have htype' : (textAt "type" sub).getD [] ≠ "image".toList := htype
      rw [if_pos htype', if_neg htype]

theorem emitToolResultBlocks_spec {k : Nat} {block : Value} {s : Emitting Body} (htype : isToolResult block = true)
    (h : Anchored line k block s.block0Eid) :
    (emitToolResultBlocks (line.ctx types) k block s).out.entries = s.out.entries ++
        line.chosen types (line.blockPieces (decide ("tool_output" ∈ types)) s.toolCallIdMap k block) ∧
      (emitToolResultBlocks (line.ctx types) k block s).block0Eid = some line.firstId ∧
      (emitToolResultBlocks (line.ctx types) k block s).toolCallIdMap = s.toolCallIdMap := by
  have htypes : (line.ctx types).includeTypes = types := rfl
  have hresult : blockType block = "tool_result".toList := of_decide_eq_true htype
  have hshape : line.shapeOf block = (⟨"tool_output", .roleTool, toolOutput line.entry block⟩ : Shape Body) := by
    unfold Line.shapeOf
    rw [hresult, if_neg (by decide), if_pos rfl]
  unfold emitToolResultBlocks
  simp only [anchorAndParents_eq h, htypes]
  refine ⟨?_, trivial, trivial⟩
  rw [emitImages_spec, Line.blockPieces, Line.chosen_cons, hshape, innerImages, if_pos htype, Line.parentsOf,
    if_pos htype]
  by_cases hkind : "tool_output" ∈ types
  · rw [if_pos hkind, if_pos hkind, if_pos hkind, BlockEmit.push, List.append_assoc]
    simp only [hkind, decide_true, if_true]
    rfl
  · rw [if_neg hkind, if_neg hkind, if_neg hkind]
    simp only [hkind, decide_false, Bool.false_eq_true, if_false]
    rfl

/-- **One block.** -/
theorem emitOne_spec {k : Nat} {block : Value} {s : Emitting Body} (h : Anchored line k block s.block0Eid) :
    (emitOne (line.ctx types) k block s).out.entries = s.out.entries ++
        line.chosen types (line.blockPieces (decide ("tool_output" ∈ types)) s.toolCallIdMap k block) ∧
      (emitOne (line.ctx types) k block s).block0Eid = some line.firstId ∧
      (emitOne (line.ctx types) k block s).toolCallIdMap = line.register k block s.toolCallIdMap := by
  have hsingle : isToolResult block = false → line.blockPieces (decide ("tool_output" ∈ types)) s.toolCallIdMap k block =
      ([⟨.top k, toJson block, line.conversation k, line.shapeOf block⟩] : List (Piece Body)) := by
    intro hresult
    unfold Line.blockPieces Line.parentsOf innerImages
    rw [hresult]
    rfl
  unfold emitOne Line.register
  by_cases huse : blockType block = "tool_use".toList
  · have huse' : (textAt "type" block).getD [] = "tool_use".toList := huse
    rw [if_pos huse', if_pos huse, hsingle (by rw [isToolResult, huse]; decide)]
    unfold Line.shapeOf
    rw [if_pos huse]
    unfold emitToolUseBlock
    dsimp only
    exact emitBlock_spec _ h
  · have huse' : ¬(textAt "type" block).getD [] = "tool_use".toList := huse
    rw [if_neg huse', if_neg huse]
    by_cases hresult : blockType block = "tool_result".toList
    · have hresult' : (textAt "type" block).getD [] = "tool_result".toList := hresult
      rw [if_pos hresult']
      exact emitToolResultBlocks_spec (decide_eq_true hresult) h
    · have hresult' : ¬(textAt "type" block).getD [] = "tool_result".toList := hresult
      rw [if_neg hresult', hsingle (decide_eq_false hresult)]
      unfold Line.shapeOf
      rw [if_neg huse, if_neg hresult]
      by_cases himage : blockType block = "image".toList
      · have himage' : (textAt "type" block).getD [] = "image".toList := himage
        rw [if_pos himage', if_pos himage]
        exact emitBlock_spec _ h
      · have himage' : ¬(textAt "type" block).getD [] = "image".toList := himage
        rw [if_neg himage', if_neg himage]
        split
        · next hthinking =>
          have hthinking' : blockType block = "thinking".toList ∨ blockType block = "redacted_thinking".toList := hthinking
          rw [if_pos hthinking']
          exact emitBlock_spec _ h
        · next hthinking =>
          have hthinking' : ¬(blockType block = "thinking".toList ∨ blockType block = "redacted_thinking".toList) :=
            hthinking
          rw [if_neg hthinking']
          exact emitBlock_spec _ h

/-- Once the anchor is set, the rest of the blocks. -/
theorem emitBlocks_rest : ∀ (k : Nat) (blocks : List Value) (s : Emitting Body), s.block0Eid = some line.firstId →
    (emitBlocks (line.ctx types) (k + 1) blocks s).out.entries = s.out.entries ++
        line.chosen types (line.piecesFrom (decide ("tool_output" ∈ types)) s.toolCallIdMap (k + 1) blocks) ∧
      (emitBlocks (line.ctx types) (k + 1) blocks s).toolCallIdMap = line.callsFrom s.toolCallIdMap (k + 1) blocks
  | _, [], s, _ => ⟨by simp [emitBlocks, Line.piecesFrom, Line.chosen], rfl⟩
  | k, block :: rest, s, h => by
    have hanchored : Anchored line (k + 1) block s.block0Eid := by
      unfold Anchored
      rwa [if_neg (Nat.succ_ne_zero k)]
    obtain ⟨hout, hfirst, hcalls⟩ := @emitOne_spec Body _ line types (k + 1) block s hanchored
    obtain ⟨hout', hcalls'⟩ := emitBlocks_rest (k + 1) rest (emitOne (line.ctx types) (k + 1) block s) hfirst
    rw [emitBlocks, Line.piecesFrom, Line.callsFrom, Line.chosen_append, ← List.append_assoc, ← hout, ← hcalls]
    exact ⟨hout', hcalls'⟩

/-- **All blocks of a message.** -/
theorem emitBlocks_spec {blocks : List Value} {calls : KeyMap Text Text}
    (h : ∀ block, blocks.head? = some block → line.eid (.top 0) (toJson block) = line.firstId) :
    (emitBlocks (line.ctx types) 0 blocks ⟨⟨[], 0⟩, none, calls⟩).out.entries =
        line.chosen types (line.piecesFrom (decide ("tool_output" ∈ types)) calls 0 blocks) ∧
      (emitBlocks (line.ctx types) 0 blocks ⟨⟨[], 0⟩, none, calls⟩).toolCallIdMap =
        line.callsFrom calls 0 blocks := by
  cases blocks with
  | nil => exact ⟨rfl, rfl⟩
  | cons block rest =>
    have hanchored : Anchored line 0 block none := by
      unfold Anchored
      rw [if_pos rfl]
      exact h block rfl
    obtain ⟨hout, hfirst, hcalls⟩ :=
      @emitOne_spec Body _ line types 0 block ⟨⟨[], 0⟩, none, calls⟩ hanchored
    obtain ⟨hout', hcalls'⟩ := emitBlocks_rest 0 rest (emitOne (line.ctx types) 0 block ⟨⟨[], 0⟩, none, calls⟩) hfirst
    rw [emitBlocks, Line.piecesFrom, Line.callsFrom, Line.chosen_append, ← hcalls]
    refine ⟨?_, hcalls'⟩
    rw [hout', hout]
    rfl

/-! ## Lines -/

variable {settings : Settings} {sessionId : Text} {anchorMap : KeyMap Text Text}

/-- The entries of a line, if it is cut into any. -/
def lineEntries (sessionId : Text) (settings : Settings) (anchorMap : KeyMap Text Text) (entry : RawEntry)
    (lineIdx : Nat) (calls : KeyMap Text Text) : List (CanonicalEntry Body) :=
  match lineAt sessionId anchorMap entry lineIdx with
  | none => []
  | some line => line.entries settings calls

def lineCalls (sessionId : Text) (anchorMap : KeyMap Text Text) (entry : RawEntry) (lineIdx : Nat)
    (calls : KeyMap Text Text) : KeyMap Text Text :=
  match lineAt sessionId anchorMap entry lineIdx with
  | none => calls
  | some line => line.calls calls

theorem anchorPayload_message {entry : RawEntry} {block : Value} (hattachment : entry.entryType ≠ "attachment")
    (hsystem : entry.entryType ≠ "system") (h : (messageBlocks entry).head? = some block) :
    anchorPayload entry = toJson block := by
  unfold anchorPayload
  rw [if_neg hattachment, if_neg hsystem]
  unfold messageBlocks at h
  unfold block0PayloadForMessage
  split at h
  · rw [h]
    rfl
  · rw [← Option.some.inj h]
    rfl
  · simp at h

/-- Lines that are not attachments are chosen by their kinds alone. -/
theorem Line.entries_eq_chosen {calls : KeyMap Text Text} (h : line.entry.entryType ≠ "attachment") :
    (line.entries settings calls : List (CanonicalEntry Body)) =
      line.chosen settings.includeTypes (line.pieces settings.shown calls) := by
  unfold Line.entries Line.chosen
  congr 1
  refine List.filter_congr fun piece _ => ?_
  simp [Settings.keeps, h]

theorem buildAttachmentEventEntries_spec {entry : RawEntry} {lineIdx : Nat} (calls : KeyMap Text Text)
    (hcanonical : isCanonicalEventType entry.entryType = true) (htype : entry.entryType = "attachment") :
    (buildAttachmentEventEntries sessionId settings anchorMap entry lineIdx : BlockEmit Body).entries =
      lineEntries sessionId settings anchorMap entry lineIdx calls := by
  unfold buildAttachmentEventEntries lineEntries lineAt
  rw [if_pos hcanonical, if_pos htype]
  have hpayload : anchorPayload entry = toJson ((get "content" entry.raw).getD .null) := by
    unfold anchorPayload
    rw [if_pos htype]
  cases huuid : entry.uuid with
  | none =>
    dsimp only
    split
    · rfl
    · split <;> rfl
  | some uuid =>
    cases htime : entry.timestamp.bind parseTimestampMillis with
    | none =>
      dsimp only
      split
      · rfl
      · split <;> rfl
    | some timestampMs =>
      dsimp only
      unfold Line.entries Line.pieces
      dsimp only
      rw [if_pos htype]
      by_cases hkind : "attachment" ∈ settings.includeTypes
      · rw [if_neg (not_not.2 hkind)]
        by_cases hpolicy : settings.attachmentPolicy.includes (entry.subtype.getD []) = true
        · rw [if_neg (by rw [hpolicy]; decide)]
          simp [Settings.keeps, Line.whole, hkind, hpolicy, Line.entryOf, Line.eid, hpayload]
        · rw [Bool.not_eq_true] at hpolicy
          rw [if_pos (by rw [hpolicy]; rfl)]
          simp [Settings.keeps, hpolicy, htype]
      · rw [if_pos hkind]
        simp [Settings.keeps, Line.whole, hkind]

theorem buildMessageBlockEntries_spec {entry : RawEntry} {lineIdx : Nat} (calls : KeyMap Text Text)
    (hcanonical : isCanonicalEventType entry.entryType = true) (htype : entry.entryType ≠ "attachment") :
    (buildMessageBlockEntries sessionId settings anchorMap entry lineIdx calls).1.entries =
        lineEntries sessionId settings anchorMap entry lineIdx calls ∧
      (buildMessageBlockEntries sessionId settings anchorMap entry lineIdx calls).2 =
        lineCalls sessionId anchorMap entry lineIdx calls := by
  unfold buildMessageBlockEntries lineEntries lineCalls lineAt
  rw [if_pos hcanonical, if_neg htype]
  cases huuid : entry.uuid with
  | none => exact ⟨rfl, rfl⟩
  | some uuid =>
    cases htime : entry.timestamp.bind parseTimestampMillis with
    | none => exact ⟨rfl, rfl⟩
    | some timestampMs =>
      dsimp only
      rw [Line.entries_eq_chosen htype]
      unfold Line.calls Line.pieces
      dsimp only
      rw [if_neg htype]
      by_cases hsystem : entry.entryType = "system"
      · have hplain : entry.entryType = "attachment" ∨ entry.entryType = "system" := .inr hsystem
        rw [if_pos hsystem, if_pos hsystem, if_pos hplain]
        have hpayload : ∀ value, entry.content = some value → anchorPayload entry = toJson value := by
          intro value hvalue
          unfold anchorPayload
          rw [if_neg htype, if_pos hsystem, hvalue]
          rfl
        by_cases hkind : "system" ∈ settings.includeTypes
        · rw [if_neg (not_not.2 hkind)]
          rcases hcontent : entry.content with _ | value
          · exact ⟨rfl, rfl⟩
          · cases value with
            | null => exact ⟨rfl, rfl⟩
            | _ =>
              refine ⟨?_, rfl⟩
              simp [Line.chosen, Line.whole, hkind, Line.entryOf, Line.eid, hpayload _ hcontent]
        · rw [if_pos hkind]
          refine ⟨?_, rfl⟩
          rcases entry.content with _ | value
          · rfl
          · cases value with
            | null => rfl
            | _ => simp [Line.chosen, Line.whole, hkind]
      · rw [if_neg hsystem, if_neg hsystem, if_neg (not_or.2 ⟨htype, hsystem⟩)]
        by_cases hblocks : messageBlocks entry = []
        · rw [if_pos hblocks, hblocks]
          exact ⟨rfl, rfl⟩
        · rw [if_neg hblocks]
          refine @emitBlocks_spec Body _ ⟨entry, sessionId, uuid, lineIdx, _, timestampMs⟩ settings.includeTypes _ _ ?_
          intro block hblock
          rw [← anchorPayload_message htype hsystem hblock]
          rfl

/-- **One line**: its entries are the pieces that the settings keep. -/
theorem dispatch_spec (entry : RawEntry) (lineIdx : Nat) (calls : KeyMap Text Text) :
    (dispatch sessionId settings anchorMap entry lineIdx calls).1.entries =
        lineEntries sessionId settings anchorMap entry lineIdx calls ∧
      (dispatch sessionId settings anchorMap entry lineIdx calls).2 =
        lineCalls sessionId anchorMap entry lineIdx calls := by
  unfold dispatch
  by_cases hcanonical : isCanonicalEventType entry.entryType = true
  · rw [if_neg (by rw [hcanonical]; decide)]
    by_cases htype : entry.entryType = "attachment"
    · rw [if_pos htype]
      refine ⟨buildAttachmentEventEntries_spec calls hcanonical htype, ?_⟩
      unfold lineCalls lineAt
      rw [if_pos hcanonical]
      split
      · rfl
      · next line hline =>
        split at hline
        · obtain rfl := Option.some.inj hline
          unfold Line.calls
          rw [if_pos (.inl htype)]
        · simp at hline
    · rw [if_neg htype]
      exact buildMessageBlockEntries_spec calls hcanonical htype
  · rw [if_pos (by simpa using hcanonical)]
    unfold lineEntries lineCalls lineAt
    rw [if_neg hcanonical]
    exact ⟨rfl, rfl⟩

/-! ## The iterator -/

/-- The items of the lines that are left. -/
def itemsFrom (sessionId : Text) (settings : Settings) (anchorMap : KeyMap Text Text) :
    List RawEntry → Nat → KeyMap Text Text → List (StreamItem Body)
  | [], _, _ => []
  | entry :: rest, idx, calls =>
    let (emit, calls) := dispatch sessionId settings anchorMap entry idx calls
    emit.items ++ itemsFrom sessionId settings anchorMap rest (idx + 1) calls

/-- What is still to come. -/
def ClaudeCodeEntryIter.remaining (sessionId : Text) (settings : Settings) (anchorMap : KeyMap Text Text)
    (iter : ClaudeCodeEntryIter Body) : List (StreamItem Body) :=
  iter.pending ++ itemsFrom sessionId settings anchorMap iter.rest iter.idx iter.toolCallIdMap

/-- Calling `next` until it answers nothing. -/
inductive Yields (sessionId : Text) (settings : Settings) (anchorMap : KeyMap Text Text) :
    ClaudeCodeEntryIter Body → List (StreamItem Body) → Prop where
  | done {iter : ClaudeCodeEntryIter Body} (h : iter.next sessionId settings anchorMap = none) :
      Yields sessionId settings anchorMap iter []
  | item {iter iter' : ClaudeCodeEntryIter Body} {item : StreamItem Body} {items : List (StreamItem Body)}
      (h : iter.next sessionId settings anchorMap = some (item, iter'))
      (rest : Yields sessionId settings anchorMap iter' items) : Yields sessionId settings anchorMap iter (item :: items)

theorem nextFrom_spec : ∀ (rest : List RawEntry) (idx : Nat) (calls : KeyMap Text Text)
    (pending : List (StreamItem Body)),
    match nextFrom sessionId settings anchorMap rest idx calls pending with
    | none => pending ++ itemsFrom sessionId settings anchorMap rest idx calls = []
    | some (item, iter) => pending ++ itemsFrom sessionId settings anchorMap rest idx calls =
        item :: iter.remaining sessionId settings anchorMap
  | [], _, _, [] => rfl
  | [], _, _, _ :: _ => rfl
  | _ :: _, _, _, _ :: _ => rfl
  | entry :: rest, idx, calls, [] => by
    rw [nextFrom, itemsFrom, List.nil_append]
    exact nextFrom_spec rest (idx + 1) (dispatch sessionId settings anchorMap entry idx calls).2
      (dispatch sessionId settings anchorMap entry idx calls).1.items

/-- **The iterator yields the items of the lines**, one after the other, and ends. -/
theorem yields_iff {iter : ClaudeCodeEntryIter Body} {items : List (StreamItem Body)} :
    Yields sessionId settings anchorMap iter items ↔ items = iter.remaining sessionId settings anchorMap := by
  constructor
  · intro h
    induction h with
    | @done iter h =>
      have hspec := @nextFrom_spec Body _ settings sessionId anchorMap iter.rest
        iter.idx iter.toolCallIdMap iter.pending
      unfold ClaudeCodeEntryIter.next at h
      rw [h] at hspec
      exact hspec.symm
    | @item iter iter' item items h _ ih =>
      have hspec := @nextFrom_spec Body _ settings sessionId anchorMap iter.rest
        iter.idx iter.toolCallIdMap iter.pending
      unfold ClaudeCodeEntryIter.next at h
      rw [h] at hspec
      rw [ih]
      exact hspec.symm
  · rintro rfl
    generalize hitems : iter.remaining sessionId settings anchorMap = items
    induction items generalizing iter with
    | nil =>
      refine .done ?_
      have hspec := @nextFrom_spec Body _ settings sessionId anchorMap iter.rest
        iter.idx iter.toolCallIdMap iter.pending
      unfold ClaudeCodeEntryIter.next
      split at hspec
      · next h => exact h
      · next h =>
        rw [show iter.pending ++ itemsFrom sessionId settings anchorMap iter.rest iter.idx iter.toolCallIdMap = [] from
          hitems] at hspec
        simp at hspec
    | cons item items ih =>
      have hspec := @nextFrom_spec Body _ settings sessionId anchorMap iter.rest
        iter.idx iter.toolCallIdMap iter.pending
      rw [show iter.pending ++ itemsFrom sessionId settings anchorMap iter.rest iter.idx iter.toolCallIdMap =
        item :: items from hitems] at hspec
      split at hspec
      · simp at hspec
      · next item' iter' h =>
        obtain ⟨rfl, hrest⟩ := List.cons.inj hspec
        exact .item h (ih hrest.symm)

/-! ## Entries -/

/-- The entry of an item. -/
def StreamItem.entry? : StreamItem Body → Option (CanonicalEntry Body)
  | .filtered => none
  | .entry e => some e

/-- **The entries that a transcript yields.** -/
def transcript (sessionId : Text) (settings : Settings) (lines : List RawEntry) : List (CanonicalEntry Body) :=
  ((ClaudeCodeEntryIter.new lines).remaining sessionId settings (buildBlock0AnchorMap sessionId lines)).filterMap
    StreamItem.entry?

/-- The entries of lines, from an index on. -/
def entriesFrom (sessionId : Text) (settings : Settings) (anchorMap : KeyMap Text Text) :
    Nat → KeyMap Text Text → List RawEntry → List (CanonicalEntry Body)
  | _, _, [] => []
  | n, calls, entry :: rest =>
    lineEntries sessionId settings anchorMap entry n calls ++
      entriesFrom sessionId settings anchorMap (n + 1) (lineCalls sessionId anchorMap entry n calls) rest

theorem entry?_items (emit : BlockEmit Body) : emit.items.filterMap StreamItem.entry? = emit.entries := by
  unfold BlockEmit.items
  rw [List.filterMap_append, List.filterMap_map]
  have hskipped : (List.replicate emit.filtered (StreamItem.filtered : StreamItem Body)).filterMap StreamItem.entry? = [] :=
    List.filterMap_eq_nil_iff.2 fun item hitem => by
      rw [List.eq_of_mem_replicate hitem]
      rfl
  have hentry : StreamItem.entry? ∘ StreamItem.entry = (some : CanonicalEntry Body → _) := rfl
  rw [hskipped, hentry, List.filterMap_some, List.nil_append]

theorem itemsFrom_entries : ∀ (lines : List RawEntry) (n : Nat) (calls : KeyMap Text Text),
    (itemsFrom sessionId settings anchorMap lines n calls).filterMap StreamItem.entry? =
      entriesFrom sessionId settings anchorMap n calls lines
  | [], _, _ => rfl
  | entry :: rest, n, calls => by
    obtain ⟨hentries, hcalls⟩ := @dispatch_spec Body _ settings sessionId anchorMap entry n calls
    rw [itemsFrom, entriesFrom, ← hentries, ← hcalls]
    dsimp only
    rw [List.filterMap_append, entry?_items, itemsFrom_entries]

theorem transcript_eq (sessionId : Text) (settings : Settings) (lines : List RawEntry) :
    (transcript sessionId settings lines : List (CanonicalEntry Body)) =
      entriesFrom sessionId settings (buildBlock0AnchorMap sessionId lines) 0 ∅ lines := by
  unfold transcript
  exact itemsFrom_entries lines 0 ∅

end Rendered

end MemoryStore.AgentImport.ClaudeCode
