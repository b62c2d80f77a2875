/-
How a session is normalized (`normalize_session`, `agent-chat-import/src/source/opencode.rs`):
the rows are checked and put into maps, the messages are ordered parents first,
and their parts are cut into entries one after the other.

A hash map is iterated in any order: each iteration is given the order it takes.
The search for a cycle and the loop over the ready messages carry a step budget;
that it never runs out is a theorem.
-/
import MemoryStore.AgentImport.OpenCode.Parts

namespace MemoryStore.AgentImport.OpenCode

open ClaudeCode (CanonicalEntry)

/-- The order a hash map is iterated in. -/
structure MapOrder where
  arrange : ∀ {α : Type}, List α → List α
  perm : ∀ {α : Type} (l : List α), (arrange l).Perm l

/-- The orders of the iterations of one call. -/
structure Orders where
  parts : MapOrder
  messages : MapOrder
  parents : MapOrder
  ready : MapOrder

/-- A session row and its `model` column, parsed. -/
structure Session where
  row : SessionRow
  model : Option (Except String Data)

/-! ## Checks and maps -/

/-- The checks of `session_metadata` and before it. -/
def checkSession (session : Session) : Except String Unit := do
  validateId session.row.id "session" "ses".toList
  refuse (session.row.createdAtMs < 0 ∨ session.row.updatedAtMs < 0 ∨ session.row.archivedAtMs.any fun ms => ms < 0)
    "session timestamps must not be negative"
  optionally session.row.parentId fun parent => validateId parent "parent session" "ses".toList
  match session.model with
  | none => pure ()
  | some model => do
    let model ← model
    normalizedModel (some model)

/-- One pass of the loop over the messages. -/
def addMessage (sessionId : Text) (byId : KeyMap Text MessageRow) (message : MessageRow) :
    Except String (KeyMap Text MessageRow) := do
  validateId message.id "message" "msg".toList
  refuse (message.createdAtMs < 0 ∨ message.updatedAtMs < 0) "message timestamps must not be negative"
  refuse (message.sessionId ≠ sessionId) "message belongs to another session"
  refuse (byId.lookup message.id).isSome "duplicate message id"
  pure (byId.insert message.id message)

/-- One pass of the loop over the parts. -/
def addPart (sessionId : Text) (messagesById : KeyMap Text MessageRow) (byMessage : KeyMap Text (List PartRow))
    (part : PartRow) : Except String (KeyMap Text (List PartRow)) := do
  validateId part.id "part" "prt".toList
  refuse (part.createdAtMs < 0 ∨ part.updatedAtMs < 0) "part timestamps must not be negative"
  refuse (part.sessionId ≠ sessionId ∨ (messagesById.lookup part.messageId).isNone)
    "part has invalid session/message reference"
  pure (byMessage.push part.messageId part)

/-- One pass of the loop over the parts of all messages. -/
def checkPart (partIds : List Text) (part : PartRow) : Except String (List Text) := do
  refuse (part.id ∈ partIds) "duplicate part id"
  let data ← object part.data "part.data"
  discard (nonEmptyString (data.lookup "type") "part.type")
  pure (part.id :: partIds)

/-- The role of a message. -/
def readRole (message : MessageRow) : Except String Text := do
  let data ← object message.data "message.data"
  nonEmptyString (data.lookup "role") "message.role"

/-- One pass of the loop that finds the parents: of assistant messages only. -/
def addParent (parents : KeyMap Text Text) (message : MessageRow) : Except String (KeyMap Text Text) := do
  let data ← object message.data "message.data"
  let role ← nonEmptyString (data.lookup "role") "message.role"
  if role = "assistant".toList then do
    let parent ← nonEmptyString (data.lookup "parentID") "assistant.parentID"
    validateId parent "parent message" "msg".toList
    pure (parents.insert message.id parent)
  else pure parents

/-- The maps the entries are made from. -/
structure Prepared where
  messagesById : KeyMap Text MessageRow
  partsByMessage : KeyMap Text (List PartRow)
  parentMessages : KeyMap Text Text

def sortParts (parts : List PartRow) : List PartRow := parts.insertionSort fun a b => a.id ≤ b.id

/-- The parts of a message, in the order of their ids. -/
def Prepared.partsOf (p : Prepared) (messageId : Text) : List PartRow :=
  sortParts ((p.partsByMessage.lookup messageId).getD [])

/-- `normalize_session`, up to its maps. -/
def prepare (orders : Orders) (session : Session) (messages : List MessageRow) (parts : List PartRow) :
    Except String Prepared := do
  checkSession session
  let messagesById ← messages.foldlM (addMessage session.row.id) ∅
  let partsByMessage ← parts.foldlM (addPart session.row.id messagesById) ∅
  discard ((orders.parts.arrange partsByMessage.values).flatten.foldlM checkPart [])
  let parentMessages ← (orders.messages.arrange messagesById.values).foldlM addParent ∅
  pure ⟨messagesById, partsByMessage, parentMessages⟩

/-! ## The order of the messages -/

/-- `detect_parent_cycle`, one visit: the ids that are done, or an error. -/
def visit (parents : KeyMap Text Text) : Nat → List Text → List Text → Text → Option (Except String (List Text))
  | 0, _, _, _ => none
  | steps + 1, visiting, done, id =>
    if id ∈ done then some (.ok done)
    else if id ∈ visiting then some (.error "assistant parent cycle detected")
    else match parents.lookup id with
      | none => some (.ok (id :: done))
      | some parent =>
        if (parents.lookup parent).isNone then some (.ok (id :: done))
        else (visit parents steps (id :: visiting) done parent).map fun found => found.map fun done => id :: done

/-- `detect_parent_cycle`, the loop. -/
def visitAll (parents : KeyMap Text Text) (steps : Nat) : List Text → List Text → Option (Except String Unit)
  | [], _ => some (.ok ())
  | id :: ids, done =>
    match visit parents steps [] done id with
    | none => none
    | some (.error e) => some (.error e)
    | some (.ok done) => visitAll parents steps ids done

/-- `detect_parent_cycle` -/
def detectParentCycle (order : MapOrder) (steps : Nat) (parents : KeyMap Text Text) : Option (Except String Unit) :=
  visitAll parents steps (order.arrange parents.keys) []

/-- What orders messages that are ready. -/
def readyBefore (a b : MessageRow) : Prop := createdBefore (a.createdAtMs, a.id) (b.createdAtMs, b.id)

instance : DecidableRel readyBefore := fun a b => by unfold readyBefore; infer_instance

/-- What `order_messages` keeps; the ready messages are in their order. -/
structure Ordering where
  remainingChildren : KeyMap Text Nat
  childrenOf : KeyMap Text (List Text)
  ready : List MessageRow
  ordered : List MessageRow

/-- The parent of a message, when it is there. -/
def presentParent (messages : KeyMap Text MessageRow) (parents : KeyMap Text Text) (id : Text) : Option Text :=
  (parents.lookup id).filter fun p => (messages.lookup p).isSome

/-- The first loop of `order_messages`. -/
def enqueue (messages : KeyMap Text MessageRow) (parents : KeyMap Text Text) (s : Ordering) (message : MessageRow) :
    Ordering :=
  match presentParent messages parents message.id with
  | some p =>
    { s with
        remainingChildren := s.remainingChildren.insert message.id 1
        childrenOf := s.childrenOf.push p message.id }
  | none =>
    { s with
        remainingChildren := s.remainingChildren.insert message.id 0
        ready := s.ready.orderedInsert readyBefore message }

/-- A child of a message that is placed. -/
def release (messages : KeyMap Text MessageRow) (s : Ordering) (child : Text) : Ordering :=
  let count := (s.remainingChildren.lookup child).getD 0 - 1
  let s := { s with remainingChildren := s.remainingChildren.insert child count }
  if count = 0 then
    match messages.lookup child with
    | some message => { s with ready := s.ready.orderedInsert readyBefore message }
    | none => s
  else s

/-- The second loop of `order_messages`. -/
def drain (messages : KeyMap Text MessageRow) : Nat → Ordering → Option (List MessageRow)
  | 0, _ => none
  | steps + 1, s =>
    match s.ready with
    | [] => some s.ordered
    | message :: ready =>
      let children := (s.childrenOf.lookup message.id).getD []
      drain messages steps
        (children.foldl (release messages) { s with ready := ready, ordered := s.ordered ++ [message] })

/-- `order_messages` -/
def orderMessages (order : MapOrder) (steps : Nat) (messages : KeyMap Text MessageRow) (parents : KeyMap Text Text) :
    Option (Except String (List MessageRow)) :=
  (drain messages steps ((order.arrange messages.values).foldl (enqueue messages parents) ⟨∅, ∅, [], []⟩)).map
    fun ordered =>
      if ordered.length ≠ messages.values.length then .error "assistant parent cycle detected" else .ok ordered

/-! ## The entries -/

/-- What the loop over the messages changes. -/
structure Emission (Body : Type) where
  entries : List (CanonicalEntry Body)
  filtered : Nat
  noted : Noted
  usageMessages : List Text
  parentWarningSeen : List Text
  messageAnchor : KeyMap Text Text

variable {Body : Type} [Base64] [Rendering Body]

open Rendering

/-- The entry's own parents, without the output that is filtered out. -/
def keptParents (includeTypes : List String) (parents : List Text) : List Text :=
  if "tool_output" ∈ includeTypes then parents
  else parents.filter fun parent => !":output".toList.isSuffixOf parent

/-- `retain(|parent| seen_parents.insert(parent))` -/
def dedupParents (parents : List Text) : List Text := (parents.reverse.dedup).reverse

/-- A message whose parent has no entry is warned about once. -/
def Emission.warnParent (s : Emission Body) (messageId : Text) : Emission Body :=
  if messageId ∈ s.parentWarningSeen then s
  else
    { s with
        parentWarningSeen := messageId :: s.parentWarningSeen
        noted := s.noted.note fun d => d.warn "parent_message_unresolved" }

/-- One pass of the loop over the entries of a part. -/
def emitEntry (parents : KeyMap Text Text) (includeTypes : List String) (message : MessageRow)
    (s : Emission Body × Option Text) (entry : CanonicalEntry Body) : Emission Body × Option Text :=
  let (s, previous) := s
  if entry.kindTag ∉ includeTypes then ({ s with filtered := s.filtered + 1 }, previous)
  else
    let body := if message.id ∈ s.usageMessages then withoutUsage entry.body else entry.body
    let anchor := (parents.lookup message.id).bind s.messageAnchor.lookup
    let s := if (parents.lookup message.id).isSome ∧ anchor = none then s.warnParent message.id else s
    let entry :=
      { entry with
          body := body
          parentExternalIds :=
            dedupParents (previous.toList ++ (keptParents includeTypes entry.parentExternalIds ++ anchor.toList)) }
    ({ s with
        entries := s.entries ++ [entry]
        usageMessages := if message.id ∈ s.usageMessages then s.usageMessages else message.id :: s.usageMessages
        messageAnchor := s.messageAnchor.insert message.id entry.externalId }, some entry.externalId)

/-- The status of a tool part. -/
def toolStatus (part : PartRow) : Option Text :=
  ((part.data.get "state").bind (Data.get "status")).bind Data.asStr

/-- The note on a compacted output. -/
def noteCompacted (part : PartRow) (kind : Text) (d : SourceDiagnostics) : SourceDiagnostics :=
  let state := part.data.get "state"
  if kind = "tool".toList ∧ toolStatus part = some "completed".toList ∧
      ((state.bind (Data.get "time")).bind (Data.get "compacted")).isSome then
    (d.ignore "compacted_tool_output" 1).ignore "compacted_tool_attachment"
      (((state.bind (Data.get "attachments")).bind Data.asArray).getD []).length
  else d

/-- The note on a part that gives nothing. -/
def noteEmpty (part : PartRow) (kind : Text) (d : SourceDiagnostics) : SourceDiagnostics :=
  if kind ∈ ["step-start".toList, "step-finish".toList, "snapshot".toList, "retry".toList] then
    d.ignore "known_telemetry" 1
  else if kind = "text".toList ∨ kind = "reasoning".toList then
    d.ignore (if (part.data.get "ignored").bind Data.asBool = some true then "ignored_text" else "empty_text") 1
  else if kind = "tool".toList then
    let status := (toolStatus part).getD []
    if status ∈ ["pending".toList, "running".toList] then d.defer 1
    else if status ∉ ["completed".toList, "error".toList] then d.exclude "unknown_tool_status" 1
    else d
  else if kind ∉ ["subtask".toList, "patch".toList, "agent".toList, "compaction".toList] then
    d.exclude "unknown_part_type" 1
  else d

/-- `part.data.get("type")` -/
def partType (part : PartRow) : Text := ((part.data.get "type").bind Data.asStr).getD []

/-- One pass of the loop over the parts of a message. -/
def emitPart (sessionId : Text) (parents : KeyMap Text Text) (includeTypes : List String) (message : MessageRow) (role : Text)
    (s : Emission Body × Option Text) (part : PartRow) : Except String (Emission Body × Option Text) :=
  let kind := partType part
  match (normalizePart sessionId message part role).run.run (s.1.noted.note (noteCompacted part kind)) with
  | (.error error, noted) =>
    if kind = "file".toList ∧ isAttachmentError error then
      .ok ({ s.1 with noted := noted.note fun d => d.exclude (attachmentErrorReason error) 1 }, s.2)
    else .error error
  | (.ok produced, noted) =>
    let noted := if produced.isEmpty then noted.note (noteEmpty part kind) else noted
    .ok (produced.foldl (emitEntry parents includeTypes message) ({ s.1 with noted := noted }, s.2))

/-- An answer that is still being given. -/
def isIncomplete (role : Text) (data : Fields) : Except String Bool :=
  if role = "assistant".toList then Option.isNone <$> messageCompletedAt data else .ok false

/-- One pass of the loop over the messages. -/
def emitMessage (sessionId : Text) (p : Prepared) (includeTypes : List String) (s : Emission Body) (message : MessageRow) :
    Except String (Emission Body) := do
  let data ← object message.data "message.data"
  let role ← nonEmptyString (data.lookup "role") "message.role"
  if role ≠ "user".toList ∧ role ≠ "assistant".toList then
    pure { s with noted := s.noted.note fun d => d.exclude "unknown_role" (p.partsOf message.id).length }
  else do
    let incomplete ← isIncomplete role data
    if incomplete then pure { s with noted := s.noted.note fun d => d.defer (p.partsOf message.id).length }
    else do
      let (s, _) ← (p.partsOf message.id).foldlM (emitPart sessionId p.parentMessages includeTypes message role) (s, none)
      pure s

/-- `ReadSessionOutcome::Import`, without the session: that no message or part bears on. -/
structure Import (Body : Type) where
  entries : List (CanonicalEntry Body)
  sourceFilteredCount : Nat
  diagnostics : SourceDiagnostics

/-- `entry.import_order = index as i64` -/
def numbered (entries : List (CanonicalEntry Body)) : List (CanonicalEntry Body) :=
  entries.mapIdx fun index entry => { entry with importOrder := index }

/-- Nothing is noted yet. -/
def Noted.start : Noted := ⟨⟨0, ∅, ∅, ∅⟩, []⟩

/-- The loop over the messages, and what it ends in. -/
def emitMessages (sessionId : Text) (p : Prepared) (includeTypes : List String) (ordered : List MessageRow) :
    Except String (Import Body) := do
  let s ← ordered.foldlM (emitMessage sessionId p includeTypes) ⟨[], 0, .start, [], [], ∅⟩
  pure ⟨numbered s.entries, s.filtered, s.noted.diagnostics⟩

/-- `normalize_session` -/
def normalizeSession (orders : Orders) (steps : Nat) (session : Session) (messages : List MessageRow)
    (parts : List PartRow) (includeTypes : List String) : Option (Except String (Import Body)) :=
  match prepare orders session messages parts with
  | .error e => some (.error e)
  | .ok p =>
    match detectParentCycle orders.parents steps p.parentMessages with
    | none => none
    | some (.error e) => some (.error e)
    | some (.ok ()) =>
      match orderMessages orders.ready steps p.messagesById p.parentMessages with
      | none => none
      | some (.error e) => some (.error e)
      | some (.ok ordered) => some (emitMessages session.row.id p includeTypes ordered)

end MemoryStore.AgentImport.OpenCode
