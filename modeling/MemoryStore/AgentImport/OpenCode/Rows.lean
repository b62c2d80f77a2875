/-
The OpenCode database as the importer reads it
(`agent-chat-import/src/source/opencode.rs`): sessions, messages and parts.

Of a session only the columns that discovery and the order of its entries
depend on are here; a stored JSON text is its value. Texts compare by their
characters, as SQLite and Rust compare their UTF-8 bytes.
-/
import MemoryStore.AgentImport.RawPayload

namespace MemoryStore.AgentImport.OpenCode

/-- `serde_json::Value`; a number is an integer or it is not, as it is written. -/
inductive Data where
  | null
  | bool (b : Bool)
  | int (n : Int)
  | float (q : ℚ)
  | string (s : Text)
  | array (values : List Data)
  | object (fields : List (String × Data))

structure SessionRow where
  id : Text
  createdAtMs : Int
  updatedAtMs : Int
  parentId : Option Text
  archivedAtMs : Option Int
  deriving DecidableEq, Repr

structure MessageRow where
  id : Text
  sessionId : Text
  createdAtMs : Int
  updatedAtMs : Int
  data : Data

structure PartRow where
  id : Text
  messageId : Text
  sessionId : Text
  createdAtMs : Int
  updatedAtMs : Int
  data : Data

/-- The tables, and whether the optional columns of `session` are there. -/
structure Database where
  hasParentId : Bool
  hasArchived : Bool
  sessions : List SessionRow
  messages : List MessageRow
  parts : List PartRow

/-- What `validate_id` accepts. -/
def validId (start value : Text) : Bool :=
  !value.isEmpty && start.isPrefixOf value && !value.contains (Char.ofNat 0) && !value.contains ':'

/-- `validate_id` -/
def validateId (value : Text) (label : String) (start : Text) : Except String Unit :=
  if validId start value then .ok () else .error s!"invalid OpenCode {label} id"

/-- The id of a session is well formed. -/
def sessionId (id : Text) : Bool := validId "ses".toList id

/-- `WHERE id = ?` -/
def Database.findSession (db : Database) (id : Text) : Option SessionRow := db.sessions.find? fun row => row.id = id

/-- `read_session_row`: a column that is not there reads as absent. -/
def Database.readSessionRow (db : Database) (id : Text) : Option SessionRow :=
  (db.findSession id).map fun row =>
    { row with
        parentId := if db.hasParentId then row.parentId else none
        archivedAtMs := if db.hasArchived then row.archivedAtMs else none }

/-- `session_parent_and_archived` -/
def Database.sessionParentAndArchived (db : Database) (id : Text) : Option (Option Text × Option Int) :=
  (db.readSessionRow id).map fun row => (row.parentId, row.archivedAtMs)

/-- `SESSION_CANDIDATE_SQL` -/
def Database.changedSince (db : Database) (row : SessionRow) (since : Int) : Bool :=
  since ≤ row.updatedAtMs ||
    db.messages.any (fun m => m.sessionId = row.id && since ≤ m.updatedAtMs) ||
    db.parts.any fun p => p.sessionId = row.id && since ≤ p.updatedAtMs

/-- `ORDER BY time_created ASC, id ASC` -/
def createdBefore (a b : Int × Text) : Prop := a.1 < b.1 ∨ a.1 = b.1 ∧ a.2 ≤ b.2

instance : DecidableRel createdBefore := fun a b => by unfold createdBefore; infer_instance

end MemoryStore.AgentImport.OpenCode
