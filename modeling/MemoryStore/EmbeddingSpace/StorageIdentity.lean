/-
Storage identifiers: the RDB, the vector directories and the state directory of
one installation (`infra/src/infra/embedding_space/storage.rs`).

The state file is kept as its record, a manifest as its two identifiers, and a
path as its components, which is how paths are compared. What a path leads to is
the deployment's `resolve`: two paths can lead to one directory. Failing reads
and writes are left out.
-/
import MemoryStore.Lib.Json
import MemoryStore.Lib.Run
import MemoryStore.Lib.Utf8

namespace MemoryStore.EmbeddingSpace

/-! ## Identifiers -/

/-- `new_identifier`, of the random bytes drawn. -/
def newIdentifier (bytes : List (Fin 256)) : String :=
  String.ofList (bytes.flatMap fun b => [Json.hexDigit (b.val / 16), Json.hexDigit (b.val % 16)])

/-- The components of a path. -/
abbrev PathBuf := List String

/-! ## Records and observations -/

/-- Content of `<state dir>/storage.json`. -/
structure StateDirRecord where
  formatVersion : Nat
  stateDirId : String
  rdbId : String
  /-- The vector store identifier of each table label. -/
  vectorStores : Finmap fun _ : String => String
  deriving DecidableEq

def stateFormatVersion : Nat := 1

/-- What one vector table and its directory record. -/
structure StoreObservation where
  label : String
  /-- `none` for object storage. -/
  dir : Option PathBuf
  dirId : Option String
  tableRdbId : Option String
  tableStateDirId : Option String
  deriving DecidableEq

structure StorageObservation where
  rdbId : String
  state : Option StateDirRecord
  stores : List StoreObservation
  deriving DecidableEq

/-- One disagreeing pair. -/
structure Mismatch where
  left : String
  right : String
  deriving DecidableEq, Repr

/-- Writes that record identifiers not recorded yet. -/
structure StorageWrites where
  state : Option StateDirRecord
  dirIds : List (String × PathBuf × String)
  tables : List String
  deriving DecidableEq

/-- `StorageWrites::default()` -/
def StorageWrites.default : StorageWrites := ⟨none, [], []⟩

/-! ## The check -/

/-- What `check` carries from store to store; `drawn` counts the identifiers drawn. -/
structure CheckState where
  mismatches : List Mismatch
  dirIds : List (String × PathBuf × String)
  tables : List String
  state : StateDirRecord
  /-- Tables sharing a directory share its identifier. -/
  assigned : Finmap fun _ : PathBuf => String
  drawn : Nat

def CheckState.mismatch (c : CheckState) (left right : String) : CheckState :=
  { c with mismatches := c.mismatches ++ [⟨left, right⟩] }

/-- The end of one turn: the directory's identifier is the table's. -/
def CheckState.assign (c : CheckState) (label : String) (dir : PathBuf) (id : String) : CheckState :=
  { c with
    assigned := c.assigned.insert dir id
    state := { c.state with vectorStores := c.state.vectorStores.insert label id } }

/-- The identifiers in a table's manifest. -/
def checkTable (obs : StorageObservation) (c : CheckState) (s : StoreObservation) : CheckState :=
  let vector := "vector:" ++ s.label
  let c := if s.tableRdbId.any (fun id => id ≠ obs.rdbId) then c.mismatch "rdb" vector else c
  let c := if s.tableStateDirId.any (fun id => id ≠ c.state.stateDirId) then c.mismatch "state_dir" vector else c
  if s.tableRdbId.isNone || s.tableStateDirId.isNone then { c with tables := c.tables ++ [s.label] } else c

/-- The identifier of a table's directory. -/
def checkDir (newId : Nat → String) (c : CheckState) (s : StoreObservation) : CheckState :=
  match s.dir with
  | none => c
  | some dir =>
    match s.dirId, c.state.vectorStores.lookup s.label with
    | some d, some r => if d ≠ r then c.mismatch "state_dir" ("vector:" ++ s.label) else c.assign s.label dir d
    -- the directory lost its identifier: it is not the one that was recorded
    | none, some _ => c.mismatch "state_dir" ("vector:" ++ s.label)
    | some d, none => c.assign s.label dir d
    | none, none =>
      match c.assigned.lookup dir with
      | some id => c.assign s.label dir id
      | none =>
        let id := newId c.drawn
        ({ c with dirIds := c.dirIds ++ [(s.label, dir, id)], drawn := c.drawn + 1 } : CheckState).assign s.label dir id

/-- The start of `check`, with `drawn` identifiers drawn before it. -/
def CheckState.start (newId : Nat → String) (obs : StorageObservation) (drawn : Nat) : CheckState :=
  let (state, drawn) := match obs.state with
    | some state => (state, drawn)
    | none => (⟨stateFormatVersion, newId drawn, obs.rdbId, ∅⟩, drawn + 1)
  let mismatches := if state.rdbId ≠ obs.rdbId then [⟨"rdb", "state_dir"⟩] else []
  ⟨mismatches, [], [], state, ∅, drawn⟩

def checkStores (newId : Nat → String) (obs : StorageObservation) (stores : List StoreObservation) (c : CheckState) :
    CheckState :=
  stores.foldl (fun c s => checkDir newId (checkTable obs c s) s) c

/-- `check`: missing records are planned as writes, conflicting ones are reported. -/
def check (newId : Nat → String) (drawn : Nat) (obs : StorageObservation) : Except (List Mismatch) StorageWrites :=
  let c := checkStores newId obs obs.stores (.start newId obs drawn)
  if !c.mismatches.isEmpty then .error c.mismatches
  else .ok ⟨if obs.state ≠ some c.state then some c.state else none, c.dirIds, c.tables⟩

/-! ## An installation -/

/-- Where the tables are. -/
structure Deployment where
  /-- The local directory of a table; `none` for object storage. -/
  dirOf : String → Option PathBuf
  /-- The directory a path leads to. -/
  resolve : PathBuf → String

structure TableManifest where
  rdbId : Option String
  stateDirId : Option String
  deriving DecidableEq, Repr

/-- The three stores of an installation, and the identifiers drawn so far. -/
structure World where
  rdbId : String
  state : Option StateDirRecord
  /-- The identifier file of each directory. -/
  dirIds : String → Option String
  tables : String → TableManifest
  drawn : Nat

/-- `read_dir_id` -/
def readDirId (content : Option String) : Option String :=
  (content.map Whitespace.trim).filter fun s => s ≠ ""

def observeStore (dep : Deployment) (w : World) (label : String) : StoreObservation where
  label := label
  dir := dep.dirOf label
  dirId := (dep.dirOf label).bind fun dir => readDirId (w.dirIds (dep.resolve dir))
  tableRdbId := (w.tables label).rdbId.filter fun v => v ≠ ""
  tableStateDirId := (w.tables label).stateDirId.filter fun v => v ≠ ""

def observe (dep : Deployment) (w : World) (labels : List String) : StorageObservation :=
  ⟨w.rdbId, w.state, labels.map (observeStore dep w)⟩

/-- One write of `apply`. -/
inductive Write where
  | dirId (dir : PathBuf) (id : String)
  | state (record : StateDirRecord)
  | table (label rdbId stateDirId : String)

def World.write (dep : Deployment) (w : World) : Write → World
  | .dirId dir id => { w with dirIds := Function.update w.dirIds (dep.resolve dir) (some id) }
  | .state record => { w with state := some record }
  | .table label rdbId stateDirId => { w with tables := Function.update w.tables label ⟨some rdbId, some stateDirId⟩ }

def World.writeAll (dep : Deployment) (w : World) (writes : List Write) : World := writes.foldl (World.write dep) w

/-- The writes of `apply`, in order. -/
def plannedWrites (writes : StorageWrites) (obs : StorageObservation) : List Write :=
  -- check always yields a state record
  let stateDirId := ((writes.state <|> obs.state).map StateDirRecord.stateDirId).getD ""
  writes.dirIds.map (fun e => .dirId e.2.1 e.2.2) ++ writes.state.toList.map .state ++
    writes.tables.map fun label => .table label obs.rdbId stateDirId

/-- The identifiers drawn after a check. -/
def drawnAfter (newId : Nat → String) (drawn : Nat) (obs : StorageObservation) : Nat :=
  (checkStores newId obs obs.stores (.start newId obs drawn)).drawn

/-- `verify_and_record`, interrupted after `stop` of its writes; uninterrupted when `stop` is `none`. -/
def verifyAndRecord (newId : Nat → String) (dep : Deployment) (labels : List String) (stop : Option Nat) (w : World) :
    Except (List Mismatch) Unit × World :=
  let obs := observe dep w labels
  let after : World := { w with drawn := drawnAfter newId w.drawn obs }
  match check newId w.drawn obs with
  | .error mismatches => (.error mismatches, after)
  | .ok writes =>
    let planned := plannedWrites writes obs
    (.ok (), after.writeAll dep (match stop with
      | some n => planned.take n
      | none => planned))

end MemoryStore.EmbeddingSpace
