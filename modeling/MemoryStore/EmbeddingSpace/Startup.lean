/-
Embedding spaces and the record each vector table keeps of its own
(`infra/src/infra/embedding_space/mod.rs`, `record.rs`).

The record lives in the table's manifest config, so it is created, copied and
dropped together with the rows. A record whose marker cannot be parsed is read
as an error there and never reaches the functions modelled here.
-/
import MemoryStore.Lib.Json
import MemoryStore.Lib.Sha

namespace MemoryStore.EmbeddingSpace

/-- What identifies an embedding space: configuration only. -/
structure SpaceComponents where
  modelId : String
  tokenizerModelId : String
  revision : String
  dimension : Nat
  distance : String
  deriving DecidableEq, Repr

/-- 64 lower-case hex digits of a SHA-256. -/
abbrev SpaceId := String

def spaceIdDerivation : String := "memories-embedding-space/v1"

def SpaceComponents.spaceId (c : SpaceComponents) : SpaceId :=
  Sha256.sha256Hex (Json.array ([spaceIdDerivation, c.modelId, c.tokenizerModelId, c.revision,
    toString c.dimension, c.distance].map Json.string))

def SpaceComponents.toJson (c : SpaceComponents) : String :=
  Json.fields [("model_id", Json.string c.modelId), ("tokenizer_model_id", Json.string c.tokenizerModelId),
    ("revision", Json.string c.revision), ("dimension", toString c.dimension), ("distance", Json.string c.distance)]

/-- The space a table's rows belong to. -/
structure SpaceRecord where
  spaceId : SpaceId
  /-- `none` only when the stored JSON cannot be parsed. -/
  components : Option SpaceComponents
  legacyAccept : Bool
  deriving DecidableEq, Repr

/-- `SpaceRecord::new` -/
def SpaceRecord.new (components : SpaceComponents) (legacyAccept : Bool) : SpaceRecord :=
  ⟨components.spaceId, some components, legacyAccept⟩

inductive MarkerState where
  | switching | pending | committing | restoring | discarding
  deriving DecidableEq, Repr

def MarkerState.asStr : MarkerState → String
  | .switching => "switching"
  | .pending => "pending"
  | .committing => "committing"
  | .restoring => "restoring"
  | .discarding => "discarding"

structure MigrationMarker where
  state : MarkerState
  attemptId : String
  deriving DecidableEq, Repr

/-- Everything kept in one table's manifest config. -/
structure TableRecord where
  space : Option SpaceRecord
  marker : Option MigrationMarker
  /-- Chunking settings pinned by the first start of a pending rebuild. -/
  rebuildChunking : Option String
  deriving DecidableEq, Repr

/-- The record of a table just created. -/
def TableRecord.default : TableRecord := ⟨none, none, none⟩

/-- The record names this space. -/
def TableRecord.RecordedIn (record : TableRecord) (id : SpaceId) : Prop :=
  record.space.map SpaceRecord.spaceId = some id

instance (record : TableRecord) (id : SpaceId) : Decidable (record.RecordedIn id) :=
  inferInstanceAs (Decidable (_ = _))

end MemoryStore.EmbeddingSpace

/-!
The startup decision over the set of vector tables, rules 0 to 8
(`infra/src/infra/embedding_space/startup.rs`).

`decide` answers `none` where the source would panic at an `expect`.
-/

namespace MemoryStore.EmbeddingSpace

/-- Embedding-model labels found in a table's rows. -/
structure RowModels where
  names : Finset String
  /-- At least one row has no model label. -/
  hasUnlabeled : Bool
  deriving DecidableEq

def RowModels.default : RowModels := ⟨∅, false⟩

structure TableObservation where
  table : String
  record : TableRecord
  isEmpty : Bool
  /-- Observed only for an unrecorded, non-empty table. -/
  rowModels : Option RowModels
  deriving DecidableEq

/-- A record write the caller must apply before serving. -/
structure RecordWrite where
  table : String
  space : SpaceRecord
  deriving DecidableEq, Repr

inductive StartupError where
  | embeddingSpaceMismatch (table currentSpaceId currentSpace recordedSpaceId recordedSpace : String)
  | embeddingSpaceUnknown (table rowModels : String)
  | embeddingRebuildInconsistent (markers : String)
  | embeddingRebuildConfigChanged (attemptId : String)
  | embeddingSwitchIncomplete (attemptId : String)
  | embeddingFinalizeIncomplete (attemptId : String)
  | embeddingCancelIncomplete (attemptId operation : String)
  deriving DecidableEq, Repr

inductive StartupDecision where
  /-- Start, after applying `writes` (possibly none). -/
  | start (writes : List RecordWrite)
  /-- Start in the rebuild-pending state of `attemptId`. -/
  | startRebuilding (attemptId : String)
  | fail (error : StartupError)
  deriving DecidableEq, Repr

/-- Only rule 3 consults the RDB. -/
def needsRdbTargetCheck (tables : List TableObservation) : Bool :=
  !tables.isEmpty && tables.all fun t => t.isEmpty && t.record.marker.isNone

/-- The chunking check of rule 4: the tables that still need the pin, or the refusal. -/
def pinRebuildChunking (tables : List TableObservation) (attemptId current : String) :
    Except StartupError (List String) :=
  if (tables.filterMap (·.record.rebuildChunking)).any (· ≠ current) then
    .error (.embeddingRebuildConfigChanged attemptId)
  else
    .ok ((tables.filter (·.record.rebuildChunking.isNone)).map (·.table))

def mismatch (t : TableObservation) (current : SpaceComponents) : Option StartupError :=
  t.record.space.bind fun recorded =>
    if recorded.spaceId = current.spaceId then none
    else some (.embeddingSpaceMismatch t.table current.spaceId current.toJson recorded.spaceId
      ((recorded.components.map SpaceComponents.toJson).getD ""))

def describeMarkers (tables : List TableObservation) : String :=
  Json.object (tables.map fun t => (t.table, Json.object
    [("marker", Json.stringOrNull (t.record.marker.map (·.state.asStr))),
      ("attempt_id", Json.stringOrNull (t.record.marker.map (·.attemptId)))]))

/-- The `for` loop over the tables of rules 6 to 8. -/
def recordWrites (current : SpaceComponents) : List TableObservation → Except StartupError (List RecordWrite)
  | [] => .ok []
  | t :: rest =>
    if t.record.space.isSome then
      match mismatch t current with
      | some err => .error err
      | none => recordWrites current rest
    else if t.isEmpty then
      (recordWrites current rest).map (⟨t.table, .new current false⟩ :: ·)
    else
      let models := t.rowModels.getD .default
      if models.hasUnlabeled || models.names.card ≠ 1 then
        .error (.embeddingSpaceUnknown t.table (Json.stringSet models.names))
      else
        (recordWrites current rest).map (⟨t.table, .new current true⟩ :: ·)

/-- Rules 5 to 8: no table is marked, and the tables or the RDB hold something. -/
def decideRecorded (tables : List TableObservation) (current : SpaceComponents) : Option StartupDecision :=
  let recorded := (tables.filterMap fun t => t.record.space.map SpaceRecord.spaceId).toFinset
  if 1 < recorded.card then
    match tables.find? fun t => t.record.space.any fun s => s.spaceId ≠ current.spaceId with
    | none => none
    | some culprit =>
      match mismatch culprit current with
      | none => none
      | some err => some (.fail err)
  else
    match recordWrites current tables with
    | .error err => some (.fail err)
    | .ok writes => some (.start writes)

/-- Rules 2a and 4: only pending markers remain, and there is one. -/
def decidePending (tables : List TableObservation) (current : SpaceComponents) (markers : List MigrationMarker)
    (first : MigrationMarker) : StartupDecision :=
  if markers.length ≠ tables.length || (markers.map (·.attemptId)).toFinset.card ≠ 1 then
    .fail (.embeddingRebuildInconsistent (describeMarkers tables))
  else
    match tables.findSome? fun t => mismatch t current with
    | some err => .fail err
    | none => .startRebuilding first.attemptId

/-- The writes of rule 3. -/
def emptyWrites (tables : List TableObservation) (current : SpaceComponents) : List RecordWrite :=
  (tables.filter fun t => ¬ t.record.RecordedIn current.spaceId).map fun t => ⟨t.table, .new current false⟩

def firstWith (markers : List MigrationMarker) (states : List MarkerState) : Option MigrationMarker :=
  markers.find? fun m => m.state ∈ states

def decide (tables : List TableObservation) (current : SpaceComponents) (rdbHasTargets : Bool) :
    Option StartupDecision :=
  if tables.isEmpty then some (.start [])
  else
    let markers := tables.filterMap (·.record.marker)
    match firstWith markers [.restoring, .discarding] with
    | some m => some (.fail (.embeddingCancelIncomplete m.attemptId
        (if m.state = .restoring then "restore" else "abandon")))
    | none =>
      match firstWith markers [.committing] with
      | some m => some (.fail (.embeddingFinalizeIncomplete m.attemptId))
      | none =>
        match firstWith markers [.switching] with
        | some m => some (.fail (.embeddingSwitchIncomplete m.attemptId))
        | none =>
          match markers with
          | first :: _ => some (decidePending tables current markers first)
          | [] =>
            if tables.all (·.isEmpty) && !rdbHasTargets then some (.start (emptyWrites tables current))
            else decideRecorded tables current

end MemoryStore.EmbeddingSpace
