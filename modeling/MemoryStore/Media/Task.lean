/-
The operations on media (`app/src/app/media.rs`) and the rows a cleanup works
on (`grpc-admin/src/bin/cleanup_orphan_media.rs`), cut where they may be
interleaved or crash: at every transaction and at every storage call. A task is
where one of them has got to, with the locals it goes on with.

A storage call is done, fails without a trace, or fails with its destination
half written. A transaction that fails ends its task, as a crash does.
-/
import MemoryStore.Conversation.Operation
import MemoryStore.Media.Storage

namespace MemoryStore.Media

open Conversation

/-- The configuration of a server: one storage backend, and where its keys begin. -/
class MediaConfig where
  backend : Backend
  managed : backend.managed = true
  s3Prefix : String

/-! ## Requests -/

/-- `UploadHeaderMeta`. -/
structure UploadHeaderMeta where
  kind : Int
  mediaType : String
  width : Option Int
  height : Option Int
  alt : Option String
  deriving DecidableEq, Repr

/-- The locals of an upload: its temp key, and what the stream has in it. -/
structure Upload where
  tkey : String
  header : UploadHeaderMeta
  sha256 : Sha256Hex
  byteCount : Nat
  deriving DecidableEq

/-- The columns of the reservation of an upload. -/
def Upload.mediaHeader (u : Upload) : MediaHeader :=
  { kind := u.header.kind, mediaType := u.header.mediaType, byteSize := some u.byteCount, width := u.header.width
    height := u.header.height, durationMs := none, alt := u.header.alt }

/-- `RegisterParams`. -/
structure RegisterParams where
  kind : Int
  mediaType : String
  storageBackend : Backend
  storageUri : String
  sha256 : Option String
  byteSize : Option Int
  width : Option Int
  height : Option Int
  alt : Option String
  deriving DecidableEq, Repr

/-- The columns a registration inserts. -/
def RegisterParams.mediaHeader (p : RegisterParams) : MediaHeader :=
  { kind := p.kind, mediaType := p.mediaType, byteSize := p.byteSize, width := p.width, height := p.height
    durationMs := none, alt := p.alt }

/-! ## Tasks -/

inductive Task where
  /-- Upload: stream to the temp key. -/
  | putTemp (u : Upload)
  /-- Stage 3, tx1. -/
  | reserve (u : Upload)
  /-- `finish_fresh_reservation`: copy, then confirm, or roll back. -/
  | copyFresh (u : Upload) (mediaId : Nat)
  | rollBack (u : Upload) (mediaId : Nat)
  | confirmFresh (u : Upload) (mediaId : Nat)
  /-- `promote_recover`: claim, copy, read the count, confirm. -/
  | claimPromote (u : Upload) (mediaId : Nat)
  | rereadPromote (u : Upload) (mediaId : Nat)
  | copyPromote (u : Upload) (mediaId : Nat)
  | readRefCount (u : Upload) (mediaId : Nat)
  | confirmPromote (u : Upload) (mediaId : Nat) (gcState : GcState)
  /-- The best-effort delete of the temp object. -/
  | dropTemp (tkey : String)
  /-- `register`. -/
  | headObject (p : RegisterParams) (sha256 : Sha256Hex) (byteSize : Int)
  | registerManaged (p : RegisterParams) (sha256 : Sha256Hex) (byteSize : Int)
  | registerUrl (p : RegisterParams)
  /-- `delete`. -/
  | readForDelete (mediaId : Nat)
  | claimForDelete (mediaId : Nat) (row : MediaObjectRow)
  /-- `finish_delete`: the object, then the row. -/
  | deleteObject (mediaId : Nat) (row : MediaObjectRow)
  | markFailed (mediaId : Nat)
  | deleteRow (mediaId : Nat)
  /-- `claim_then_finish`. -/
  | claimThenFinish (row : MediaObjectRow)
  /-- `sweep_reservations`: the leaked final, then the row. -/
  | deleteReservationFinal (row : MediaObjectRow) (sha256 : String)
  | deleteReservationRow (row : MediaObjectRow)
  /-- `sweep_promoting`: the leaked final, then the revert. -/
  | deletePromotingFinal (row : MediaObjectRow) (sha256 : String)
  | revertPromoting (row : MediaObjectRow)
  /-- `sweep_deleting`. -/
  | revertDeleting (row : MediaObjectRow)
  /-- `sweep_deleted_failed`. -/
  | reclaimFailed (row : MediaObjectRow)
  /-- `sweep_ref_count_desync`. -/
  | reconcile (d : RefCountDesync)
  | rereadReconciled (mediaId : Nat)
  /-- `sweep_temp_residue`. -/
  | deleteTemp (key : String)
  deriving DecidableEq

/-- The row a task works on, if it has one yet. -/
def Task.worksOn : Task → Option Nat
  | putTemp _ | reserve _ | dropTemp _ | headObject .. | registerManaged .. | registerUrl _ | deleteTemp _ => none
  | copyFresh _ id | rollBack _ id | confirmFresh _ id | claimPromote _ id | rereadPromote _ id | copyPromote _ id
  | readRefCount _ id | confirmPromote _ id _ | readForDelete id | claimForDelete id _ | deleteObject id _
  | markFailed id | deleteRow id | rereadReconciled id => some id
  | claimThenFinish row | deleteReservationFinal row _ | deleteReservationRow row | deletePromotingFinal row _
  | revertPromoting row | revertDeleting row | reclaimFailed row => some row.id
  | reconcile d => some d.id

/-! ## Decisions between the steps -/

/-- `handle_upload_conflict`: promote or recover, or drop the temp object and
answer, be it with the row there is or with an error. -/
def handleUploadConflict (u : Upload) (row : MediaObjectRow) : List Task :=
  if row.inStates [.deletedFailed, .unresolvable] then [.claimPromote u row.id] else [.dropTemp u.tkey]

/-- `finish_delete`, up to its first step. -/
def finishDelete (mediaId : Nat) (row : MediaObjectRow) : Task :=
  if row.storageBackend.managed && row.storageUri.isSome then .deleteObject mediaId row else .deleteRow mediaId

/-- `usable_sha`. -/
def usableSha (row : MediaObjectRow) : Option String := row.sha256.filter (!·.isEmpty)

/-- `reservation_recovery_plan`. -/
def reservationRecoveryPlan (row : MediaObjectRow) : Task :=
  match usableSha row with
  | some sha256 => .deleteReservationFinal row sha256
  | none => .deleteReservationRow row

/-- `promoting_recovery_plan`. -/
def promotingRecoveryPlan (row : MediaObjectRow) : Task :=
  match usableSha row with
  | some sha256 => .deletePromotingFinal row sha256
  | none => .revertPromoting row

/-- `desync_action`: only an active or orphan row is reconciled. -/
def desyncAction (d : RefCountDesync) : List Task :=
  if d.gcState ∈ [.active, .orphan] then [.reconcile d] else []

/-- The checks of `register` before it looks for the object. -/
def registerTask [MediaConfig] (p : RegisterParams) : List Task :=
  match p.storageBackend with
  | .url => [.registerUrl p]
  | .s3 | .file =>
    if p.storageBackend ≠ MediaConfig.backend then []
    else
      match p.sha256, p.byteSize with
      | some sha256, some declared =>
        if h : isSha256Hex sha256 = true then
          if validateStorageKey p.storageUri then [.headObject p ⟨sha256, h⟩ declared] else []
        else []
      | _, _ => []
  | _ => []

/-! ## Transactions -/

/-- tx1 of an upload: the reservation, or the row that holds the hash. -/
def reserveUpload (now : Int) (u : Upload) : StoreTx (Nat ⊕ MediaObjectRow) := do
  let mediaId ← generateId
  let inserted ← insertReservation now mediaId u.mediaHeader u.sha256.value
  let s ← Tx.get
  match inserted, s.findMediaBySha256 u.sha256.value with
  | true, _ => pure (.inl mediaId)
  | false, some row => pure (.inr row)
  | false, none => Tx.fail (.runtimeError "media_object reservation conflict but row not found")

/-- The transaction of `register_managed`. -/
def registerManagedTx [MediaConfig] (now : Int) (p : RegisterParams) (sha256 : Sha256Hex) (byteSize : Int) :
    StoreTx Unit := do
  let mediaId ← generateId
  let inserted ← insertReservation now mediaId p.mediaHeader sha256.value
  let s ← Tx.get
  match inserted, s.findMediaBySha256 sha256.value with
  | true, _ => do
    let _ ← confirmReservation now mediaId p.storageUri MediaConfig.backend (some byteSize)
    pure ()
  | false, some row =>
    if row.inStates [.deletedFailed, .unresolvable] then do
      let gcState := if 0 < row.refCount then GcState.active else .orphan
      let _ ← registerPromote now row.id p.storageUri MediaConfig.backend (some byteSize) gcState
      pure ()
    else pure ()
  | false, none => Tx.fail (.runtimeError "register conflict but row not found")

/-- The transaction of `register_url`. -/
def registerUrlTx (now : Int) (p : RegisterParams) : StoreTx Unit := do
  let mediaId ← generateId
  insertUrl now mediaId p.mediaHeader p.storageUri

/-- The transaction that ends `finish_delete`. -/
def deleteRowTx (now : Int) (mediaId : Nat) : StoreTx Unit := do
  let ok ← deleteIfUnreferenced mediaId
  if ok then pure ()
  else do
    -- The claim was held: the source calls this an invariant violation.
    let _ ← markDeleteFailed now mediaId
    pure ()

/-! ## Steps -/

/-- How a storage call ends. -/
inductive Outcome where
  | done
  /-- An error, with storage as it was. -/
  | failed
  /-- An error, with the destination of the write half written. -/
  | torn
  deriving DecidableEq, Repr

/-- The database, the storage, and what the task goes on as. -/
abbrev Stepped := Store × Objects × List Task

/-- Run a transaction; one that fails ends the task. -/
def transact {α : Type} (s : Store) (objects : Objects) (m : StoreTx α) (next : α → List Task) : Stepped :=
  match m s with
  | .ok (a, s') => (s', objects, next a)
  | .error _ => (s, objects, [])

/-- A copy to the final key; a missing source is an error. -/
def copyObject (objects : Objects) (now : Int) (src dst : String) : Outcome → Objects × Bool
  | .done =>
    match objects.head src with
    | some object => (objects.put dst ⟨object.byteSize, now⟩, true)
    | none => (objects, false)
  | .failed => (objects, false)
  | .torn => (objects.put dst ⟨0, now⟩, false)

/-- A storage delete, which removes the object or leaves it. -/
def deleteStored (objects : Objects) (key : String) : Outcome → Objects × Bool
  | .done => (objects.delete key, true)
  | _ => (objects, false)

/-- The next step of a task. -/
def Task.step [MediaConfig] (now : Int) (outcome : Outcome) (s : Store) (objects : Objects) : Task → Stepped
  | putTemp u =>
    match outcome with
    | .done => (s, objects.put u.tkey ⟨u.byteCount, now⟩, [reserve u])
    | .failed => (s, objects, [])
    | .torn => (s, objects.put u.tkey ⟨0, now⟩, [])
  | reserve u =>
    transact s objects (reserveUpload now u) fun
      | .inl mediaId => [copyFresh u mediaId]
      | .inr row => handleUploadConflict u row
  | copyFresh u mediaId =>
    let (objects, copied) := copyObject objects now u.tkey (finalKey MediaConfig.s3Prefix u.sha256.value) outcome
    (s, objects, if copied then [confirmFresh u mediaId] else [rollBack u mediaId])
  | rollBack u mediaId => transact s objects (deleteIfUnreferenced mediaId) fun _ => [dropTemp u.tkey]
  | confirmFresh u mediaId =>
    transact s objects
      (confirmReservation now mediaId (finalKey MediaConfig.s3Prefix u.sha256.value) MediaConfig.backend
        (some u.byteCount))
      fun ok => if ok then [dropTemp u.tkey] else []
  | claimPromote u mediaId =>
    transact s objects (Conversation.claimPromote now mediaId) fun claimed =>
      if claimed then [copyPromote u mediaId] else [rereadPromote u mediaId]
  | rereadPromote u mediaId =>
    match s.findMedia mediaId with
    | none => (s, objects, [])
    | some row => (s, objects, handleUploadConflict u row)
  | copyPromote u mediaId =>
    let (objects, copied) := copyObject objects now u.tkey (finalKey MediaConfig.s3Prefix u.sha256.value) outcome
    (s, objects, if copied then [readRefCount u mediaId] else [])
  | readRefCount u mediaId =>
    match s.findMedia mediaId with
    | none => (s, objects, [])
    | some row => (s, objects, [confirmPromote u mediaId (if 0 < row.refCount then .active else .orphan)])
  | confirmPromote u mediaId gcState =>
    transact s objects
      (Conversation.confirmPromote now mediaId (finalKey MediaConfig.s3Prefix u.sha256.value) MediaConfig.backend
        (some u.byteCount) gcState)
      fun ok => if ok then [dropTemp u.tkey] else []
  | dropTemp tkey => (s, (deleteStored objects tkey outcome).1, [])
  | headObject p sha256 byteSize =>
    match outcome, objects.head p.storageUri with
    | .done, some stat =>
      (s, objects, if (stat.byteSize : Int) = byteSize then [registerManaged p sha256 byteSize] else [])
    | _, _ => (s, objects, [])
  | registerManaged p sha256 byteSize => transact s objects (registerManagedTx now p sha256 byteSize) fun _ => []
  | registerUrl p => transact s objects (registerUrlTx now p) fun _ => []
  | readForDelete mediaId =>
    match s.findMedia mediaId with
    | none => (s, objects, [])
    | some row =>
      if row.refCount ≠ 0 || row.inStates [.unresolvable, .promoting] then (s, objects, [])
      else (s, objects, [claimForDelete mediaId row])
  | claimForDelete mediaId row =>
    transact s objects (claimDeleting now mediaId) fun claimed => if claimed then [finishDelete mediaId row] else []
  | deleteObject mediaId row =>
    let (objects, deleted) := deleteStored objects (row.storageUri.getD "") outcome
    (s, objects, if deleted then [deleteRow mediaId] else [markFailed mediaId])
  | markFailed mediaId => transact s objects (markDeleteFailed now mediaId) fun _ => []
  | deleteRow mediaId => transact s objects (deleteRowTx now mediaId) fun _ => []
  | claimThenFinish row =>
    transact s objects (claimDeleting now row.id) fun claimed => if claimed then [finishDelete row.id row] else []
  | deleteReservationFinal row sha256 =>
    -- A failed delete is logged, and the row goes all the same.
    (s, (deleteStored objects (finalKey MediaConfig.s3Prefix sha256) outcome).1, [deleteReservationRow row])
  | deleteReservationRow row => transact s objects (deleteIfUnreferenced row.id) fun _ => []
  | deletePromotingFinal row sha256 =>
    (s, (deleteStored objects (finalKey MediaConfig.s3Prefix sha256) outcome).1, [revertPromoting row])
  | revertPromoting row => transact s objects (Conversation.revertPromoting now row.id) fun _ => []
  | revertDeleting row => transact s objects (Conversation.revertDeleting now row.id) fun _ => []
  | reclaimFailed row =>
    transact s objects (reclaimDeletedFailed now row.id) fun reclaimed =>
      if reclaimed then [finishDelete row.id row] else []
  | reconcile d =>
    transact s objects (reconcileRefCount now d.id d.dbRefCount d.actualRefCount) fun ok =>
      if ok && d.actualRefCount = 0 then [rereadReconciled d.id] else []
  | rereadReconciled mediaId =>
    match s.findMedia mediaId with
    | none => (s, objects, [])
    | some row => (s, objects, [claimThenFinish row])
  | deleteTemp key => (s, (deleteStored objects key outcome).1, [])

end MemoryStore.Media
