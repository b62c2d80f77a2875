/-
The SQL of `infra/src/infra/media_object/rdb.rs`.

Every statement but the inserts is one conditional `UPDATE` or `DELETE` of a
row by its id: the condition sits in the `WHERE`, so whether the statement hit
a row is all a caller learns, and all it needs.
-/
import MemoryStore.Conversation.Repository

namespace MemoryStore.Conversation

open Table

/-- The columns of a new media object that come with the request. -/
structure MediaHeader where
  kind : Int
  mediaType : String
  byteSize : Option Int
  width : Option Int
  height : Option Int
  durationMs : Option Int
  alt : Option String
  deriving DecidableEq, Repr

/-- A new row: not referenced, and with the times of its insert. -/
def MediaHeader.row (header : MediaHeader) (now : Int) (id : Nat) (sha256 : Option String) (backend : Backend)
    (storageUri : Option String) (gcState : GcState) : MediaObjectRow :=
  { id, kind := header.kind, mediaType := header.mediaType, byteSize := header.byteSize, sha256
    width := header.width, height := header.height, durationMs := header.durationMs
    storageBackend := backend, storageUri, alt := header.alt, refCount := 0, gcState
    createdAt := now, updatedAt := now }

/-- `find_by_sha256_tx`. -/
def Store.findMediaBySha256 (s : Store) (sha256 : String) : Option MediaObjectRow :=
  s.mediaObjects.find? (fun row => row.sha256 = some sha256)

def Store.insertMedia (s : Store) (row : MediaObjectRow) : Store :=
  { s with mediaObjects := s.mediaObjects ++ [row] }

/-- `INSERT_RESERVATION_SQL`: `ON CONFLICT (sha256) DO NOTHING`. -/
def insertReservation (now : Int) (id : Nat) (header : MediaHeader) (sha256 : String) : StoreTx Bool := do
  let s ← Tx.get
  if (s.findMediaBySha256 sha256).isSome then pure false
  else do
    Tx.writes (·.insertMedia (header.row now id (some sha256) .pending none .orphan))
    pure true

/-- `INSERT_URL_SQL`. -/
def insertUrl (now : Int) (id : Nat) (header : MediaHeader) (storageUri : String) : StoreTx Unit :=
  Tx.writes (·.insertMedia (header.row now id none .url (some storageUri) .orphan))

/-- `UPDATE media_object SET … WHERE id = ? AND …`, at one row. -/
def Store.modifyMedia (s : Store) (id : Nat) (guard : MediaObjectRow → Bool)
    (f : MediaObjectRow → MediaObjectRow) : Store :=
  { s with mediaObjects := modifyWhere (fun row => row.id = id && guard row) f s.mediaObjects }

/-- A conditional `UPDATE`; the answer is whether it hit its row. -/
def modifyMedia (id : Nat) (guard : MediaObjectRow → Bool) (f : MediaObjectRow → MediaObjectRow) : StoreTx Bool := do
  let hit ← Tx.reads fun s => s.mediaObjects.any fun row => row.id = id && guard row
  Tx.writes (·.modifyMedia id guard f)
  pure hit

/-! ## Promotion -/

def MediaObjectRow.inStates (states : List GcState) (row : MediaObjectRow) : Bool := row.gcState ∈ states

/-- The columns every confirmation sets. -/
def MediaObjectRow.confirmed (now : Int) (uri : String) (backend : Backend) (byteSize : Option Int)
    (row : MediaObjectRow) : MediaObjectRow :=
  { row with storageUri := some uri, storageBackend := backend, byteSize, updatedAt := now }

/-- `gc_state`, which a state change sets together with `updated_at`. -/
def MediaObjectRow.setState (now : Int) (gcState : GcState) (row : MediaObjectRow) : MediaObjectRow :=
  { row with gcState, updatedAt := now }

/-- `UPDATE_CLAIM_PROMOTE_SQL`: `{2,3} → 4`. -/
def claimPromote (now : Int) (id : Nat) : StoreTx Bool :=
  modifyMedia id (·.inStates [.deletedFailed, .unresolvable]) (·.setState now .promoting)

/-- `UPDATE_PROMOTE_SQL`: a claimed row to its final URI. -/
def confirmPromote (now : Int) (id : Nat) (uri : String) (backend : Backend) (byteSize : Option Int)
    (gcState : GcState) : StoreTx Bool :=
  modifyMedia id (·.inStates [.promoting]) fun row => { row.confirmed now uri backend byteSize with gcState }

/-- `UPDATE_CONFIRM_RESERVATION_SQL`: the state stays orphan. -/
def confirmReservation (now : Int) (id : Nat) (uri : String) (backend : Backend) (byteSize : Option Int) :
    StoreTx Bool :=
  modifyMedia id (fun row => row.inStates [.orphan] && row.storageUri.isNone)
    (·.confirmed now uri backend byteSize)

/-- `UPDATE_REGISTER_PROMOTE_SQL`. -/
def registerPromote (now : Int) (id : Nat) (uri : String) (backend : Backend) (byteSize : Option Int)
    (gcState : GcState) : StoreTx Bool :=
  modifyMedia id (·.inStates [.deletedFailed, .unresolvable])
    fun row => { row.confirmed now uri backend byteSize with gcState }

/-- `UPDATE_REVERT_PROMOTING_SQL`: `4 → 3`. -/
def revertPromoting (now : Int) (id : Nat) : StoreTx Bool :=
  modifyMedia id (·.inStates [.promoting]) (·.setState now .unresolvable)

/-! ## Deletion -/

/-- `ref_count = 0`. -/
def MediaObjectRow.unreferenced (row : MediaObjectRow) : Bool := row.refCount = 0

/-- `UPDATE_CLAIM_DELETING_SQL`: `{0,1} → 5`. -/
def claimDeleting (now : Int) (id : Nat) : StoreTx Bool :=
  modifyMedia id (fun row => row.unreferenced && row.inStates [.active, .orphan]) (·.setState now .deleting)

/-- `UPDATE_MARK_DELETE_FAILED_SQL`: `5 → 2`. -/
def markDeleteFailed (now : Int) (id : Nat) : StoreTx Bool :=
  modifyMedia id (·.inStates [.deleting]) (·.setState now .deletedFailed)

/-- `UPDATE_REVERT_DELETING_SQL`: `5 → 1`. -/
def revertDeleting (now : Int) (id : Nat) : StoreTx Bool :=
  modifyMedia id (·.inStates [.deleting]) (·.setState now .orphan)

/-- `UPDATE_RECLAIM_DELETED_FAILED_SQL`: `2 → 5`. -/
def reclaimDeletedFailed (now : Int) (id : Nat) : StoreTx Bool :=
  modifyMedia id (fun row => row.unreferenced && row.inStates [.deletedFailed]) (·.setState now .deleting)

def Store.deleteMedia (s : Store) (p : MediaObjectRow → Bool) : Store :=
  { s with mediaObjects := s.mediaObjects.filter fun row => !p row }

/-- The `WHERE` of `DELETE_IF_UNREFERENCED_SQL`. -/
def MediaObjectRow.deletable (row : MediaObjectRow) : Bool :=
  row.unreferenced && row.inStates [.active, .orphan, .deleting]

/-- `DELETE_IF_UNREFERENCED_SQL`. -/
def deleteIfUnreferenced (id : Nat) : StoreTx Bool := do
  let hit ← Tx.reads fun s => s.mediaObjects.any fun row => row.id = id && row.deletable
  Tx.writes (·.deleteMedia fun row => row.id = id && row.deletable)
  pure hit

/-! ## Reference counts -/

/-- The new values of `REFCOUNT_INCR_SQL`: only a confirmed orphan becomes active. -/
def MediaObjectRow.incremented (now : Int) (row : MediaObjectRow) : MediaObjectRow :=
  { row with
      refCount := row.refCount + 1
      gcState := if row.gcState = .orphan && row.storageUri.isSome then .active else row.gcState
      updatedAt := now }

/-- `REFCOUNT_INCR_SQL`: never out of deleted-failed or deleting. -/
def incrRef (now : Int) (id : Nat) : StoreTx Bool :=
  modifyMedia id (fun row => !row.inStates [.deletedFailed, .deleting]) (·.incremented now)

/-- The new values of `REFCOUNT_DECR_SQL`. -/
def MediaObjectRow.decremented (now : Int) (row : MediaObjectRow) : MediaObjectRow :=
  { row with refCount := row.refCount - 1, updatedAt := now }

/-- `REFCOUNT_DECR_SQL`, which returns the row as it is after. -/
def decrRef (now : Int) (id : Nat) : StoreTx (Option MediaObjectRow) := do
  let hit ← modifyMedia id (fun row => 0 < row.refCount) (·.decremented now)
  let s ← Tx.get
  pure (if hit then s.findMedia id else none)

/-- `UPDATE_RECONCILE_REF_COUNT_SQL`: a compare-and-set on the count read by the scan. -/
def reconcileRefCount (now : Int) (id expectedRef actualRef : Nat) : StoreTx Bool :=
  modifyMedia id (fun row => row.refCount = expectedRef && row.inStates [.active, .orphan])
    fun row => { row with refCount := actualRef, updatedAt := now }

/-- `lock_and_incr_ref_tx`. -/
def lockAndIncrRef (now : Int) (id : Nat) : StoreTx Unit := do
  let s ← Tx.get
  Tx.ensure (s.findMedia id).isSome (.invalidArgument s!"media_object not found: {id}")
  let hit ← incrRef now id
  Tx.ensure hit (.invalidArgument (s!"media_object {id} not found, pending GC recovery (deleted-failed), " ++
    "or being deleted; retry after cleanup or re-upload the bytes"))

/-- `decr_and_maybe_claim`: at 0, in {active, orphan}, the row is claimed for
deletion, and the caller is to finish it after the commit. -/
def decrAndMaybeClaim (now : Int) (id : Nat) : StoreTx (Option (Nat × MediaObjectRow)) := do
  let decremented ← decrRef now id
  match decremented with
  | none => do
    let s ← Tx.get
    -- A pointer to a row that is gone does not block the delete.
    Tx.ensure (s.findMedia id).isNone (.refCountUnderflow id)
    pure none
  | some row =>
    if row.unreferenced && row.inStates [.active, .orphan] then do
      let claimed ← claimDeleting now id
      let s ← Tx.get
      match claimed, s.findMedia id with
      | false, _ => pure none
      | true, none => Tx.fail (.vanishedAfterClaim id)
      | true, some claimedRow => pure (some (id, claimedRow))
    else pure none

/-- Link the media object a new memory names, if it names one. -/
def linkMedia (now : Int) : Option Nat → StoreTx Unit
  | none => pure ()
  | some mid => lockAndIncrRef now mid

/-- Unlink the media object a memory named, if it named one. -/
def unlinkMedia (now : Int) : Option Nat → StoreTx (Option (Nat × MediaObjectRow))
  | none => pure none
  | some mid => decrAndMaybeClaim now mid

/-! ## The scans of the deferred cleanup -/

/-- `SELECT_ORPHAN_RESERVATION_SQL`. -/
def Store.listOrphanReservations (s : Store) (before : Int) : List MediaObjectRow :=
  s.mediaObjects.filter fun row =>
    row.gcState = .orphan && row.storageUri.isNone && row.unreferenced && row.createdAt < before

/-- `SELECT_PROMOTING_STALE_SQL`. -/
def Store.listPromotingStale (s : Store) (before : Int) : List MediaObjectRow :=
  s.mediaObjects.filter fun row => row.gcState = .promoting && row.storageUri.isNone && row.updatedAt < before

/-- `SELECT_DELETING_STALE_SQL`. -/
def Store.listDeletingStale (s : Store) (before : Int) : List MediaObjectRow :=
  s.mediaObjects.filter fun row => row.gcState = .deleting && row.storageUri.isSome && row.updatedAt < before

/-- `SELECT_CONFIRMED_ORPHANS_SQL`. -/
def Store.listConfirmedOrphans (s : Store) (before : Int) : List MediaObjectRow :=
  s.mediaObjects.filter fun row => row.gcState = .orphan && row.storageUri.isSome && row.createdAt < before

/-- `SELECT_DELETED_FAILED_CONFIRMED_SQL`. -/
def Store.listDeletedFailedConfirmed (s : Store) : List MediaObjectRow :=
  s.mediaObjects.filter fun row => row.gcState = .deletedFailed && row.storageUri.isSome

/-- A row of `SELECT_REF_COUNT_DESYNC_SQL`. -/
structure RefCountDesync where
  id : Nat
  dbRefCount : Nat
  actualRefCount : Nat
  gcState : GcState
  deriving DecidableEq, Repr

/-- `SELECT_REF_COUNT_DESYNC_SQL`: the confirmed rows whose count is off. -/
def Store.listRefCountDesync (s : Store) : List RefCountDesync :=
  (s.mediaObjects.filter fun row => row.storageUri.isSome && row.refCount ≠ s.actualRefCount row.id).map fun row =>
    ⟨row.id, row.refCount, s.actualRefCount row.id, row.gcState⟩

end MemoryStore.Conversation
