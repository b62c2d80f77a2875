/-
The media protocol: the calls on memories and threads, each one transaction, and
any number of media operations and cleanup tasks, one step of one of them at a
time, in any order. A crash drops a task where it is.

A cleanup goes through the rows of its scan one by one; here each row it has
read is a task of its own, which may take its steps at any later time.
-/
import MemoryStore.Lib.Run
import MemoryStore.Media.Task

namespace MemoryStore.Media

open Conversation

structure System where
  store : Store
  objects : Objects
  tasks : List Task

/-- A fresh deployment. -/
def System.new : System := ⟨.empty, [], []⟩

/-! ## The cleanup -/

/-- The scans of a cleanup that hand rows of `media_object` to it. -/
inductive Sweep where
  | confirmedOrphans | reservations | promoting | deleting | deletedFailed
  deriving DecidableEq, Repr

/-- The scan. -/
def Sweep.rows (before : Int) (s : Store) : Sweep → List MediaObjectRow
  | confirmedOrphans => s.listConfirmedOrphans before
  | reservations => s.listOrphanReservations before
  | promoting => s.listPromotingStale before
  | deleting => s.listDeletingStale before
  | deletedFailed => s.listDeletedFailedConfirmed

/-- What is done with a row of the scan. -/
def Sweep.task (row : MediaObjectRow) : Sweep → Task
  | confirmedOrphans => .claimThenFinish row
  | reservations => reservationRecoveryPlan row
  | promoting => promotingRecoveryPlan row
  | deleting => .revertDeleting row
  | deletedFailed => .reclaimFailed row

/-- The scans that take the residue of a crash by its age. -/
def Sweep.byAge : Sweep → Bool
  | reservations | promoting | deleting => true
  | confirmedOrphans | deletedFailed => false

/-- No task works on the row. -/
def System.quiet (σ : System) (mediaId : Nat) : Bool := σ.tasks.all fun task => task.worksOn ≠ some mediaId

/-- The grace period is longer than any operation takes: a row it is over for
is one no task works on. -/
def System.sweeps (σ : System) (scan : Sweep) (before : Int) (row : MediaObjectRow) : Bool :=
  row ∈ scan.rows before σ.store && (!scan.byAge || σ.quiet row.id)

/-! ## Actions -/

inductive Action where
  /-- A call on memories or threads: its transaction, and what it finishes deleting after. -/
  | call (now : Int) (op : Operation)
  /-- A client uploads a content. -/
  | upload (header : UploadHeaderMeta) (sha256 : Sha256Hex) (byteCount : Nat)
  /-- A client puts an object into storage itself, to register it. -/
  | putExternally (now : Int) (key : String) (byteSize : Nat)
  | register (p : RegisterParams)
  | delete (mediaId : Nat)
  /-- The attachment migration inserts a placeholder for a content it has no bytes of. -/
  | insertUnresolvable (now : Int) (header : MediaHeader) (sha256 : Sha256Hex)
  /-- A cleanup reads a row it is to reclaim. -/
  | sweep (scan : Sweep) (before : Int) (row : MediaObjectRow)
  | sweepRefCountDesync (d : RefCountDesync)
  | sweepTempResidue (now : Int) (graceSec : Nat) (key : String)
  /-- A task takes its next step. -/
  | step (i : Nat) (now : Int) (outcome : Outcome)
  | crash (i : Nat)

/-- `insert_unresolvable_tx`. -/
def insertUnresolvable (now : Int) (header : MediaHeader) (sha256 : Sha256Hex) : StoreTx Unit := do
  let mediaId ← generateId
  let s ← Tx.get
  if (s.findMediaBySha256 sha256.value).isSome then pure ()
  else Tx.writes (·.insertMedia (header.row now mediaId (some sha256.value) .unresolvable none .unresolvable))

/-- Take up what a step leads to, with the other tasks where they were. -/
def System.become (tasks : List Task) (stepped : Stepped) : System := ⟨stepped.1, stepped.2.1, tasks ++ stepped.2.2⟩

/-- The system after an action; one that is not possible changes nothing. -/
def Action.exec [Deployment] [MediaConfig] (σ : System) : Action → System
  | call now op =>
    .become σ.tasks (transact σ.store σ.objects (op.tx now) fun eff =>
      eff.postDelete.map fun (mediaId, row) => finishDelete mediaId row)
  | upload header sha256 byteCount =>
    .become σ.tasks (transact σ.store σ.objects generateId fun uploadId =>
      [.putTemp ⟨tempKey MediaConfig.s3Prefix uploadId, header, sha256, byteCount⟩])
  | putExternally now key byteSize => { σ with objects := σ.objects.put key ⟨byteSize, now⟩ }
  | register p => { σ with tasks := σ.tasks ++ registerTask p }
  | delete mediaId => { σ with tasks := σ.tasks ++ [.readForDelete mediaId] }
  | insertUnresolvable now header sha256 =>
    .become σ.tasks (transact σ.store σ.objects (Media.insertUnresolvable now header sha256) fun _ => [])
  | sweep scan before row =>
    if σ.sweeps scan before row then { σ with tasks := σ.tasks ++ [scan.task row] } else σ
  | sweepRefCountDesync d =>
    if d ∈ σ.store.listRefCountDesync then { σ with tasks := σ.tasks ++ desyncAction d } else σ
  | sweepTempResidue now graceSec key =>
    if key ∈ σ.objects.tempOlderThan MediaConfig.s3Prefix now graceSec then
      { σ with tasks := σ.tasks ++ [.deleteTemp key] }
    else σ
  | step i now outcome =>
    match σ.tasks[i]? with
    | none => σ
    | some task => .become (σ.tasks.eraseIdx i) (task.step now outcome σ.store σ.objects)
  | crash i => { σ with tasks := σ.tasks.eraseIdx i }

/-- The actions, as `Run` takes them. -/
def exec [Deployment] [MediaConfig] (a : Action) (σ : System) : System := a.exec σ

/-- The systems a run of actions leads to. -/
def Reachable [Deployment] [MediaConfig] (σ : System) : Prop := Run.Reaches exec Run.anyAction .new σ

end MemoryStore.Media
