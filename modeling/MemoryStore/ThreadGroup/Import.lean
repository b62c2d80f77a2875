/-
The thread operations that touch ThreadGroup tables (`app/src/app/thread.rs`):
creating a thread, importing a batch (the suppression gate, the revival of a
placeholder and the identity mapping), and deleting threads under a policy.

The messages of a batch and of a deleted thread are another subsystem and are
left out; a batch whose content is refused rolls everything back.
-/
import MemoryStore.ThreadGroup.Observation

namespace MemoryStore.ThreadGroup

/-- `create` of the thread repository. -/
def insertThread (userId : Int) (channel : Option String) : StoreTx Nat := do
  let id ← generateId
  Tx.writes fun s => { s with threads := s.threads ++ [⟨id, userId, channel⟩] }
  pure id

/-- `create_thread`; the random key is given. -/
def createThread (userId : Int) (channel : Option String) (randomKey : Key) : StoreTx Nat := do
  let threadId ← insertThread userId channel
  assignKey threadId userId randomKey .creationUuid
  pure threadId

/-! ## `delete_thread_with_policy` -/

/-- The children of one popped parent: new keys go on the queue and the target list. -/
def pushChildren : List RelationRow → List Key → List Key → List Key × List Key
  | [], queue, targetKeys => (queue, targetKeys)
  | relation :: relations, queue, targetKeys =>
    let childKey := relation.childThreadCanonicalKey
    if childKey ∈ targetKeys then pushChildren relations queue targetKeys
    else pushChildren relations (childKey :: queue) (targetKeys ++ [childKey])

/-- The closure of a recursive delete over the active relations. -/
def Store.descendantKeys (s : Store) : Nat → List Key → List Key → List Key
  | 0, _, targetKeys => targetKeys
  | _, [], targetKeys => targetKeys
  | steps + 1, parentKey :: queue, targetKeys =>
    let (queue, targetKeys) := pushChildren (s.listActiveByParent parentKey) queue targetKeys
    s.descendantKeys steps queue targetKeys

/-- The threads a delete names: those that hold the keys of the closure now, and the root. -/
def Store.deleteTargets (s : Store) (rootThreadId : Nat) (recursive : Bool) : List Nat :=
  match s.findKeyByThreadId rootThreadId with
  | none => [rootThreadId]
  | some rootKey =>
    let targetKeys :=
      if recursive then s.descendantKeys (s.relations.length + 1) [rootKey.key] [rootKey.key]
      else [rootKey.key]
    let resolved := ((targetKeys.filterMap s.findByKey).map ThreadCanonicalKeyRow.threadId).eraseDups
    if rootThreadId ∈ resolved then resolved else resolved ++ [rootThreadId]

/-- `delete_thread_in_tx`: the thread row, and the endpoints that name it. -/
def deleteThreadInTx (threadId : Nat) : StoreTx Unit := do
  Tx.writes fun s => { s with threads := s.threads.filter (fun row => row.id ≠ threadId) }
  detachParentThreadId threadId
  detachChildThreadId threadId

/-- The deletion of one target, with the key and the identities read before the loop. -/
def deleteTarget (forbidReimport : Bool) (now : Int) (canonicalKey : Option Key)
    (identities : List SourceThreadIdentityRow) (threadId : Nat) : StoreTx Unit := do
  deleteThreadInTx threadId
  match canonicalKey with
  | some key => markCurrentDeleted key now
  | none => pure ()
  Tx.forEach identities fun row => do
    putMarker ⟨row.identity, forbidReimport, canonicalKey⟩
    deleteIdentity row.identity
  deleteKey threadId

/-- The transaction of `delete_thread_with_policy` over the targets read before it. -/
def deleteThreadsTx (targets : List Nat) (forbidReimport : Bool) (now : Int) : StoreTx Unit := do
  let s ← Tx.get
  Tx.forEach targets fun threadId =>
    deleteTarget forbidReimport now ((s.findKeyByThreadId threadId).map ThreadCanonicalKeyRow.key)
      (s.listIdentitiesByThreadId threadId) threadId

/-- `delete_thread_with_policy`. -/
def deleteThreadWithPolicy (rootThreadId : Nat) (recursive forbidReimport : Bool) (now : Int) :
    StoreTx (List Nat) := do
  let s ← Tx.get
  let targets := s.deleteTargets rootThreadId recursive
  deleteThreadsTx targets forbidReimport now
  pure targets

/-! ## `add_memories_batch` -/

/-- `BatchThreadTarget`. -/
inductive BatchThreadTarget where
  | existingThreadId (threadId : Nat)
  | upsertByChannel (userId : Int) (channel : String)
  deriving DecidableEq, Repr

structure AddMemoriesBatchOutput where
  threadId : Nat
  threadCreated : Bool
  suppressed : Bool
  deriving DecidableEq, Repr

/-- An identity that is already mapped is not imported into another thread. -/
def ensureMappedTo (mappedThreadId : Option Nat) (threadId : Nat) (refusing : String) : StoreTx Unit :=
  match mappedThreadId with
  | none => pure ()
  | some mapped =>
    Tx.ensure (mapped = threadId) (.bail s!"source identity already maps to Thread {mapped}; refusing {refusing}")

/-- The thread a batch goes to, and its owner. -/
def resolveBatchThread (target : BatchThreadTarget) (mappedThreadId : Option Nat) :
    StoreTx (Nat × Bool × Int) := do
  let s ← Tx.get
  match target with
  | .existingThreadId threadId =>
    match s.findThread threadId with
    | none => Tx.fail (.bail s!"thread not found: {threadId}")
    | some row => do
      ensureMappedTo mappedThreadId threadId s!"target Thread {threadId}"
      pure (threadId, false, row.userId)
  | .upsertByChannel userId channel => do
    Tx.ensure (userId ≠ 0) (.bail "thread_data.user_id must be non-zero")
    Tx.ensure (channel ≠ "") (.bail "thread_data.channel is required for upsert")
    match s.findByChannelAndUserId channel userId with
    | [] =>
      match mappedThreadId with
      | some mapped =>
        Tx.fail (.bail
          s!"source identity already maps to Thread {mapped}; refusing to create a new channel target Thread")
      | none => do
        let threadId ← insertThread userId (some channel)
        pure (threadId, true, userId)
    | [row] => do
      ensureMappedTo mappedThreadId row.id s!"channel target Thread {row.id}"
      pure (row.id, false, row.userId)
    | _ => Tx.fail (.bail s!"multiple threads for channel ({channel}, user {userId})")

/-- Attach the thread to the placeholder of its key, and reconnect the relation
endpoints a delete had nulled. -/
def reviveKey (canonicalKey : Key) (threadId : Nat) (identity : SourceIdentityKey) : StoreTx Unit := do
  let s ← Tx.get
  if (s.findKeyByThreadId threadId).isNone then
    assignKey threadId identity.userId canonicalKey .sourceIdentity
  else pure ()
  reviveCurrent canonicalKey threadId
  reconnectParentThreadId canonicalKey threadId
  reconnectChildThreadId canonicalKey threadId

variable [KeyHash]

/-- The revival section: the key the thread has, or the marker kept, or the identity's own. -/
def reviveIdentity (threadId : Nat) (identity : SourceIdentityKey) (markerCanonicalKey : Option Key) :
    StoreTx Unit := do
  let s ← Tx.get
  let assignedKey := (s.findKeyByThreadId threadId).map ThreadCanonicalKeyRow.key
  reviveKey ((assignedKey.or markerCanonicalKey).getD identity.canonicalKey) threadId identity
  upsertResolved identity threadId

/-- `add_memories_batch`, as far as the ThreadGroup tables go. -/
def addMemoriesBatch (target : BatchThreadTarget) (sourceIdentity : Option SourceIdentity)
    (explicitOverride : Bool) : StoreTx AddMemoriesBatchOutput := do
  let s ← Tx.get
  let markerKey := sourceIdentity.bind SourceIdentity.key?
  let marker := markerKey.bind s.findMarker
  if decideSuppression (marker.map ThreadDeletionMarkerRow.forbidReimport) explicitOverride = .suppress then
    pure ⟨0, false, true⟩
  else do
    let markerCanonicalKey := marker.bind ThreadDeletionMarkerRow.threadCanonicalKey
    let mappedThreadId := (markerKey.bind s.findResolved).map SourceThreadIdentityRow.threadId
    let (threadId, threadCreated, targetUserId) ← resolveBatchThread target mappedThreadId
    Tx.ensure (sourceIdentity.all (·.userId = targetUserId))
      (.bail s!"source identity owner does not match target thread owner {targetUserId}")
    Tx.ensure (markerCanonicalKey.all fun key => (s.findKeyByThreadId threadId).all (·.key = key))
      (.bail "deletion marker canonical key does not match the selected target Thread canonical key")
    match markerKey with
    | none => pure ⟨threadId, threadCreated, false⟩
    | some identity => do
      if marker.isSome then consumeMarker identity else pure ()
      reviveIdentity threadId identity markerCanonicalKey
      pure ⟨threadId, threadCreated, false⟩

end MemoryStore.ThreadGroup
