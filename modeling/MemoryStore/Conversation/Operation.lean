/-
The calls that write memories and threads, each as one transaction, and what
the process does once the transaction has committed: the media rows it goes on
to delete, and the cache entries it drops.
-/
import MemoryStore.Conversation.Batch

namespace MemoryStore.Conversation

/-- A key of either read cache: `memory_id:…` or `thread_id:…`. -/
inductive CacheKey where
  | memoryId (id : Nat)
  | threadId (id : Nat)
  deriving DecidableEq, Repr

/-- What is done after the commit: the media to finish deleting, and the keys
removed from the memory cache and from the thread cache. -/
structure Effects where
  postDelete : List DeleteJob
  memoryCache : List CacheKey
  threadCache : List CacheKey
  deriving DecidableEq, Repr

def Effects.none : Effects := ⟨[], [], []⟩

/-- The writing calls, with what the thread groups answer to them. -/
inductive Operation where
  | createMemory (groups : GroupAnswers) (memory : MemoryData)
  | updateMemory (groups : GroupAnswers) (id : Nat) (memory : Option MemoryData)
  | updateContentNoDispatch (id : Nat) (content : String)
  | writeBackCaption (id mediaObjectId : Nat) (caption : String)
  | deleteMemory (id : Nat)
  /-- The memories deleted by the purge of a group, or by the orphan cleanup. -/
  | deleteLinkedMemories (ids : List Nat)
  | createThread (thread : ThreadData)
  | updateThread (id : Nat) (thread : Option ThreadData)
  /-- One thread, or a thread with the live threads below it. -/
  | deleteThreads (ids : List Nat)
  | updateMemoryParentIdsWithGuards (threadId memoryId : Nat) (newParentIds : List Nat)
      (forceOverwriteWhenShared forceOverwriteWhenNonEmpty : Bool)
  | addMemory (groups : GroupAnswers) (threadId : Nat) (memory : MemoryData)
  | addMemoriesBatch (answers : ImportAnswers) (input : AddMemoriesBatchInput)

/-- `finish_memory_deletion`. -/
def MemoryDeletion.effects (id : Nat) (effects : MemoryDeletion) : Effects :=
  if effects.deleted then
    ⟨effects.postDelete.toList, [.memoryId id], effects.affectedThreadIds.map .threadId⟩
  else .none

/-- `finish_delete_post_commit`. -/
def DeleteThreadTxOutcome.effects (id : Nat) (outcome : DeleteThreadTxOutcome) : Effects :=
  ⟨outcome.postDelete, outcome.allMemoryIds.map .memoryId, [.threadId id]⟩

/-- One after the other. -/
def Effects.all (effects : List Effects) : Effects :=
  ⟨effects.flatMap Effects.postDelete, effects.flatMap Effects.memoryCache, effects.flatMap Effects.threadCache⟩

/-- The transaction of a call, with what follows its commit. -/
def Operation.tx [Deployment] (now : Int) : Operation → StoreTx Effects
  | createMemory groups memory => do
    let _ ← Conversation.createMemory now groups memory
    pure .none
  | updateMemory groups id memory => do
    let outcome ← Conversation.updateMemory now groups id memory
    pure (if outcome.updated then ⟨outcome.postDelete, [.memoryId id], []⟩ else .none)
  | updateContentNoDispatch id content => do
    let _ ← Conversation.updateContentNoDispatch now id content
    pure ⟨[], [.memoryId id], []⟩
  | writeBackCaption id mediaObjectId caption => do
    let outcome ← Conversation.writeBackCaption now id mediaObjectId caption
    pure (if outcome = .applied then ⟨[], [.memoryId id], []⟩ else .none)
  | deleteMemory id => do
    let effects ← deleteMemoryRdb now id
    pure (effects.effects id)
  | deleteLinkedMemories ids => do
    let deletions ← Conversation.deleteLinkedMemories now ids
    pure (.all (deletions.map fun (id, effects) => effects.effects id))
  | createThread thread => do
    let _ ← Conversation.createThread now thread
    pure .none
  | updateThread id thread => do
    let outcome ← Conversation.updateThread now id thread
    pure (if outcome.changed then ⟨[], [], [.threadId id]⟩ else .none)
  | deleteThreads ids => do
    let outcomes ← Conversation.deleteThreads now ids
    pure (.all (outcomes.map fun (id, outcome) => outcome.effects id))
  | updateMemoryParentIdsWithGuards threadId memoryId newParentIds whenShared whenNonEmpty => do
    let outcome ←
      Conversation.updateMemoryParentIdsWithGuards now threadId memoryId newParentIds whenShared whenNonEmpty
    -- The key of the memory is removed from `self.cache()`, which is the thread cache.
    pure (if outcome = .rewired then ⟨[], [], [.memoryId memoryId, .threadId threadId]⟩ else .none)
  | addMemory groups threadId memory => do
    let _ ← Conversation.addMemory now groups threadId memory
    pure ⟨[], [], [.threadId threadId]⟩
  | addMemoriesBatch answers input => do
    let output ← Conversation.addMemoriesBatch now answers input
    pure (if output.suppressed then .none
      else ⟨[], output.overwrittenMemoryIds.map .memoryId, [.threadId output.threadId]⟩)

end MemoryStore.Conversation
