/-
Reflections as a system: calls of finalize in flight, deletions of reflections
(`crud.rs`, `delete`), rebuilds of the derived statistics (`aggregate.rs`,
`rebuild_derived_stats`), and the deletions of memories and threads by the rest
of the server, one step or transaction at a time.

Two ledgers record what the tables forget: which request each reflection was
inserted for, and what the reflections deleted since the last rebuild had
contributed to each table of statistics.
-/
import MemoryStore.Lib.Run
import MemoryStore.Reflection.Finalize
import MemoryStore.Conversation.Thread

namespace MemoryStore.Reflection

/-! ## Deletion of a reflection -/

/-- The transaction of `delete`, after the guard has found a sidecar row. -/
def deleteReflection [Settings] (now : Int) (memoryId : Nat) : ReflectionTx Unit := do
  let s ← Tx.get
  let affected := (s.conversation.threadIdsByMemory memoryId).dedup
  Tx.ensure (!Settings.postgres || affected.all fun threadId => (s.conversation.findThread threadId).isSome)
    (.notFound "thread not found")
  Tx.writes (·.deleteChildren memoryId)
  Tx.writes (·.deleteIndex memoryId)
  onConversation (Conversation.deleteAttachmentsByMemory memoryId)
  onConversation (Conversation.refreshMessageBoundsForThreadIds now affected)
  let deleted ← onConversation (Conversation.deleteMemoryRow memoryId)
  Tx.ensure deleted (.notFound s!"reflection {memoryId} not found")

/-! ## The system -/

/-- A reflection inserted, and what it was asked for. -/
structure Inserted where
  memoryId : Nat
  originThreadId : Nat
  promptVersion : String
  reflectorId : String
  deriving DecidableEq, Repr

structure System where
  store : Store
  calls : List Call
  /-- The deletions whose guard has passed. -/
  deleting : List Nat
  /-- Every reflection inserted, with the request it was inserted for. -/
  inserted : List Inserted
  /-- The reflections deleted. -/
  deleted : List Nat
  /-- What deleted reflections had contributed to `tool_outcome_stats` since their user's last rebuild of it. -/
  droppedOutcomes : List ToolOutcomeKey
  /-- What deleted reflections had contributed to `tool_contribution_stats`, likewise. -/
  droppedContributions : List ToolContributionKey

/-- No call yet, over some database. -/
def System.start (store : Store) : System := ⟨store, [], [], [], [], [], []⟩

/-- What a request asks for, as an entry of the ledger. -/
def ValidRequest.inserted (req : ValidRequest) (memoryId : Nat) : Inserted :=
  ⟨memoryId, req.originThreadId, req.promptVersion, req.reflectorId⟩

/-- The rows of a reflection, joined with its sidecar. -/
def Store.toolOutcomesOf (s : Store) (memoryId : Nat) : List ToolOutcomeKey :=
  (joined ToolRow.memoryId toolOutcomeKey (s.index.filter fun tri => tri.memoryId = memoryId) s.tools).map Prod.fst

def Store.toolContributionsOf (s : Store) (memoryId : Nat) : List ToolContributionKey :=
  (joined ToolOutcomeRow.memoryId toolContributionKey (s.index.filter fun tri => tri.memoryId = memoryId)
    s.toolOutcomes).map Prod.fst

/-- The transactions of the rest of the server that delete memories or threads. -/
inductive Removal where
  | deleteMemory (id : Nat)
  /-- One thread, or a thread with the live threads below it. -/
  | deleteThreads (ids : List Nat)
  /-- The memories deleted by the purge of a group, or by the orphan cleanup. -/
  | deleteLinkedMemories (ids : List Nat)
  deriving DecidableEq, Repr

/-- The transaction of a removal. -/
def Removal.tx (now : Int) : Removal → Conversation.StoreTx Unit
  | deleteMemory id => do
    let _ ← Conversation.deleteMemoryRdb now id
    pure ()
  | deleteThreads ids => do
    let _ ← Conversation.deleteThreads now ids
    pure ()
  | deleteLinkedMemories ids => do
    let _ ← Conversation.deleteLinkedMemories now ids
    pure ()

inductive Action where
  /-- A call of `finalize` comes in. -/
  | call (req : FinalizeReflectionRequest) (now : Int)
  /-- The next step of a call. -/
  | advance (i : Nat) (now : Int)
  /-- An attempt of phase 3 loses its position to another transaction. -/
  | collide (i : Nat)
  /-- A call ends without an answer: the process dies, or the database fails. -/
  | drop (i : Nat)
  /-- The guard of `delete`: it goes on only with a sidecar row. -/
  | guardDelete (memoryId : Nat)
  /-- The transaction of `delete`. -/
  | delete (memoryId : Nat) (now : Int)
  | rebuildToolOutcomeStats (originUserId : Option Int)
  | rebuildToolContributionStats (originUserId : Option Int)
  | remove (removal : Removal) (now : Int)

/-- Whether the external id of a request is free. -/
def Store.externalIdFree (s : Store) (req : ValidRequest) : Bool :=
  (s.conversation.findByExternalId req.externalId).isNone

/-- The next step of a call. A reflection it inserts is entered in the ledger. -/
def System.advance [Settings] (sys : System) (i : Nat) (call : Call) (now : Int) : System :=
  let next := call.advance now sys.store
  { sys with
      store := next.1
      calls := sys.calls.set i { call with stage := next.2 }
      inserted :=
        match call.stage, next.2 with
        | .ready _ _ _, .returned (.ok memoryId) => sys.inserted ++ [call.request.inserted memoryId]
        | _, _ => sys.inserted }

/-- The transaction of `delete`, with what it takes from the statistics' sources. -/
def System.delete [Settings] (sys : System) (memoryId : Nat) (now : Int) : System :=
  match deleteReflection now memoryId sys.store with
  | .ok (_, store) =>
    { sys with
        store
        deleted := sys.deleted ++ [memoryId]
        droppedOutcomes := sys.droppedOutcomes ++ sys.store.toolOutcomesOf memoryId
        droppedContributions := sys.droppedContributions ++ sys.store.toolContributionsOf memoryId }
  | .error _ => sys

/-- One step of the system. -/
def Action.exec [Settings] : Action → System → System
  | .call req now, sys =>
    match validateRequest req with
    | .ok request => { sys with calls := sys.calls ++ [⟨request, now, .validated⟩] }
    | .error _ => sys
  | .advance i now, sys =>
    match sys.calls[i]? with
    | some c => sys.advance i c now
    | none => sys
  | .collide i, sys =>
    match sys.calls[i]? with
    | some c =>
      if sys.store.externalIdFree c.request then
        { sys with calls := sys.calls.set i { c with stage := c.collide } }
      else sys
    | none => sys
  | .drop i, sys =>
    match sys.calls[i]? with
    | some c =>
      { sys with calls := sys.calls.set i { c with stage := .returned (.error (.bail "call abandoned")) } }
    | none => sys
  | .guardDelete memoryId, sys =>
    if (sys.store.findByMemoryId memoryId).isSome then { sys with deleting := sys.deleting ++ [memoryId] } else sys
  | .delete memoryId now, sys => if memoryId ∈ sys.deleting then sys.delete memoryId now else sys
  | .rebuildToolOutcomeStats user, sys =>
    { sys with
        store := sys.store.rebuildToolOutcomeStats user
        droppedOutcomes := sys.droppedOutcomes.filter fun k => !inScope user k.originUserId }
  | .rebuildToolContributionStats user, sys =>
    { sys with
        store := sys.store.rebuildToolContributionStats user
        droppedContributions := sys.droppedContributions.filter fun k => !inScope user k.originUserId }
  | .remove removal now, sys => { sys with store := (onConversation (removal.tx now)).commit sys.store }

/-- The system after a list of actions. -/
abbrev System.after [Settings] (sys : System) (actions : List Action) : System :=
  Run.execAll Action.exec actions sys

/-! ## A small deployment -/

namespace Scenario

/-- SQLite, with the default window. -/
def sqlite : Settings := ⟨false, none⟩

/-- User 7 has one thread, 1, labelled `work`. -/
def oneThread : Conversation.Store :=
  { nextId := 2
    memories := []
    threads := [⟨1, none, 7, none, none, none, none, 0, 0, none, none, none, 1⟩]
    threadMemories := []
    threadLabels := [⟨1, "work", 0⟩]
    mediaObjects := [] }

/-- A reflection on thread 1 that used `bash`. -/
def request (reflectorId : String) (toolOutcomes : List ToolOutcomeEntry) : FinalizeReflectionRequest :=
  { originThreadId := some 1
    parsedOutput := some
      { outcome := 1
        taskCategory := 1
        failureModes := [1]
        toolsUsed := ["bash", "", "bash"]
        toolOutcomes
        facts := []
        searchDocument := "Summary"
        metadata := "" }
    reflectorId
    promptVersion := "v1" }

/-- A call that runs to its end. Further steps of a call that has returned do nothing. -/
def finalize (i : Nat) (req : FinalizeReflectionRequest) (now : Int) : List Action :=
  .call req now :: List.replicate 5 (.advance i now)

end Scenario

end MemoryStore.Reflection
