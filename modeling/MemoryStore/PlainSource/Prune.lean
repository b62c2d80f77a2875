/-
`--prune-missing`: after an import, the memories of the same source and creator
that the run did not emit are compared with the tree and deleted.
-/
import MemoryStore.PlainSource.Import

namespace MemoryStore.PlainSource

/-! ## The server -/

structure ServerMemory where
  id : ℕ
  externalId : Option Text
  metadata : Option Text
  /-- `ROLE_SYSTEM`, which has no representative thread. -/
  system : Bool
  threadIds : List ℕ
  deriving DecidableEq

structure Server where
  memories : List ServerMemory
  threads : List ℕ
  ids : (memories.map ServerMemory.id).Nodup

structure MemoryListEntry where
  memory : ServerMemory
  threadId : Option ℕ

namespace Server

/-- The smallest thread a memory is attached to. -/
def representativeThread (s : Server) (m : ServerMemory) : Option ℕ :=
  if m.system then none else m.threadIds.min?.filter (· ∈ s.threads)

def findMemoriesByExternalIdPrefix (s : Server) (idPrefix : Text) : List MemoryListEntry :=
  (s.memories.filter fun m => m.externalId.any (idPrefix.isPrefixOf ·)).map fun m =>
    { memory := m, threadId := s.representativeThread m }

def deleteMemory (s : Server) (id : ℕ) : Server where
  memories := s.memories.filter (·.id ≠ id)
  threads := s.threads
  ids := s.ids.sublist (List.filter_sublist.map _)

def deleteThread (s : Server) (tid : ℕ) : Server := { s with threads := s.threads.filter (· ≠ tid) }

def countMemoriesInThread (s : Server) (tid : ℕ) : ℕ := (s.memories.filter (tid ∈ ·.threadIds)).length

end Server

/-- How a deletion RPC ends: it may take effect although its answer is an error. -/
inductive RpcEnd where
  | ok
  | failed
  | lost
  deriving DecidableEq

/-- How the RPCs of a prune end. -/
structure Rpc where
  deleteMemory : ℕ → RpcEnd
  countFails : ℕ → Bool
  deleteThread : ℕ → RpcEnd

/-! ## Candidates -/

structure PruneConfig where
  sourceName : Text
  userId : ℤ
  orphanThreads : Bool

structure PruneCandidate where
  memoryId : ℕ
  externalId : Text
  metadataPath : Option Text
  threadId : Option ℕ

structure PruneSummary where
  candidatesConsidered : ℕ := 0
  excludedPathMissing : ℕ := 0
  excludedStillOnFs : ℕ := 0
  memoriesDeleted : ℕ := 0
  threadsDeleted : ℕ := 0
  errors : ℕ := 0

section
variable (Y : Type) [Formats Y]

/-- The path a memory was stored with. -/
def ServerMemory.metadataPath (m : ServerMemory) : Option Text := m.metadata.bind (Formats.metadataPath Y)

def extractCandidate (entry : MemoryListEntry) : Option PruneCandidate :=
  entry.memory.externalId.map fun externalId =>
    { memoryId := entry.memory.id, externalId, metadataPath := entry.memory.metadataPath Y, threadId := entry.threadId }

end

structure FilterStats where
  excludedPathMissing : ℕ := 0
  excludedStillOnFs : ℕ := 0

/-- The candidates to delete: their path was imported again, or is not on the file system. -/
def filterCandidates (dPath : List (List Component)) (pathExistsOnFs : Text → Bool) :
    List PruneCandidate → List PruneCandidate × FilterStats
  | [] => ([], {})
  | cand :: rest =>
    let (out, stats) := filterCandidates dPath pathExistsOnFs rest
    match cand.metadataPath with
    | none => (out, { stats with excludedPathMissing := stats.excludedPathMissing + 1 })
    | some path =>
      if pathOf path ∈ dPath then (cand :: out, stats)
      else if pathExistsOnFs path then (out, { stats with excludedStillOnFs := stats.excludedStillOnFs + 1 })
      else (cand :: out, stats)

/-! ## Execution -/

inductive Confirm where
  | proceed
  | aborted
  | notTtyWithoutNoInteractive

inductive PruneSkipReason where
  | importHadErrors
  | noInteractiveRequired
  | nothingToPrune
  | userAborted

inductive PruneOutcome where
  | skipped (reason : PruneSkipReason)
  | ran (summary : PruneSummary)

/-- A prune under way. -/
structure PruneProgress where
  server : Server
  touchedThreads : List ℕ
  stats : PruneSummary

def deleteCandidate (rpc : Rpc) (p : PruneProgress) (cand : PruneCandidate) : PruneProgress :=
  let counted := { p.stats with errors := p.stats.errors + 1 }
  match rpc.deleteMemory cand.memoryId with
  | .ok =>
    { server := p.server.deleteMemory cand.memoryId
      touchedThreads := match cand.threadId with
        | some tid => if tid ∈ p.touchedThreads then p.touchedThreads else p.touchedThreads ++ [tid]
        | none => p.touchedThreads
      stats := { p.stats with memoriesDeleted := p.stats.memoriesDeleted + 1 } }
  | .failed => { p with stats := counted }
  | .lost => { p with server := p.server.deleteMemory cand.memoryId, stats := counted }

/-- A thread that lost a memory goes when it holds none. -/
def deleteOrphanThread (rpc : Rpc) (p : PruneProgress) (tid : ℕ) : PruneProgress :=
  let counted := { p.stats with errors := p.stats.errors + 1 }
  if rpc.countFails tid then { p with stats := counted }
  else if p.server.countMemoriesInThread tid = 0 then
    match rpc.deleteThread tid with
    | .ok => { p with server := p.server.deleteThread tid
                      stats := { p.stats with threadsDeleted := p.stats.threadsDeleted + 1 } }
    | .failed => { p with stats := counted }
    | .lost => { p with server := p.server.deleteThread tid, stats := counted }
  else p

def executePruneWithConfirm (rpc : Rpc) (cfg : PruneConfig) (confirm : List PruneCandidate → Confirm)
    (finalCandidates : List PruneCandidate) (stats : PruneSummary) (s : Server) : PruneOutcome × Server :=
  if finalCandidates.isEmpty then (.skipped .nothingToPrune, s)
  else match confirm finalCandidates with
    | .aborted => (.skipped .userAborted, s)
    | .notTtyWithoutNoInteractive => (.skipped .noInteractiveRequired, s)
    | .proceed =>
      let p := finalCandidates.foldl (deleteCandidate rpc) { server := s, touchedThreads := [], stats }
      let p := if cfg.orphanThreads then p.touchedThreads.foldl (deleteOrphanThread rpc) p else p
      (.ran p.stats, p.server)

section
variable (Y : Type) [Formats Y]

/-- `<source-name>:<creator>:` -/
def PruneConfig.creatorPrefix (cfg : PruneConfig) : Text := cfg.sourceName ++ ':' :: decimal cfg.userId ++ [':']

/-- `run_prune_for_plain`, over what the import collected; none where the program panics. -/
def runPruneForPlain (v : Vault) (elsewhere : Bytes → Bool) (rpc : Rpc) (cfg : PruneConfig)
    (confirm : List PruneCandidate → Confirm) (collected : List CanonicalEntry) (s : Server) :
    Option (PruneOutcome × Server) := do
  let serverMemories := s.findMemoriesByExternalIdPrefix cfg.creatorPrefix
  let dExternalId ← (collected.map CanonicalEntry.externalId).mapM (namespaceExternalId cfg.sourceName cfg.userId)
  let mPrime := (serverMemories.filterMap (extractCandidate Y)).filter fun c => c.externalId ∉ dExternalId
  let (m, filterStats) := filterCandidates (collected.map fun e => pathOf e.path) (v.fsPathExists elsewhere) mPrime
  pure (executePruneWithConfirm rpc cfg confirm m
    { candidatesConsidered := mPrime.length, excludedPathMissing := filterStats.excludedPathMissing,
      excludedStillOnFs := filterStats.excludedStillOnFs } s)

/-- The prune is gated on an import without session error. -/
def pruneAfterImport (v : Vault) (elsewhere : Bytes → Bool) (rpc : Rpc) (cfg : PruneConfig)
    (confirm : List PruneCandidate → Confirm) (run : ImportRun) (s : Server) : Option (PruneOutcome × Server) :=
  if run.errors > 0 then some (.skipped .importHadErrors, s)
  else runPruneForPlain Y v elsewhere rpc cfg confirm run.collected s

end

end MemoryStore.PlainSource
