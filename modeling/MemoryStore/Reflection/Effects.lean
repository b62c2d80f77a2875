/-
What the transactions on reflections do, each as a whole: which rows phase 3
adds, which rows a deletion takes away, and that both leave the rest alone.
-/
import MemoryStore.Reflection.System

namespace MemoryStore.Reflection

open Table
open Conversation (AppError)

/-! ## The child rows -/

/-- The tool outcome rows of a request. -/
def ValidRequest.outcomeRows (req : ValidRequest) (memoryId : Nat) : List ToolOutcomeRow :=
  req.toolOutcomes.map fun e => ⟨memoryId, e.tool, e.contribution, e.errorKind.getD ""⟩

/-- The keys a request counts in `tool_outcome_stats`. -/
def ValidRequest.outcomeKeys (req : ValidRequest) (originUserId : Int) : List ToolOutcomeKey :=
  req.namedTools.eraseDups.map fun tool => ⟨originUserId, tool, req.outcome⟩

/-- The keys a request counts in `tool_contribution_stats`. -/
def ValidRequest.contributionKeys (req : ValidRequest) (originUserId : Int) : List ToolContributionKey :=
  req.toolOutcomes.map (ToolOutcomeEntry.contributionKey originUserId)

/-- The store with the child rows and the statistics of a reflection. -/
def Store.withChildren (s : Store) (req : ValidRequest) (originUserId : Int) (memoryId : Nat) (now : Int) : Store :=
  { s with
      failureModes := insertAll id (req.modes.map (FailureModeRow.mk memoryId)) s.failureModes
      tools := insertAll id (req.namedTools.map (ToolRow.mk memoryId)) s.tools
      toolOutcomeStats := Counter.upsertAll now (req.outcomeKeys originUserId) s.toolOutcomeStats
      toolOutcomes := insertAll id (req.outcomeRows memoryId) s.toolOutcomes
      toolContributionStats := Counter.upsertAll now (req.contributionKeys originUserId) s.toolContributionStats
      facts := insertAll FactRow.key (req.facts.map (·.row memoryId)) s.facts }

theorem foldl_insertMode (memoryId : Nat) : ∀ (modes : List String) (s : Store),
    modes.foldl (fun s mode => s.insertMode memoryId mode) s =
      { s with failureModes := insertAll id (modes.map (FailureModeRow.mk memoryId)) s.failureModes }
  | [], _ => rfl
  | _ :: modes, _ => foldl_insertMode memoryId modes _

theorem foldl_insertTool (memoryId : Nat) : ∀ (tools : List String) (s : Store),
    tools.foldl (fun s tool => s.insertTool memoryId tool) s =
      { s with tools := insertAll id (tools.map (ToolRow.mk memoryId)) s.tools }
  | [], _ => rfl
  | _ :: tools, _ => foldl_insertTool memoryId tools _

theorem foldl_upsertToolOutcome (userId outcome now : Int) : ∀ (tools : List String) (s : Store),
    tools.foldl (fun s tool => s.upsertToolOutcome ⟨userId, tool, outcome⟩ now) s =
      { s with
          toolOutcomeStats :=
            Counter.upsertAll now (tools.map fun tool => ⟨userId, tool, outcome⟩) s.toolOutcomeStats }
  | [], _ => rfl
  | _ :: tools, _ => foldl_upsertToolOutcome userId outcome now tools _

theorem insertOutcomes_run (userId : Int) (memoryId : Nat) (now : Int) : ∀ (entries : List ToolOutcomeEntry) (s : Store),
    (Tx.forEach entries fun entry => do
      Tx.writes (·.insertOutcome memoryId entry.tool entry.contribution entry.errorKind)
      Tx.writes (·.upsertToolContribution (entry.contributionKey userId) now) : ReflectionTx Unit) s =
    .ok ((), { s with
      toolOutcomes :=
        insertAll id (entries.map fun e => ⟨memoryId, e.tool, e.contribution, e.errorKind.getD ""⟩) s.toolOutcomes
      toolContributionStats :=
        Counter.upsertAll now (entries.map (ToolOutcomeEntry.contributionKey userId)) s.toolContributionStats })
  | [], _ => rfl
  | _ :: entries, _ => insertOutcomes_run userId memoryId now entries _

theorem foldl_insertFact (memoryId : Nat) : ∀ (facts : List AnchoredFact) (s : Store),
    facts.foldl (fun s fact => s.insertFact (fact.row memoryId)) s =
      { s with facts := insertAll FactRow.key (facts.map (·.row memoryId)) s.facts }
  | [], _ => rfl
  | _ :: facts, _ => foldl_insertFact memoryId facts _

theorem insertChildren_run (req : ValidRequest) (originUserId : Int) (memoryId : Nat) (now : Int) (s : Store) :
    insertChildren req originUserId memoryId now s = .ok ((), s.withChildren req originUserId memoryId now) := by
  unfold insertChildren
  simp only [Tx.bind_run, Tx.forEach_writes, foldl_insertMode, foldl_insertTool, foldl_upsertToolOutcome,
    insertOutcomes_run, foldl_insertFact]
  rfl

/-! ## Phase 3 -/

/-- Every id that names a memory or a thread has been drawn. -/
structure Store.Below (s : Store) : Prop where
  memories : ∀ row ∈ s.conversation.memories, row.id < s.conversation.nextId
  threads : ∀ row ∈ s.conversation.threads, row.id < s.conversation.nextId
  attachments : ∀ row ∈ s.conversation.threadMemories, row.memoryId < s.conversation.nextId
  index : ∀ row ∈ s.index, row.memoryId < s.conversation.nextId
  failureModes : ∀ row ∈ s.failureModes, row.memoryId < s.conversation.nextId
  tools : ∀ row ∈ s.tools, row.memoryId < s.conversation.nextId
  toolOutcomes : ∀ row ∈ s.toolOutcomes, row.memoryId < s.conversation.nextId
  facts : ∀ row ∈ s.facts, row.memoryId < s.conversation.nextId

/-- The tables of memories and threads with the memory of a reflection. -/
def withMemory (c : Conversation.Store) (data : Conversation.MemoryData) (threadId : Nat) (now : Int) :
    Conversation.Store :=
  let attached :=
    (({ c with nextId := c.nextId + 1 } : Conversation.Store).insertMemory c.nextId (data.inserted now)).attach now
      threadId c.nextId
  attached.setMessageBounds now threadId (attached.messageBounds threadId)

/-- The store with one more reflection. -/
def Store.reflected (s : Store) (req : ValidRequest) (p : PhaseOne) (aggregateThreadId : Nat) (calledAt now : Int) :
    Store :=
  { s with
      conversation := withMemory s.conversation (req.memoryData p calledAt) aggregateThreadId now
      index := s.index ++ [req.indexRow p aggregateThreadId s.conversation.nextId now] : Store }.withChildren req
    p.originUserId s.conversation.nextId now

theorem findAttachment_none {c : Conversation.Store} (h : ∀ row ∈ c.threadMemories, row.memoryId < c.nextId)
    (threadId : Nat) : c.findAttachment threadId c.nextId = none := by
  unfold Conversation.Store.findAttachment
  rw [List.find?_eq_none]
  intro row hrow
  have := h row hrow
  simp only [Prod.mk.injEq, decide_eq_true_eq, not_and]
  omega

theorem externalIdFree_iff {s : Store} {req : ValidRequest} :
    s.externalIdFree req = true ↔ ∀ row ∈ s.conversation.memories, row.data.externalId ≠ some req.externalId := by
  unfold Store.externalIdFree Conversation.Store.findByExternalId
  rw [Option.isNone_iff_eq_none, List.find?_eq_none]
  simp

theorem ensure_ok {σ : Type} {c : Bool} (h : c = true) (e : AppError) (s : σ) : Tx.ensure c e s = .ok ((), s) := by
  rw [h]
  rfl

theorem ensure_error {σ : Type} {c : Bool} (h : c = false) (e : AppError) (s : σ) : Tx.ensure c e s = .error e := by
  rw [h]
  rfl

theorem insertMemory_run (now : Int) (data : Conversation.MemoryData) (c : Conversation.Store) :
    Conversation.insertMemory now data c =
      (Tx.ensure (!c.memories.any fun row => data.externalId.isSome && row.data.externalId = data.externalId)
          (AppError.alreadyExists "memory.external_id already exists") >>= fun _ => do
        Tx.writes (·.insertMemory c.nextId (data.inserted now))
        pure c.nextId)
      ({ c with nextId := c.nextId + 1 } : Conversation.Store) := rfl

section Phase3

variable [Settings] {req : ValidRequest} {p : PhaseOne} {aggregateThreadId : Nat} {calledAt now : Int} {s : Store}

/-- **What phase 3 does**: it refuses a missing thread (with PostgreSQL) and an
external id that is taken, and else adds one reflection. -/
theorem runPhase3_eq (hs : s.Below) : runPhase3 req p aggregateThreadId calledAt now s =
    if (!Settings.postgres || (s.conversation.findThread aggregateThreadId).isSome) = false then
      .error (.notFound s!"aggregate thread {aggregateThreadId} not found")
    else if s.externalIdFree req then
      .ok (s.conversation.nextId, s.reflected req p aggregateThreadId calledAt now)
    else .error (.alreadyExists "memory.external_id already exists") := by
  have htaken : (!s.conversation.memories.any fun row =>
      (req.memoryData p calledAt).externalId.isSome &&
        decide (row.data.externalId = (req.memoryData p calledAt).externalId)) = s.externalIdFree req := by
    rw [Bool.eq_iff_iff, externalIdFree_iff, Bool.not_eq_true', List.any_eq_false]
    refine forall₂_congr fun row _ => ?_
    rw [show (req.memoryData p calledAt).externalId.isSome = true from rfl, Bool.true_and, decide_eq_true_eq]
    exact Iff.rfl
  unfold runPhase3
  by_cases hfound : (!Settings.postgres || (s.conversation.findThread aggregateThreadId).isSome) = false
  · rw [if_pos hfound, Tx.get_bind, Tx.bind_run, ensure_error hfound]
  rw [if_neg hfound, Tx.get_bind, Tx.bind_run, ensure_ok (Bool.eq_true_of_not_eq_false hfound)]
  simp only []
  by_cases hfree : s.externalIdFree req = true
  · rw [if_pos hfree]
    have hinsert : Conversation.insertMemory now (req.memoryData p calledAt) s.conversation =
        .ok (s.conversation.nextId, ({ s.conversation with nextId := s.conversation.nextId + 1 } :
          Conversation.Store).insertMemory s.conversation.nextId ((req.memoryData p calledAt).inserted now)) := by
      rw [insertMemory_run, Tx.bind_run, ensure_ok (htaken.trans hfree)]
      rfl
    have hattach : Conversation.insertAutoPosition now aggregateThreadId s.conversation.nextId
        (({ s.conversation with nextId := s.conversation.nextId + 1 } :
          Conversation.Store).insertMemory s.conversation.nextId ((req.memoryData p calledAt).inserted now)) =
        .ok ((), (({ s.conversation with nextId := s.conversation.nextId + 1 } :
          Conversation.Store).insertMemory s.conversation.nextId
            ((req.memoryData p calledAt).inserted now)).attach now aggregateThreadId s.conversation.nextId) := by
      have hnone : (({ s.conversation with nextId := s.conversation.nextId + 1 } :
          Conversation.Store).insertMemory s.conversation.nextId
            ((req.memoryData p calledAt).inserted now)).findAttachment aggregateThreadId s.conversation.nextId = none :=
        findAttachment_none hs.attachments aggregateThreadId
      unfold Conversation.insertAutoPosition
      rw [Tx.get_bind, Tx.bind_run, ensure_ok (by rw [hnone]; rfl)]
      rfl
    simp only [Tx.bind_run, onConversation, hinsert, hattach]
    simp only [Conversation.refreshMessageBounds, Tx.get, Tx.reads, Tx.writes, Tx.bind_run, Pure.pure,
      insertChildren_run]
    rfl
  · rw [if_neg hfree]
    have hinsert : Conversation.insertMemory now (req.memoryData p calledAt) s.conversation =
        .error (.alreadyExists "memory.external_id already exists") := by
      rw [insertMemory_run, Tx.bind_run, ensure_error (htaken.trans (Bool.eq_false_of_not_eq_true hfree))]
    simp only [Tx.bind_run, onConversation, hinsert]

end Phase3

/-! ## The rows that transactions leave alone -/

/-- What a refresh of its bounds leaves of a thread. -/
def identity (row : Conversation.ThreadRow) : Nat × Int × Option String × Int :=
  (row.id, row.userId, row.channel, row.memoryKind)

/-- Only the bounds of threads differ. -/
structure OnlyBounds (c c' : Conversation.Store) : Prop where
  nextId : c'.nextId = c.nextId
  memories : c'.memories = c.memories
  threads : c'.threads.map identity = c.threads.map identity
  threadMemories : c'.threadMemories = c.threadMemories
  threadLabels : c'.threadLabels = c.threadLabels

instance onlyBounds_refl : Std.Refl OnlyBounds := ⟨fun _ => ⟨rfl, rfl, rfl, rfl, rfl⟩⟩

instance onlyBounds_trans : IsTrans Conversation.Store OnlyBounds :=
  ⟨fun _ _ _ h h' => ⟨h'.nextId.trans h.nextId, h'.memories.trans h.memories, h'.threads.trans h.threads,
    h'.threadMemories.trans h.threadMemories, h'.threadLabels.trans h.threadLabels⟩⟩

theorem OnlyBounds.setMessageBounds (c : Conversation.Store) (now : Int) (id : Nat) (bounds : Option Int × Option Int) :
    OnlyBounds c (c.setMessageBounds now id bounds) :=
  ⟨rfl, rfl, map_modifyWhere (by intros; rfl) _, rfl, rfl⟩

theorem refreshMessageBounds_only (now : Int) (id : Nat) :
    Tx.Does OnlyBounds (fun _ => True) (Conversation.refreshMessageBounds now id) := by
  refine Tx.Does.get.bind fun s => ?_
  exact Tx.Does.bind (Tx.Does.writes fun s' => .setMessageBounds s' now id _) fun _ => Tx.Does.pure _

theorem refreshAll_only (now : Int) (ids : List Nat) :
    Tx.Does OnlyBounds (fun _ => True) (Conversation.refreshMessageBoundsForThreadIds now ids) :=
  Tx.Does.forEach fun id _ => (refreshMessageBounds_only now id).bind fun _ => Tx.Does.pure _

theorem find?_of_map {α β : Type} {f : α → β} {p : β → Bool} : ∀ {l l' : List α}, l'.map f = l.map f →
    (l'.find? fun a => p (f a)).map f = (l.find? fun a => p (f a)).map f
  | l, l', h => by
    have hmap : ∀ l : List α, (l.find? fun a => p (f a)).map f = (l.map f).find? p := fun l => by
      rw [List.find?_map]
      rfl
    rw [hmap, hmap, h]

/-- A thread is found as before, but for its bounds. -/
theorem findThread_identity {c c' : Conversation.Store} (h : c'.threads.map identity = c.threads.map identity)
    (id : Nat) : (c'.findThread id).map identity = (c.findThread id).map identity :=
  find?_of_map (p := fun t : Nat × Int × Option String × Int => decide (t.1 = id)) h

/-- The rows of memories and threads after a reflection was inserted. -/
structure WithMemory (c : Conversation.Store) (data : Conversation.MemoryData) (threadId : Nat) (now : Int)
    (c' : Conversation.Store) : Prop where
  nextId : c'.nextId = c.nextId + 1
  memories : c'.memories = c.memories ++ [⟨c.nextId, data.inserted now⟩]
  threads : c'.threads.map identity = c.threads.map identity
  threadMemories : c'.threadMemories = c.threadMemories ++ [⟨threadId, c.nextId, c.nextPosition threadId, now⟩]
  threadLabels : c'.threadLabels = c.threadLabels

theorem withMemory_spec {c : Conversation.Store} (h : ∀ row ∈ c.threadMemories, row.memoryId < c.nextId)
    (data : Conversation.MemoryData) (threadId : Nat) (now : Int) :
    WithMemory c data threadId now (withMemory c data threadId now) := by
  have hnone : (({ c with nextId := c.nextId + 1 } : Conversation.Store).insertMemory c.nextId
      (data.inserted now)).findAttachment threadId c.nextId = none := findAttachment_none h threadId
  have hattach : (({ c with nextId := c.nextId + 1 } : Conversation.Store).insertMemory c.nextId
      (data.inserted now)).attach now threadId c.nextId =
      { c with
          nextId := c.nextId + 1
          memories := c.memories ++ [⟨c.nextId, data.inserted now⟩]
          threadMemories := c.threadMemories ++ [⟨threadId, c.nextId, c.nextPosition threadId, now⟩] } := by
    unfold Conversation.Store.attach
    rw [hnone]
    rfl
  unfold withMemory
  rw [hattach]
  exact ⟨rfl, rfl, map_modifyWhere (by intros; rfl) _, rfl, rfl⟩

/-! ## The other transactions -/

/-- A thread with labels of its own. -/
def withLabels (now : Int) (threadId : Nat) (labels : List String) (c : Conversation.Store) : Conversation.Store :=
  labels.foldl (fun c label => c.addLabel now threadId label) c

theorem addLabels_run (now : Int) (threadId : Nat) : ∀ (labels : List String) (s : Store),
    (Tx.forEach labels fun label => onConversation (Conversation.addLabel now threadId label) : ReflectionTx Unit) s =
      .ok ((), { s with conversation := withLabels now threadId labels s.conversation })
  | [], _ => rfl
  | _ :: labels, _ => addLabels_run now threadId labels _

/-- The store with an aggregate thread and its key. -/
def Store.aggregated (s : Store) (p : PhaseOne) (now : Int) : Store :=
  { s with
      conversation :=
        withLabels now s.conversation.nextId p.targetLabels
          (({ s.conversation with nextId := s.conversation.nextId + 1 } : Conversation.Store).insertThread
            (p.threadData.row now s.conversation.nextId))
      aggregateKeys := s.aggregateKeys ++ [⟨p.originUserId, p.labelsHash, s.conversation.nextId, now⟩] }

theorem insertAggregateKey_ok {userId : Int} {labelsHash : String} {threadId : Nat} {now : Int} {s : Store}
    (h : (s.findAggregateKey userId labelsHash).isNone = true) :
    insertAggregateKey userId labelsHash threadId now s =
      .ok ((), { s with aggregateKeys := s.aggregateKeys ++ [⟨userId, labelsHash, threadId, now⟩] }) := by
  unfold insertAggregateKey
  rw [Tx.get_bind, Tx.bind_run, ensure_ok h]
  rfl

theorem insertAggregateKey_error {userId : Int} {labelsHash : String} {threadId : Nat} {now : Int} {s : Store}
    (h : (s.findAggregateKey userId labelsHash).isNone = false) :
    insertAggregateKey userId labelsHash threadId now s =
      .error (.alreadyExists "UNIQUE constraint failed: thread_aggregate_key") := by
  unfold insertAggregateKey
  rw [Tx.get_bind, Tx.bind_run, ensure_error h]

/-- **What the transaction of phase 2 does**: under a key that is taken it is rolled back. -/
theorem createAggregateThread_eq (p : PhaseOne) (now : Int) (s : Store) : createAggregateThread p now s =
    if (s.findAggregateKey p.originUserId p.labelsHash).isNone then .ok (s.conversation.nextId, s.aggregated p now)
    else .error (.alreadyExists "UNIQUE constraint failed: thread_aggregate_key") := by
  have hthread : onConversation (Conversation.insertThread now p.threadData) s =
      .ok (s.conversation.nextId, { s with
        conversation := (({ s.conversation with nextId := s.conversation.nextId + 1 } :
          Conversation.Store).insertThread (p.threadData.row now s.conversation.nextId)) }) := rfl
  unfold createAggregateThread
  rw [Tx.bind_run, hthread]
  simp only []
  rw [Tx.bind_run, addLabels_run]
  simp only []
  by_cases h : (s.findAggregateKey p.originUserId p.labelsHash).isNone = true
  · rw [if_pos h, Tx.bind_run, insertAggregateKey_ok]
    · rfl
    · exact h
  · rw [if_neg h, Tx.bind_run, insertAggregateKey_error]
    exact Bool.eq_false_of_not_eq_true h

/-- The rows of memories and threads after a memory was deleted. -/
structure WithoutMemory (c : Conversation.Store) (memoryId : Nat) (c' : Conversation.Store) : Prop where
  found : (c.findMemory memoryId).isSome = true
  nextId : c'.nextId = c.nextId
  memories : c'.memories = c.memories.filter fun row => row.id ≠ memoryId
  threads : c'.threads.map identity = c.threads.map identity
  threadMemories : c'.threadMemories = c.threadMemories.filter fun row => row.memoryId ≠ memoryId
  threadLabels : c'.threadLabels = c.threadLabels

/-- The store without the rows of a reflection, over other tables of memories and threads. -/
def Store.withoutReflection (s : Store) (memoryId : Nat) (conversation : Conversation.Store) : Store :=
  { (s.deleteChildren memoryId).deleteIndex memoryId with conversation }

theorem wp_onConversation {α : Type} {m : Conversation.StoreTx α} {Q : α → Store → Prop} {E : AppError → Prop}
    {s : Store} : Tx.wp (onConversation m) Q E s ↔
      Tx.wp m (fun a conversation => Q a { s with conversation }) E s.conversation := by
  unfold Tx.wp onConversation
  cases m s.conversation with
  | ok r => rfl
  | error e => rfl

/-- **What the deletion of a reflection does**, when it commits. -/
theorem deleteReflection_spec [Settings] (now : Int) (memoryId : Nat) (s : Store) :
    Tx.wp (deleteReflection now memoryId)
      (fun _ s' => ∃ c', WithoutMemory s.conversation memoryId c' ∧ s' = s.withoutReflection memoryId c')
      (fun _ => True) s := by
  unfold deleteReflection
  simp only [Tx.wp_bind, Tx.wp_get, Tx.wp_ensure, Tx.wp_writes, wp_onConversation]
  refine ⟨fun _ => ?_, fun _ => trivial⟩
  unfold Conversation.deleteAttachmentsByMemory
  rw [Tx.wp_writes]
  refine (refreshAll_only now _ _).imp fun _ c hc => ?_
  simp only [Conversation.deleteMemoryRow, Tx.wp_bind, Tx.wp_reads, Tx.wp_writes, Tx.wp_pure]
  refine ⟨fun hfound => ⟨_, ?_, rfl⟩, fun _ => trivial⟩
  have hmemories : c.memories = s.conversation.memories := hc.memories
  refine ⟨?_, hc.nextId, ?_, hc.threads, hc.threadMemories.trans (List.filter_congr fun row _ => by simp),
    hc.threadLabels⟩
  · unfold Conversation.Store.findMemory at hfound ⊢
    rw [← hmemories]
    exact hfound
  · show c.memories.filter _ = _
    rw [hmemories]
    exact List.filter_congr fun row _ => by simp

end MemoryStore.Reflection
