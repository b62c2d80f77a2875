/-
What one step of the system can do to the database: nothing, add a reflection
or an aggregate thread, take a reflection away, rebuild statistics, or delete
memories and threads that have nothing to do with reflections or, for all the
rest of the server knows, have.
-/
import MemoryStore.Reflection.Effects
import MemoryStore.Conversation.StepSpec

namespace MemoryStore.Reflection

open Table
open Conversation (AppError)

/-! ## Removals -/

/-- A thread and a memory attached to it. -/
def Attached (c : Conversation.Store) (threadId memoryId : Nat) : Prop :=
  ∃ a ∈ c.threadMemories, a.threadId = threadId ∧ a.memoryId = memoryId

/-- Rows are only taken away, those of the spared threads are kept, and so are
the spared memories that are attached to them. -/
structure Spares (memories threads : Nat → Prop) (c c' : Conversation.Store) : Prop where
  nextId : c'.nextId = c.nextId
  fewerMemories : ∀ row ∈ c'.memories, row ∈ c.memories
  fewerThreads : ∀ row ∈ c'.threads, ∃ row' ∈ c.threads, identity row' = identity row
  fewerAttachments : ∀ row ∈ c'.threadMemories, row ∈ c.threadMemories
  thread : ∀ t, threads t → (c'.findThread t).map identity = (c.findThread t).map identity
  memory : ∀ t m, threads t → memories m → Attached c t m → c'.findMemory m = c.findMemory m ∧ Attached c' t m

section Spares

variable {M T : Nat → Prop}

instance spares_refl : Std.Refl (Spares M T) :=
  ⟨fun _ => ⟨rfl, fun _ h => h, fun row h => ⟨row, h, rfl⟩, fun _ h => h, fun _ _ => rfl, fun _ _ _ _ h => ⟨rfl, h⟩⟩⟩

instance spares_trans : IsTrans Conversation.Store (Spares M T) where
  trans c c' c'' h h' :=
    { nextId := h'.nextId.trans h.nextId
      fewerMemories := fun row hrow => h.fewerMemories row (h'.fewerMemories row hrow)
      fewerThreads := fun row hrow => by
        obtain ⟨row', hrow', he⟩ := h'.fewerThreads row hrow
        obtain ⟨row'', hrow'', he'⟩ := h.fewerThreads row' hrow'
        exact ⟨row'', hrow'', he'.trans he⟩
      fewerAttachments := fun row hrow => h.fewerAttachments row (h'.fewerAttachments row hrow)
      thread := fun t ht => (h'.thread t ht).trans (h.thread t ht)
      memory := fun t m ht hm ha => by
        obtain ⟨he, ha'⟩ := h.memory t m ht hm ha
        obtain ⟨he', ha''⟩ := h'.memory t m ht hm ha'
        exact ⟨he'.trans he, ha''⟩ }

/-- Fewer rows are spared when less is to be. -/
theorem Spares.mono {M' T' : Nat → Prop} {c c' : Conversation.Store} (h : Spares M T c c') (hM : ∀ m, M' m → M m)
    (hT : ∀ t, T' t → T t) : Spares M' T' c c' :=
  { h with
    thread := fun t ht => h.thread t (hT t ht)
    memory := fun t m ht hm => h.memory t m (hT t ht) (hM m hm) }

theorem OnlyBounds.spares {c c' : Conversation.Store} (h : OnlyBounds c c') : Spares M T c c' where
  nextId := h.nextId
  fewerMemories row hrow := h.memories ▸ hrow
  fewerThreads row hrow := by
    obtain ⟨row', hrow', he⟩ := List.mem_map.1 (h.threads ▸ List.mem_map_of_mem hrow)
    exact ⟨row', hrow', he⟩
  fewerAttachments row hrow := h.threadMemories ▸ hrow
  thread t _ := findThread_identity h.threads t
  memory t m _ _ ha := by
    refine ⟨?_, ?_⟩
    · unfold Conversation.Store.findMemory
      rw [h.memories]
    · unfold Attached
      rw [h.threadMemories]
      exact ha

/-- An update of threads that changes nothing of what they are. -/
theorem Spares.modifyThreads (c : Conversation.Store) (p : Conversation.ThreadRow → Bool)
    {f : Conversation.ThreadRow → Conversation.ThreadRow} (hf : ∀ row, identity (f row) = identity row) :
    Spares M T c (c.modifyThreads p f) :=
  OnlyBounds.spares ⟨rfl, rfl, map_modifyWhere (fun row _ => hf row) _, rfl, rfl⟩

theorem Spares.modifyMedia (c : Conversation.Store) (id : Nat) (g : Conversation.MediaObjectRow → Bool)
    (f : Conversation.MediaObjectRow → Conversation.MediaObjectRow) : Spares M T c (c.modifyMedia id g f) :=
  OnlyBounds.spares ⟨rfl, rfl, rfl, rfl, rfl⟩

theorem Spares.removeLabels (c : Conversation.Store) (p : Conversation.ThreadLabelRow → Bool) :
    Spares M T c (c.removeLabels p) :=
  ⟨rfl, fun _ h => h, fun row h => ⟨row, h, rfl⟩, fun _ h => h, fun _ _ => rfl, fun _ _ _ _ h => ⟨rfl, h⟩⟩

/-- Detaching rows that are not of a spared memory in a spared thread. -/
theorem Spares.detach (c : Conversation.Store) {p : Conversation.ThreadMemoryRow → Bool}
    (hp : ∀ a, T a.threadId → M a.memoryId → p a = false) : Spares M T c (c.detach p) where
  nextId := rfl
  fewerMemories _ h := h
  fewerThreads row h := ⟨row, h, rfl⟩
  fewerAttachments _ h := (List.mem_filter.1 h).1
  thread _ _ := rfl
  memory t m ht hm := by
    rintro ⟨a, ha, rfl, rfl⟩
    exact ⟨rfl, a, List.mem_filter.2 ⟨ha, by simp [hp a ht hm]⟩, rfl, rfl⟩

/-- Deleting memories that are not spared, or attached nowhere. -/
theorem Spares.deleteMemories (c : Conversation.Store) {p : Conversation.MemoryRow → Bool}
    (hp : ∀ row, M row.id → p row = true → c.unattached row.id = true) : Spares M T c (c.deleteMemories p) where
  nextId := rfl
  fewerMemories _ h := (List.mem_filter.1 h).1
  fewerThreads row h := ⟨row, h, rfl⟩
  fewerAttachments _ h := h
  thread _ _ := rfl
  memory t m _ hm := by
    rintro ⟨a, ha, hta, hma⟩
    refine ⟨?_, a, ha, hta, hma⟩
    unfold Conversation.Store.findMemory Conversation.Store.deleteMemories
    rw [List.find?_filter]
    congr 1
    funext row
    by_cases hid : row.id = m
    · have hrow : p row = false := by
        by_contra hc
        have hun := hp row (hid ▸ hm) (by simpa using hc)
        unfold Conversation.Store.unattached at hun
        rw [Bool.not_eq_true', List.any_eq_false] at hun
        exact hun a ha (by simpa using hma.trans hid.symm)
      simp [hid, hrow]
    · simp [hid]

theorem Spares.deleteThread (c : Conversation.Store) {id : Nat} (hid : ¬ T id) : Spares M T c (c.deleteThread id) where
  nextId := rfl
  fewerMemories _ h := h
  fewerThreads row h := ⟨row, (List.mem_filter.1 h).1, rfl⟩
  fewerAttachments _ h := h
  thread t ht := by
    unfold Conversation.Store.findThread Conversation.Store.deleteThread
    rw [List.find?_filter]
    congr 2
    funext row
    by_cases hrow : row.id = t
    · have hne : t ≠ id := fun he => hid (he ▸ ht)
      simp [hrow, hne]
    · simp [hrow]
  memory _ _ _ _ h := ⟨rfl, h⟩

/-! ### The transactions -/

theorem deleteMemoryRdb_spares (now : Int) {id : Nat} (hid : ¬ M id) :
    Tx.Does (Spares M T) (fun _ => True) (Conversation.deleteMemoryRdb now id) := by
  refine Tx.Does.get.bind fun s => ?_
  split
  · exact Tx.Does.pure _
  · refine Tx.Does.bind (Tx.Does.writes fun c => .modifyThreads c _ fun _ => rfl) fun _ => ?_
    refine Tx.Does.bind (Tx.Does.writes fun c => .detach c fun a _ hm => ?_) fun _ => ?_
    · exact decide_eq_false fun he : a.memoryId = id => hid (he ▸ hm)
    refine Tx.Does.bind ((refreshAll_only now _).mono (fun _ _ h => h.spares) fun _ h => h) fun _ => ?_
    refine Tx.Does.bind (Conversation.unlinkMedia_does (fun c id g f => .modifyMedia c id g f) now _) fun _ => ?_
    refine Tx.Does.bind (fun c => ?_) fun _ => Tx.Does.pure _
    exact Spares.deleteMemories c fun row hm hrow => absurd (by simpa using hrow) fun he : row.id = id => hid (he ▸ hm)

theorem deleteOrphanedByIds_spares (ids : List Nat) :
    Tx.Does (Spares M T) (fun _ => True) (Conversation.deleteOrphanedByIds ids) := by
  intro c
  refine Spares.deleteMemories c fun row _ hrow => ?_
  unfold Conversation.Store.isOrphanOf at hrow
  rw [Bool.and_eq_true] at hrow
  exact hrow.2

theorem deleteThreadInTx_spares (now : Int) {id : Nat} (hid : ¬ T id) :
    Tx.Does (Spares M T) (fun _ => True) (Conversation.deleteThreadInTx now id) := by
  refine Tx.Does.get.bind fun s => ?_
  refine Tx.Does.bind (Tx.Does.writes fun c => .detach c fun a ht _ => ?_) fun _ => ?_
  · exact decide_eq_false fun he : a.threadId = id => hid (he ▸ ht)
  refine (deleteOrphanedByIds_spares _).bind fun _ => ?_
  refine Tx.Does.bind (Conversation.releaseMedia_does (fun c id g f => .modifyMedia c id g f) now _ _) fun _ => ?_
  refine Tx.Does.bind (Tx.Does.writes fun c => .removeLabels c _) fun _ => ?_
  exact Tx.Does.bind (fun c => Spares.deleteThread c hid) fun _ => Tx.Does.pure _

end Spares

/-- The memories a removal names. -/
def Removal.memoryIds : Removal → List Nat
  | deleteMemory id => [id]
  | deleteThreads _ => []
  | deleteLinkedMemories ids => ids

/-- The threads a removal names. -/
def Removal.threadIds : Removal → List Nat
  | deleteThreads ids => ids
  | _ => []

/-- **A removal spares what it does not name**, except that it deletes the memories left attached nowhere. -/
theorem Removal.spares (removal : Removal) (now : Int) (c : Conversation.Store) :
    Spares (· ∉ removal.memoryIds) (· ∉ removal.threadIds) c ((removal.tx now).commit c) := by
  have hdoes : Tx.Does (Spares (· ∉ removal.memoryIds) (· ∉ removal.threadIds)) (fun _ => True) (removal.tx now) := by
    cases removal with
    | deleteMemory id =>
      exact (deleteMemoryRdb_spares now (by simp [Removal.memoryIds])).bind fun _ => Tx.Does.pure _
    | deleteThreads ids =>
      refine Tx.Does.bind (Tx.Does.collect fun id hid => ?_) fun _ => Tx.Does.pure _
      exact (deleteThreadInTx_spares now (by simpa [Removal.threadIds] using hid)).bind fun _ => Tx.Does.pure _
    | deleteLinkedMemories ids =>
      refine Tx.Does.bind (Tx.Does.collect fun id hid => ?_) fun _ => Tx.Does.pure _
      exact (deleteMemoryRdb_spares now (by simpa [Removal.memoryIds] using hid)).bind fun _ =>
        (Tx.Does.ensure trivial).bind fun _ => Tx.Does.pure _
  rcases (hdoes c).commit with he | ⟨_, h⟩
  · rw [he]
    exact refl_of _ c
  · exact h

theorem onConversation_commit {α : Type} (m : Conversation.StoreTx α) (s : Store) :
    (onConversation m).commit s = { s with conversation := m.commit s.conversation } := by
  unfold Tx.commit onConversation
  cases m s.conversation with
  | ok r => rfl
  | error e => rfl

/-! ## Steps of a call -/

/-- A call that will insert a reflection with its next step. -/
def Call.inserts [Settings] (call : Call) (s : Store) : Bool :=
  match call.stage with
  | .ready _ aggregateThreadId _ =>
    (!Settings.postgres || (s.conversation.findThread aggregateThreadId).isSome) && s.externalIdFree call.request
  | _ => false

/-- What a step of a call does to the database. -/
inductive Advances [Settings] (call : Call) (now : Int) (s : Store) : Store × Stage → Prop where
  | inserts (p : PhaseOne) (aggregateThreadId attempts : Nat) : call.stage = .ready p aggregateThreadId attempts →
      (!Settings.postgres || (s.conversation.findThread aggregateThreadId).isSome) = true →
      s.externalIdFree call.request = true →
      Advances call now s
        (s.reflected call.request p aggregateThreadId call.calledAt now, .returned (.ok s.conversation.nextId))
  | aggregates (p : PhaseOne) : call.stage = .missed p →
      s.findAggregateKey p.originUserId p.labelsHash = none →
      Advances call now s (s.aggregated p call.calledAt, .ready p s.conversation.nextId 0)
  | waits (stage : Stage) : call.inserts s = false →
      (∀ p aggregateThreadId attempts, call.stage = .ready p aggregateThreadId attempts →
        ∀ memoryId, stage ≠ .returned (.ok memoryId)) → Advances call now s (s, stage)

section Advance

variable [Settings] {s : Store}

theorem Call.inserts_iff {call : Call} {p : PhaseOne} {t n : Nat} (h : call.stage = .ready p t n) : call.inserts s = true ↔
    (!Settings.postgres || (s.conversation.findThread t).isSome) = true ∧ s.externalIdFree call.request = true := by
  unfold Call.inserts
  rw [h]
  exact Bool.and_eq_true_iff

theorem Call.advance_spec (call : Call) (now : Int) (hs : s.Below) : Advances call now s (call.advance now s) := by
  have hwaits : ∀ stage, (∀ p t n, call.stage ≠ .ready p t n) → Advances call now s (s, stage) := by
    refine fun stage h => .waits stage ?_ fun p t n he => absurd he (h p t n)
    unfold Call.inserts
    split
    · next p t n he => exact absurd he (h p t n)
    · rfl
  unfold Call.advance
  cases hstage : call.stage with
  | validated =>
    dsimp only
    split <;> exact hwaits _ (by simp [hstage])
  | read p =>
    dsimp only
    split <;> exact hwaits _ (by simp [hstage])
  | missed p =>
    dsimp only
    rw [createAggregateThread_eq]
    by_cases h : (s.findAggregateKey p.originUserId p.labelsHash).isNone = true
    · rw [if_pos h]
      exact .aggregates p hstage (Option.isNone_iff_eq_none.1 h)
    · rw [if_neg h]
      exact hwaits _ (by simp [hstage])
  | lost p =>
    dsimp only
    split <;> exact hwaits _ (by simp [hstage])
  | ready p t n =>
    dsimp only
    rw [runPhase3_eq hs]
    by_cases hfound : (!Settings.postgres || (s.conversation.findThread t).isSome) = false
    · rw [if_pos hfound]
      refine .waits _ (Bool.eq_false_iff.2 fun hi => ?_) (by simp)
      exact absurd ((call.inserts_iff hstage).1 hi).1 (by rw [hfound]; exact Bool.false_ne_true)
    · rw [if_neg hfound]
      by_cases hfree : s.externalIdFree call.request = true
      · rw [if_pos hfree]
        exact .inserts p t n hstage (Bool.eq_true_of_not_eq_false hfound) hfree
      · rw [if_neg hfree]
        exact .waits _ (Bool.eq_false_iff.2 fun hi => hfree ((call.inserts_iff hstage).1 hi).2) (by simp)
  | refused =>
    dsimp only
    split <;> exact hwaits _ (by simp [hstage])
  | returned result => exact hwaits _ (by simp [hstage])

end Advance

/-! ## Drawn ids -/

section Below

variable {s : Store}

theorem insertAll_below {α κ : Type} [DecidableEq κ] {key : α → κ} {memoryId : α → Nat} {news rows : List α} {n : Nat}
    (h : ∀ r ∈ rows, memoryId r < n) (hnew : ∀ r ∈ news, memoryId r = n) :
    ∀ r ∈ insertAll key news rows, memoryId r < n + 1 := by
  intro r hr
  rcases mem_insertAll news hr with hr | hr
  · have := h r hr
    omega
  · have := hnew r hr
    omega

theorem Store.Below.reflected (hs : s.Below) (req : ValidRequest) (p : PhaseOne) (threadId : Nat) (calledAt now : Int) :
    (s.reflected req p threadId calledAt now).Below := by
  have hc := withMemory_spec hs.attachments (req.memoryData p calledAt) threadId now
  have hnext : (s.reflected req p threadId calledAt now).conversation.nextId = s.conversation.nextId + 1 := hc.nextId
  constructor <;> rw [hnext]
  · intro row hrow
    rcases List.mem_append.1 (hc.memories ▸ hrow) with hrow | hrow
    · exact Nat.lt_succ_of_lt (hs.memories row hrow)
    · rw [List.mem_singleton.1 hrow]
      exact Nat.lt_succ_self _
  · intro row hrow
    obtain ⟨row', hrow', he⟩ := List.mem_map.1 (hc.threads ▸ List.mem_map_of_mem (f := identity) hrow)
    have hid : row'.id = row.id := congrArg Prod.fst he
    exact hid ▸ Nat.lt_succ_of_lt (hs.threads row' hrow')
  · intro row hrow
    rcases List.mem_append.1 (hc.threadMemories ▸ hrow) with hrow | hrow
    · exact Nat.lt_succ_of_lt (hs.attachments row hrow)
    · rw [List.mem_singleton.1 hrow]
      exact Nat.lt_succ_self _
  · intro row hrow
    rcases List.mem_append.1 hrow with hrow | hrow
    · exact Nat.lt_succ_of_lt (hs.index row hrow)
    · rw [List.mem_singleton.1 hrow]
      exact Nat.lt_succ_self _
  · exact insertAll_below hs.failureModes fun r hr => by
      obtain ⟨_, -, rfl⟩ := List.mem_map.1 hr
      rfl
  · exact insertAll_below hs.tools fun r hr => by
      obtain ⟨_, -, rfl⟩ := List.mem_map.1 hr
      rfl
  · exact insertAll_below hs.toolOutcomes fun r hr => by
      obtain ⟨_, -, rfl⟩ := List.mem_map.1 hr
      rfl
  · exact insertAll_below hs.facts fun r hr => by
      obtain ⟨_, -, rfl⟩ := List.mem_map.1 hr
      rfl

theorem addLabel_threads (c : Conversation.Store) (now : Int) (threadId : Nat) (label : String) :
    ∃ labels, c.addLabel now threadId label = { c with threadLabels := labels } := by
  unfold Conversation.Store.addLabel
  split
  · exact ⟨c.threadLabels, rfl⟩
  · exact ⟨_, rfl⟩

/-- Labels change nothing but the labels. -/
theorem withLabels_eq (now : Int) (threadId : Nat) : ∀ (labels : List String) (c : Conversation.Store),
    ∃ rows, withLabels now threadId labels c = { c with threadLabels := rows }
  | [], c => ⟨c.threadLabels, rfl⟩
  | label :: labels, c => by
    obtain ⟨rows, hrows⟩ := addLabel_threads c now threadId label
    obtain ⟨rows', hrows'⟩ := withLabels_eq now threadId labels (c.addLabel now threadId label)
    exact ⟨rows', by rw [withLabels, List.foldl_cons]; exact hrows'.trans (by rw [hrows])⟩

theorem Store.Below.aggregated (hs : s.Below) (p : PhaseOne) (now : Int) : (s.aggregated p now).Below := by
  obtain ⟨labels, hlabels⟩ := withLabels_eq now s.conversation.nextId p.targetLabels
    (({ s.conversation with nextId := s.conversation.nextId + 1 } : Conversation.Store).insertThread
      (p.threadData.row now s.conversation.nextId))
  have hc : (s.aggregated p now).conversation = { s.conversation with
      nextId := s.conversation.nextId + 1
      threads := s.conversation.threads ++ [p.threadData.row now s.conversation.nextId]
      threadLabels := labels } := hlabels
  constructor <;> rw [hc]
  · exact fun row hrow => Nat.lt_succ_of_lt (hs.memories row hrow)
  · intro row hrow
    rcases List.mem_append.1 hrow with hrow | hrow
    · exact Nat.lt_succ_of_lt (hs.threads row hrow)
    · rw [List.mem_singleton.1 hrow]
      exact Nat.lt_succ_self _
  · exact fun row hrow => Nat.lt_succ_of_lt (hs.attachments row hrow)
  · exact fun row hrow => Nat.lt_succ_of_lt (hs.index row hrow)
  · exact fun row hrow => Nat.lt_succ_of_lt (hs.failureModes row hrow)
  · exact fun row hrow => Nat.lt_succ_of_lt (hs.tools row hrow)
  · exact fun row hrow => Nat.lt_succ_of_lt (hs.toolOutcomes row hrow)
  · exact fun row hrow => Nat.lt_succ_of_lt (hs.facts row hrow)

theorem Store.Below.withoutReflection (hs : s.Below) {memoryId : Nat} {c : Conversation.Store}
    (hc : WithoutMemory s.conversation memoryId c) : (s.withoutReflection memoryId c).Below := by
  have hnext : (s.withoutReflection memoryId c).conversation.nextId = s.conversation.nextId := hc.nextId
  constructor <;> rw [hnext]
  · exact fun row hrow => hs.memories row (List.mem_filter.1 (hc.memories ▸ hrow)).1
  · intro row hrow
    obtain ⟨row', hrow', he⟩ := List.mem_map.1 (hc.threads ▸ List.mem_map_of_mem (f := identity) hrow)
    have hid : row'.id = row.id := congrArg Prod.fst he
    exact hid ▸ hs.threads row' hrow'
  · exact fun row hrow => hs.attachments row (List.mem_filter.1 (hc.threadMemories ▸ hrow)).1
  · exact fun row hrow => hs.index row (List.mem_filter.1 hrow).1
  · exact fun row hrow => hs.failureModes row (List.mem_filter.1 hrow).1
  · exact fun row hrow => hs.tools row (List.mem_filter.1 hrow).1
  · exact fun row hrow => hs.toolOutcomes row (List.mem_filter.1 hrow).1
  · exact fun row hrow => hs.facts row (List.mem_filter.1 hrow).1

theorem Store.Below.removed (hs : s.Below) {M T : Nat → Prop} {c : Conversation.Store}
    (hc : Spares M T s.conversation c) : ({ s with conversation := c } : Store).Below := by
  constructor <;> dsimp only <;> rw [hc.nextId]
  · exact fun row hrow => hs.memories row (hc.fewerMemories row hrow)
  · intro row hrow
    obtain ⟨row', hrow', he⟩ := hc.fewerThreads row hrow
    have hid : row'.id = row.id := congrArg Prod.fst he
    exact hid ▸ hs.threads row' hrow'
  · exact fun row hrow => hs.attachments row (hc.fewerAttachments row hrow)
  · exact hs.index
  · exact hs.failureModes
  · exact hs.tools
  · exact hs.toolOutcomes
  · exact hs.facts

end Below

/-! ## Steps of the system -/

section Exec

variable [Settings] {sys : System}

/-- The call that inserts a reflection with a step, if it does. -/
def System.inserting (sys : System) : Action → Option Call
  | .advance i _ => (sys.calls[i]?).filter fun call => call.inserts sys.store
  | _ => none

@[simp] theorem System.advance_store (i : Nat) (call : Call) (now : Int) :
    (sys.advance i call now).store = (call.advance now sys.store).1 := rfl

theorem Advances.below {call : Call} {now : Int} {s : Store} (hs : s.Below) {next : Store × Stage}
    (h : Advances call now s next) : next.1.Below := by
  cases h with
  | inserts p t n _ _ _ => exact hs.reflected _ _ _ _ _
  | aggregates p _ _ => exact hs.aggregated _ _
  | waits stage _ => exact hs

/-- A deletion that commits, or fails and changes nothing. -/
theorem System.delete_cases (sys : System) (memoryId : Nat) (now : Int) :
    sys.delete memoryId now = sys ∨ ∃ c, WithoutMemory sys.store.conversation memoryId c ∧
      sys.delete memoryId now =
        { sys with
            store := sys.store.withoutReflection memoryId c
            deleted := sys.deleted ++ [memoryId]
            droppedOutcomes := sys.droppedOutcomes ++ sys.store.toolOutcomesOf memoryId
            droppedContributions := sys.droppedContributions ++ sys.store.toolContributionsOf memoryId } := by
  unfold System.delete
  cases h : deleteReflection now memoryId sys.store with
  | error e => exact .inl rfl
  | ok r =>
    obtain ⟨u, s'⟩ := r
    obtain ⟨c, hc, rfl⟩ := (deleteReflection_spec now memoryId sys.store).ok h
    exact .inr ⟨c, hc, rfl⟩

/-- Every id in use has been drawn, after every step. -/
theorem Action.exec_below (a : Action) (hs : sys.store.Below) : (a.exec sys).store.Below := by
  cases a with
  | call req now =>
    simp only [Action.exec]
    split <;> exact hs
  | advance i now =>
    simp only [Action.exec]
    split
    · next call _ => exact (call.advance_spec now hs).below hs
    · exact hs
  | collide i =>
    simp only [Action.exec]
    split
    · split <;> exact hs
    · exact hs
  | drop i =>
    simp only [Action.exec]
    split <;> exact hs
  | guardDelete memoryId =>
    simp only [Action.exec]
    split <;> exact hs
  | delete memoryId now =>
    simp only [Action.exec]
    split
    · rcases sys.delete_cases memoryId now with h | ⟨c, hc, h⟩
      · rw [h]
        exact hs
      · rw [h]
        exact hs.withoutReflection hc
    · exact hs
  | rebuildToolOutcomeStats user => exact ⟨hs.1, hs.2, hs.3, hs.4, hs.5, hs.6, hs.7, hs.8⟩
  | rebuildToolContributionStats user => exact ⟨hs.1, hs.2, hs.3, hs.4, hs.5, hs.6, hs.7, hs.8⟩
  | remove removal now =>
    simp only [Action.exec]
    rw [onConversation_commit]
    exact hs.removed (removal.spares now sys.store.conversation)

end Exec

end MemoryStore.Reflection
