/-
The programs of the calls, inside a transaction: what each does to the account,
and which rows it leaves where they are.
-/
import MemoryStore.Conversation.MidwayMedia

namespace MemoryStore.Conversation

open Table

variable {s s₀ : Store} {p : Pending}

/-! ## What stays -/

/-- Memories and junction rows are untouched. -/
def Store.SameMessages (s s' : Store) : Prop := s'.memories = s.memories ∧ s'.threadMemories = s.threadMemories

instance : Std.Refl Store.SameMessages := ⟨fun _ => ⟨rfl, rfl⟩⟩

instance : IsTrans Store Store.SameMessages := ⟨fun _ _ _ h h' => ⟨h'.1.trans h.1, h'.2.trans h.2⟩⟩

/-- No memory and no thread is lost. -/
def Store.Grows (s s' : Store) : Prop :=
  (∀ id, (s.findMemory id).isSome → (s'.findMemory id).isSome) ∧
    ∀ id, (s.findThread id).isSome → (s'.findThread id).isSome

instance : Std.Refl Store.Grows := ⟨fun _ => ⟨fun _ h => h, fun _ h => h⟩⟩

instance : IsTrans Store Store.Grows :=
  ⟨fun _ _ _ h h' => ⟨fun id hm => h'.1 id (h.1 id hm), fun id ht => h'.2 id (h.2 id ht)⟩⟩

theorem Store.Grows.insertMemory (s : Store) (id : Nat) (data : MemoryData) : s.Grows (s.insertMemory id data) := by
  refine ⟨fun k hk => ?_, fun k hk => hk⟩
  obtain ⟨row, hrow, hid⟩ := findMemory_isSome.1 hk
  exact findMemory_isSome.2 ⟨row, List.mem_append_left _ hrow, hid⟩

theorem Store.Grows.modifyMemory (s : Store) (id : Nat) (f : MemoryData → MemoryData) :
    s.Grows (s.modifyMemory id f) := by
  refine ⟨fun k hk => ?_, fun k hk => hk⟩
  rw [findMemory_isSome_modifyMemory]
  exact hk

theorem Store.Grows.attach (s : Store) (now : Int) (threadId memoryId : Nat) :
    s.Grows (s.attach now threadId memoryId) := by
  refine ⟨fun k hk => ?_, fun k hk => ?_⟩
  · rw [findMemory_attach]; exact hk
  · rw [findThread_attach]; exact hk

theorem Store.Grows.setMessageBounds (s : Store) (now : Int) (id : Nat) (bounds : Option Int × Option Int) :
    s.Grows (s.setMessageBounds now id bounds) := by
  refine ⟨fun k hk => hk, fun k hk => ?_⟩
  unfold Store.setMessageBounds
  rw [findThread_isSome_modifyThreads (f := fun row => { row with
    firstMessageAt := bounds.1, lastMessageAt := bounds.2, updatedAt := now }) fun _ _ => rfl]
  exact hk

/-! ## Checks -/

/-- A program that only reads and checks. -/
abbrev Checks {α : Type} (m : StoreTx α) : Prop := Tx.Does Eq (·.benign = true) m

theorem Checks.wp {α : Type} {m : StoreTx α} (h : Checks m) {Q : α → Store → Prop} (hQ : ∀ a, Q a s) :
    Tx.wp m Q (·.benign = true) s :=
  (h s).imp fun a _ he => he ▸ hQ a

theorem Checks.pure {α : Type} (a : α) : Checks (Pure.pure a) := Tx.Does.pure a

theorem Checks.ensure {c : Bool} {e : AppError} (he : e.benign = true) : Checks (Tx.ensure c e) := Tx.Does.ensure he

theorem Checks.bind {α β : Type} {m : StoreTx α} {f : α → StoreTx β} (hm : Checks m) (hf : ∀ a, Checks (f a)) :
    Checks (m >>= f) := Tx.Does.bind hm hf

section Checks

theorem validateExplicitKind_checks (kind : Int) : Checks (validateExplicitKind kind) := Checks.ensure rfl

theorem resolvePreservedKind_checks (requested stored : Int) (operation : String) :
    Checks (resolvePreservedKind requested stored operation) := by
  unfold resolvePreservedKind
  refine Tx.Does.ite (fun _ => ?_) fun _ => Checks.pure _
  exact (validateExplicitKind_checks _).bind fun _ => (Checks.ensure rfl).bind fun _ => Checks.pure _

theorem preserveMemoryKindForUpdate_checks (memory : MemoryData) (stored : Int) (operation : String) :
    Checks (preserveMemoryKindForUpdate memory stored operation) :=
  (resolvePreservedKind_checks _ _ _).bind fun _ => Checks.pure _

theorem preserveThreadKindForUpdate_checks (thread : ThreadData) (stored : Int) (operation : String) :
    Checks (preserveThreadKindForUpdate thread stored operation) :=
  (resolvePreservedKind_checks _ _ _).bind fun _ => Checks.pure _

theorem validateMemoryKindMatchesThread_checks (kind : Int) (memory : MemoryData) :
    Checks (validateMemoryKindMatchesThread kind memory) := Checks.ensure rfl

theorem validateLabels_checks (labels : List String) : Checks (validateLabels labels) := by
  refine Checks.bind (Tx.Does.collect fun label _ => ?_) fun _ => Checks.pure _
  exact (Checks.ensure rfl).bind fun _ => (Checks.ensure rfl).bind fun _ => Checks.pure _

theorem bailIf_checks (refusal : Option String) : Checks (bailIf refusal) := by
  cases refusal with
  | none => exact Checks.pure ()
  | some message => exact fun _ => rfl

theorem validateLegacySummaryTarget_checks (groups : GroupAnswers) (memory : MemoryData) :
    Checks (validateLegacySummaryTarget groups memory) := bailIf_checks _

variable [Deployment]

theorem resolveCreatedKind_checks (kind : Int) (operation : String) : Checks (resolveCreatedKind kind operation) := by
  unfold resolveCreatedKind
  refine Tx.Does.ite (fun _ => ?_) fun _ => ?_
  · exact (validateExplicitKind_checks kind).bind fun _ => Checks.pure _
  · exact (Checks.ensure rfl).bind fun _ => Checks.pure _

theorem normalizeMemoryForCreate_checks (memory : MemoryData) (operation : String) :
    Checks (normalizeMemoryForCreate memory operation) :=
  (resolveCreatedKind_checks _ _).bind fun _ => Checks.pure _

theorem normalizeThreadForCreate_checks (thread : ThreadData) (operation : String) :
    Checks (normalizeThreadForCreate thread operation) :=
  (resolveCreatedKind_checks _ _).bind fun _ => Checks.pure _

theorem validateMetadata_checks (metadata : Option String) : Checks (validateMetadata metadata) := by
  cases metadata with
  | none => exact Checks.pure ()
  | some raw => exact (Checks.ensure rfl).bind fun _ => Checks.ensure rfl

end Checks

/-- A default system memory that passes its check is there. -/
theorem validateDefaultSystemMemoryId_spec (defaultId : Option Nat) (kind : Int) :
    Tx.wp (validateDefaultSystemMemoryId defaultId kind)
      (fun answer s' => s' = s ∧ ∀ id, answer = some id → (s.findMemory id).isSome) (·.benign = true) s := by
  unfold validateDefaultSystemMemoryId
  split
  · exact ⟨rfl, fun id he => by simp at he⟩
  · exact ⟨rfl, fun id he => by simp at he⟩
  · next id _ =>
    rw [Tx.wp_bind, Tx.wp_get]
    split
    · exact rfl
    · next memory hfind =>
      rw [Tx.wp_bind, Tx.wp_ensure]
      refine ⟨fun _ => ?_, fun _ => rfl⟩
      rw [Tx.wp_bind]
      refine (validateMemoryKindMatchesThread_checks _ _).wp fun _ => ?_
      refine ⟨rfl, fun k he => ?_⟩
      obtain rfl := Option.some.inj he
      rw [hfind]
      rfl

/-! ## Media -/

section Media

variable {R : Store → Store → Prop} [Std.Refl R] [IsTrans Store R]

/-- What holds across every update of a media row, holds across links and unlinks. -/
theorem decrAndMaybeClaim_does
    (hR : ∀ s id (g : MediaObjectRow → Bool) f, R s (Store.modifyMedia s id g f)) (now : Int) (id : Nat) :
    Tx.Does R (fun _ => True) (decrAndMaybeClaim now id) := by
  have hmodify : ∀ id g f, Tx.Does R (fun _ => True) (modifyMedia id g f) := fun id g f s => hR s id g f
  have hdecr : Tx.Does R (fun _ => True) (decrRef now id) :=
    (hmodify _ _ _).bind fun _ => Tx.Does.get.bind fun _ => Tx.Does.pure _
  refine hdecr.bind fun decremented => ?_
  cases decremented with
  | none => exact Tx.Does.get.bind fun _ => (Tx.Does.ensure trivial).bind fun _ => Tx.Does.pure _
  | some row =>
    refine Tx.Does.ite (fun _ => ?_) fun _ => Tx.Does.pure _
    refine (hmodify _ _ _).bind fun claimed => Tx.Does.get.bind fun s => ?_
    cases claimed with
    | false => exact Tx.Does.pure _
    | true =>
      split
      · exact Tx.Does.pure _
      · exact Tx.Does.fail trivial
      · exact Tx.Does.pure _

theorem unlinkMedia_does (hR : ∀ s id (g : MediaObjectRow → Bool) f, R s (Store.modifyMedia s id g f)) (now : Int)
    (mediaId : Option Nat) : Tx.Does R (fun _ => True) (unlinkMedia now mediaId) := by
  cases mediaId with
  | none => exact Tx.Does.pure _
  | some id => exact decrAndMaybeClaim_does hR now id

theorem releaseMedia_does (hR : ∀ s id (g : MediaObjectRow → Bool) f, R s (Store.modifyMedia s id g f)) (now : Int)
    (candidates : List MemoryRow) : ∀ ids : List Nat, Tx.Does R (fun _ => True) (releaseMedia now candidates ids)
  | [] => Tx.Does.pure _
  | _ :: rest => (unlinkMedia_does hR now _).bind fun _ =>
      (releaseMedia_does hR now candidates rest).bind fun _ => Tx.Does.pure _

theorem incrRef_does {R : Store → Store → Prop} (hR : ∀ s id (g : MediaObjectRow → Bool) f, R s (Store.modifyMedia s id g f)) (now : Int)
    (id : Nat) : Tx.Does R (fun _ => True) (incrRef now id) := fun s => hR s id _ _

theorem linkMedia_does (hR : ∀ s id (g : MediaObjectRow → Bool) f, R s (Store.modifyMedia s id g f)) (now : Int)
    (mediaId : Option Nat) : Tx.Does R (fun _ => True) (linkMedia now mediaId) := by
  cases mediaId with
  | none => exact Tx.Does.pure _
  | some id =>
    exact Tx.Does.get.bind fun _ => (Tx.Does.ensure trivial).bind fun _ =>
      (incrRef_does hR now id).bind fun _ => Tx.Does.ensure trivial

end Media

theorem Store.SameMessages.modifyMedia (s : Store) (id : Nat) (g : MediaObjectRow → Bool)
    (f : MediaObjectRow → MediaObjectRow) : s.SameMessages (s.modifyMedia id g f) := ⟨rfl, rfl⟩

theorem Store.Grows.modifyMedia (s : Store) (id : Nat) (g : MediaObjectRow → Bool)
    (f : MediaObjectRow → MediaObjectRow) : s.Grows (s.modifyMedia id g f) := ⟨fun _ h => h, fun _ h => h⟩

/-! ## Bounds -/

/-- A refresh of one thread, whose row has changed only if the extrema did. -/
theorem Midway.refreshMessageBounds (h : Midway s₀ p s) (now : Int) (id : Nat) :
    Tx.wp (refreshMessageBounds now id)
      (fun changed s' => Midway s₀ { p with threads := p.threads ∪ {k | changed = true ∧ k = id}
                                            bounds := p.bounds \ {id} } s' ∧
        s.SameMessages s' ∧ s.Grows s') (·.benign = true) s := by
  unfold MemoryStore.Conversation.refreshMessageBounds
  simp only [Tx.wp_bind, Tx.wp_get, Tx.wp_writes, Tx.wp_pure]
  refine ⟨?_, ⟨rfl, rfl⟩, Store.Grows.setMessageBounds _ _ _ _⟩
  have hset := h.setMessageBounds now id
  by_cases hc : (s.threads.any fun row => row.id = id && row.messageBounds ≠ s.messageBounds id) = true
  · refine hset.mono (fun _ hk => hk) (fun k hk => ?_) (fun _ hk => hk) rfl rfl
    rcases hk with rfl | hk
    · exact .inr ⟨hc, rfl⟩
    · exact .inl hk
  · have hsame : s.setMessageBounds now id (s.messageBounds id) = s := by
      unfold Store.setMessageBounds Store.modifyThreads
      rw [modifyWhere_of_none]
      intro row hrow
      by_contra hp
      exact hc (List.any_eq_true.2 ⟨row, hrow, by simpa using hp⟩)
    rw [hsame] at hset ⊢
    refine { h with threads := fun k hk hkt => h.threads k hk fun hp => hkt (.inl hp), bounds := hset.bounds }

/-- A refresh of all threads touched. -/
theorem Midway.refreshMessageBoundsForThreadIds (h : Midway s₀ p s) (now : Int) (ids : List Nat) :
    Tx.wp (refreshMessageBoundsForThreadIds now ids)
      (fun _ s' => Midway s₀ { p with threads := p.threads ∪ {k | k ∈ ids}, bounds := {k ∈ p.bounds | k ∉ ids} } s' ∧
        s.SameMessages s') (·.benign = true) s := by
  have hmem : ∀ k, k ∈ (ids.insertionSort (· ≤ ·)).dedup ↔ k ∈ ids := by
    intro k
    rw [List.mem_dedup, List.mem_insertionSort]
  unfold MemoryStore.Conversation.refreshMessageBoundsForThreadIds
  refine (Tx.wp_forEach
    (I := fun rest s' => (Midway s₀ { p with threads := p.threads ∪ {k | k ∈ ids}
                                             bounds := {k ∈ p.bounds | k ∈ ids → k ∈ rest} } s' ∧ s.SameMessages s') ∧
      ∀ k ∈ rest, k ∈ ids) ?_ ⟨⟨?_, rfl, rfl⟩, fun k hk => (hmem k).1 hk⟩).imp fun _ s' hs' => ⟨?_, hs'.1.2⟩
  · rintro a rest s' ⟨⟨hs', hsame⟩, hrest⟩
    simp only [Tx.wp_bind, Tx.wp_pure]
    refine (hs'.refreshMessageBounds now a).imp fun _ s'' hout => ?_
    obtain ⟨hs'', hsame', _⟩ := hout
    refine ⟨⟨hs''.mono (fun _ hk => hk) (fun k hk => ?_) (fun k hk => ?_) rfl rfl, ?_⟩,
      fun k hk => hrest k (by simp [hk])⟩
    · rcases hk with hk | ⟨-, rfl⟩
      · exact hk
      · exact .inr (hrest k (by simp))
    · refine ⟨hk.1.1, fun hids => ?_⟩
      rcases List.mem_cons.1 (hk.1.2 hids) with rfl | hk'
      · exact absurd rfl hk.2
      · exact hk'
    · exact trans_of _ hsame hsame'
  · exact h.mono (fun _ hk => hk) (fun _ hk => .inl hk) (fun k hk => ⟨hk, fun hids => (hmem k).2 hids⟩) rfl rfl
  · exact hs'.1.1.mono (fun _ hk => hk) (fun _ hk => hk) (fun k hk => ⟨hk.1, fun hids => by simpa using hk.2 hids⟩)
      rfl rfl

/-! ## Writes -/

theorem Midway.wp_insertMemory (h : Midway s₀ p s) (now : Int) (data : MemoryData) :
    Tx.wp (MemoryStore.Conversation.insertMemory now data)
      (fun id s' => Midway s₀ { p with owed := owe p.owed data.mediaObjectId (-1) } s' ∧ s₀.nextId ≤ id ∧
        (s'.findMemory id).isSome ∧ s.Grows s') (·.benign = true) s := by
  unfold MemoryStore.Conversation.insertMemory generateId
  simp only [Tx.wp_bind, Tx.wp_reads, Tx.wp_writes, Tx.wp_pure, Tx.wp_get, Tx.wp_ensure]
  refine ⟨fun _ => ?_, fun _ => rfl⟩
  have hnew : ∀ row ∈ s.memories, row.id ≠ s.nextId := fun row hrow => (h.valid.memoryId_lt row hrow).ne
  refine ⟨?_, h.later, ?_, ?_⟩
  · have h₁ := h.bumpId.insertMemory (d := data.inserted now) (Nat.lt_succ_self _) h.later hnew
    exact h₁
  · rw [Store.findMemory_insertMemory (s := { s with nextId := s.nextId + 1 }) hnew, if_pos rfl]
    rfl
  · exact Store.Grows.insertMemory { s with nextId := s.nextId + 1 } _ _

/-- An update of a memory that is perhaps not there, by a function that leaves
the media object and the creation time alone. -/
theorem Midway.wp_modifyMemory (h : Midway s₀ p s) (id : Nat) {f : MemoryData → MemoryData}
    (hf : ∀ data, (f data).createdAt = data.createdAt) (hmedia : ∀ data, (f data).mediaObjectId = data.mediaObjectId) :
    Tx.wp (MemoryStore.Conversation.modifyMemory id f)
      (fun _ s' => Midway s₀ { p with memories := insert id p.memories } s' ∧ s.Grows s') (·.benign = true) s := by
  unfold MemoryStore.Conversation.modifyMemory
  simp only [Tx.wp_bind, Tx.wp_reads, Tx.wp_writes, Tx.wp_pure]
  refine ⟨?_, Store.Grows.modifyMemory _ _ _⟩
  cases hfind : s.findMemory id with
  | none =>
    have hsame : s.modifyMemory id f = s := by
      unfold Store.modifyMemory
      rw [modifyWhere_of_none]
      intro row hrow
      simpa using List.find?_eq_none.1 hfind row hrow
    rw [hsame]
    exact h.mono (fun _ hk => .inr hk) (fun _ hk => hk) (fun _ hk => hk) rfl rfl
  | some row =>
    obtain ⟨-, rfl⟩ := Store.findMemory_mem hfind
    exact h.modifyMemory_kept hfind hf (hmedia _)

/-- Attach memories that are there to a thread that is there. -/
theorem Midway.attachAll (h : Midway s₀ p s) (now : Int) {threadId : Nat} {ids : List Nat}
    (hthread : (s.findThread threadId).isSome) (hids : ∀ id ∈ ids, (s.findMemory id).isSome) :
    Tx.wp (Tx.forEach ids fun id => insertOrIgnoreAutoPosition now threadId id)
      (fun _ s' => Midway s₀ { p with bounds := insert threadId p.bounds } s' ∧ s.Grows s') (·.benign = true) s := by
  refine (Tx.wp_forEach
    (I := fun rest s' => (Midway s₀ { p with bounds := insert threadId p.bounds } s' ∧ s.Grows s') ∧
      ∀ id ∈ rest, id ∈ ids) ?_ ⟨⟨?_, refl_of _ _⟩, fun _ hid => hid⟩).imp fun _ s' hs' => hs'.1
  · rintro a rest s' ⟨⟨hs', hgrows⟩, hrest⟩
    unfold insertOrIgnoreAutoPosition
    rw [Tx.wp_writes]
    have hmemory := hgrows.1 a (hids a (hrest a (by simp)))
    have ha := hs'.attach now (hgrows.2 _ hthread) hmemory
    refine ⟨⟨ha.mono (fun _ hk => hk) (fun _ hk => hk) (fun k hk => ?_) rfl rfl, ?_⟩,
      fun id hid => hrest id (by simp [hid])⟩
    · rcases hk with rfl | hk
      · exact .inl rfl
      · exact hk
    · exact trans_of _ hgrows (Store.Grows.attach _ _ _ _)
  · exact h.mono (fun _ hk => hk) (fun _ hk => hk) (fun _ hk => .inr hk) rfl rfl

theorem Midway.wp_addLabels (h : Midway s₀ p s) (now : Int) (threadId : Nat) (labels : List String) :
    Tx.wp (Tx.forEach labels fun label => MemoryStore.Conversation.addLabel now threadId label)
      (fun _ s' => Midway s₀ p s' ∧ s.SameMessages s' ∧ s.Grows s') (·.benign = true) s := by
  refine Tx.wp_forEach (I := fun _ s' => Midway s₀ p s' ∧ s.SameMessages s' ∧ s.Grows s') ?_
    ⟨h, refl_of _ _, refl_of _ _⟩
  rintro label rest s' ⟨hs', hsame, hgrows⟩
  unfold MemoryStore.Conversation.addLabel
  rw [Tx.wp_writes]
  refine ⟨hs'.addLabel now threadId label, ?_⟩
  obtain ⟨labels, he⟩ := Store.addLabel_eq (s := s') now threadId label
  rw [he]
  exact ⟨hsame, hgrows⟩

end MemoryStore.Conversation
