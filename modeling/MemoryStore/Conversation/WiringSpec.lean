/-
What the calls do to the wiring: every program keeps it, the two that change a
role or attach without a check under a condition on what they are given.
-/
import MemoryStore.Conversation.BatchSpec
import MemoryStore.Conversation.Wiring

namespace MemoryStore.Conversation

open Table

variable {s s' s₁ : Store} {kept : Set (Nat × Nat)} {x : Loose}

/-- Any failure: nothing is committed. -/
abbrev Fails : AppError → Prop := fun _ => True

theorem Checks.then {α : Type} {m : StoreTx α} (h : Checks m) {Q : α → Store → Prop} (hQ : ∀ a, Q a s) :
    Tx.wp m Q Fails s := (h.wp hQ).mono (fun _ _ hq => hq) fun _ _ => trivial

/-! ## Programs that leave the wiring alone -/

/-- Memories and attachments are untouched, and of the threads only what the wiring does not read. -/
def Store.Quiet (s s' : Store) : Prop := s.SameMessages s' ∧ s.SameWiring s'

instance : Std.Refl Store.Quiet := ⟨fun _ => ⟨refl_of _ _, refl_of _ _⟩⟩

instance : IsTrans Store Store.Quiet := ⟨fun _ _ _ h h' => ⟨trans_of _ h.1 h'.1, trans_of _ h.2 h'.2⟩⟩

theorem Store.Quiet.modifyMedia (s : Store) (id : Nat) (g : MediaObjectRow → Bool)
    (f : MediaObjectRow → MediaObjectRow) : s.Quiet (s.modifyMedia id g f) := ⟨⟨rfl, rfl⟩, .modifyMedia s id g f⟩

theorem Store.Quiet.wired (hs : s.Quiet s') (h : s.Wired kept x) : s'.Wired kept x := h.same hs.2

theorem Store.Quiet.attached (hs : s.Quiet s') {threadId memoryId : Nat} :
    s'.Attached threadId memoryId ↔ s.Attached threadId memoryId := hs.2.attached

theorem refreshMessageBounds_quiet (now : Int) (id : Nat) : Tx.Does Store.Quiet Fails (refreshMessageBounds now id) := by
  refine Tx.Does.get.bind fun s => ?_
  refine Tx.Does.bind (Tx.Does.writes fun s' => ⟨⟨rfl, rfl⟩, ?_⟩) fun _ => Tx.Does.pure _
  exact Store.SameWiring.modifyThreads s' _ fun _ => rfl

theorem refreshMessageBoundsForThreadIds_quiet (now : Int) (ids : List Nat) :
    Tx.Does Store.Quiet Fails (refreshMessageBoundsForThreadIds now ids) :=
  Tx.Does.forEach fun id _ => (refreshMessageBounds_quiet now id).bind fun _ => Tx.Does.pure _

theorem addLabels_quiet (now : Int) (threadId : Nat) (labels : List String) :
    Tx.Does Store.Quiet Fails (Tx.forEach labels fun label => addLabel now threadId label) := by
  refine Tx.Does.forEach fun label _ => Tx.Does.writes fun s => ?_
  refine ⟨?_, .addLabel s now threadId label⟩
  obtain ⟨labels, he⟩ := Store.addLabel_eq (s := s) now threadId label
  rw [he]
  exact ⟨rfl, rfl⟩

theorem replaceLabels_quiet (now : Int) (id : Nat) (desired : List String) :
    Tx.Does Store.Quiet Fails (replaceLabels now id desired) := by
  refine Tx.Does.get.bind fun s => ?_
  refine Tx.Does.bind (Tx.Does.writes fun s' => ⟨⟨rfl, rfl⟩, .setLabels s' _⟩) fun _ => ?_
  exact (addLabels_quiet now id _).bind fun _ => Tx.Does.pure _

theorem updateMediaRefs_quiet (now : Int) (a b : Option Nat) : Tx.Does Store.Quiet Fails (updateMediaRefs now a b) := by
  have hincr := fun id : Nat => incrRef_does Store.Quiet.modifyMedia now id
  have hdecr := fun id : Nat => decrAndMaybeClaim_does Store.Quiet.modifyMedia now id
  cases a with
  | none =>
    cases b with
    | none => exact Tx.Does.pure _
    | some b =>
      exact Tx.Does.get.bind fun _ => (Tx.Does.ensure trivial).bind fun _ => (hincr b).bind fun _ =>
        (Tx.Does.ensure trivial).bind fun _ => Tx.Does.pure _
  | some a =>
    cases b with
    | none => exact (hdecr a).bind fun _ => Tx.Does.pure _
    | some b =>
      refine Tx.Does.ite (fun _ => Tx.Does.pure _) fun _ => (hdecr a).bind fun _ => ?_
      exact (hincr b).bind fun _ => (Tx.Does.ensure trivial).bind fun _ => Tx.Does.pure _

/-! ## The checks of kinds and defaults -/

theorem resolvePreservedKind_eq (requested stored : Int) (operation : String) :
    Tx.wp (resolvePreservedKind requested stored operation)
      (fun kind s' => s' = s ∧ kind = effectiveKind stored) Fails s := by
  unfold resolvePreservedKind
  simp only
  split
  · rw [Tx.wp_bind]
    refine (validateExplicitKind_checks requested).then fun _ => ?_
    rw [Tx.wp_bind]
    exact (Checks.ensure rfl).then fun _ => ⟨rfl, rfl⟩
  · exact ⟨rfl, rfl⟩

theorem preserveMemoryKindForUpdate_eq (memory : MemoryData) (stored : Int) (operation : String) :
    Tx.wp (preserveMemoryKindForUpdate memory stored operation)
      (fun w s' => s' = s ∧ w = { memory with memoryKind := effectiveKind stored }) Fails s := by
  unfold preserveMemoryKindForUpdate
  rw [Tx.wp_bind]
  refine (resolvePreservedKind_eq _ _ _).imp fun kind s' ⟨he, hk⟩ => ?_
  subst he hk
  exact ⟨rfl, rfl⟩

theorem preserveThreadKindForUpdate_eq (thread : ThreadData) (stored : Int) (operation : String) :
    Tx.wp (preserveThreadKindForUpdate thread stored operation)
      (fun w s' => s' = s ∧ w = { thread with memoryKind := effectiveKind stored }) Fails s := by
  unfold preserveThreadKindForUpdate
  rw [Tx.wp_bind]
  refine (resolvePreservedKind_eq _ _ _).imp fun kind s' ⟨he, hk⟩ => ?_
  subst he hk
  exact ⟨rfl, rfl⟩

theorem validateMemoryKindMatchesThread_eq (kind : Int) (memory : MemoryData) :
    Tx.wp (validateMemoryKindMatchesThread kind memory)
      (fun _ s' => s' = s ∧ effectiveKind memory.memoryKind = effectiveKind kind) Fails s := by
  unfold validateMemoryKindMatchesThread
  rw [Tx.wp_ensure]
  exact ⟨fun h => ⟨rfl, by simpa using h⟩, fun _ => trivial⟩

theorem validateParents_eq (kind : Int) : ∀ (parents : List MemoryRow) (s : Store),
    Tx.wp (Tx.forEach parents fun parent => validateMemoryKindMatchesThread kind parent.data)
      (fun _ s' => s' = s ∧ ∀ parent ∈ parents, parent.kind = effectiveKind kind) Fails s
  | [], _ => ⟨rfl, by simp⟩
  | parent :: parents, s => by
    simp only [Tx.forEach, Tx.wp_bind]
    refine (validateMemoryKindMatchesThread_eq kind parent.data).imp fun _ s' hout => ?_
    obtain ⟨he, hk⟩ := hout
    subst he
    refine (validateParents_eq kind parents s').imp fun _ s' hout => ⟨hout.1, ?_⟩
    have hks := hout.2
    rintro p hp
    rcases List.mem_cons.1 hp with rfl | hp
    · exact hk
    · exact hks p hp

/-- What a default system memory has to be. -/
def Store.IsDefaultFor (s : Store) (kind : Int) (id : Nat) : Prop :=
  ∃ memory ∈ s.memories, memory.id = id ∧ memory.data.role = roleSystem ∧ memory.kind = kind

theorem validateDefaultSystemMemoryId_eq (defaultId : Option Nat) (kind : Int) :
    Tx.wp (validateDefaultSystemMemoryId defaultId kind)
      (fun answer s' => s' = s ∧ ∀ id, answer = some id → s.IsDefaultFor (effectiveKind kind) id) Fails s := by
  unfold validateDefaultSystemMemoryId
  split
  · exact ⟨rfl, fun id he => by simp at he⟩
  · exact ⟨rfl, fun id he => by simp at he⟩
  · next id _ =>
    rw [Tx.wp_bind, Tx.wp_get]
    split
    · exact trivial
    · next memory hfind =>
      obtain ⟨hmem, hid⟩ := Store.findMemory_mem hfind
      rw [Tx.wp_bind, Tx.wp_ensure]
      refine ⟨fun hrole => ?_, fun _ => trivial⟩
      rw [Tx.wp_bind]
      refine (validateMemoryKindMatchesThread_eq _ _).imp fun _ s' ⟨he, hk⟩ => ⟨he, fun k hc => ?_⟩
      subst he
      obtain rfl := Option.some.inj hc
      exact ⟨memory, hmem, hid, by simpa using hrole, hk⟩

/-! ## Attachments -/

theorem Store.attach_of_attached (now : Int) {threadId memoryId : Nat} (h : s.Attached threadId memoryId) :
    s.attach now threadId memoryId = s := by
  unfold Store.attach
  rw [if_pos (Store.attached_iff.1 h)]

/-- Attachments are added, and nothing else changes. -/
structure Store.Attaches (s s' : Store) : Prop where
  memories : s'.memories = s.memories
  threads : s'.threads = s.threads
  nextId : s'.nextId = s.nextId
  attached : ∀ t m, s.Attached t m → s'.Attached t m

instance : Std.Refl Store.Attaches := ⟨fun _ => ⟨rfl, rfl, rfl, fun _ _ h => h⟩⟩

instance : IsTrans Store Store.Attaches :=
  ⟨fun _ _ _ h h' => ⟨h'.memories.trans h.memories, h'.threads.trans h.threads, h'.nextId.trans h.nextId,
    fun t m hm => h'.attached t m (h.attached t m hm)⟩⟩

theorem Store.Attaches.attach (s : Store) (now : Int) (threadId memoryId : Nat) :
    s.Attaches (s.attach now threadId memoryId) where
  memories := Store.attach_memories now threadId memoryId
  threads := Store.attach_threads now threadId memoryId
  nextId := Store.attach_nextId now threadId memoryId
  attached _ _ h := h.attach now threadId memoryId

/-- The memory may be attached to the thread. -/
def Store.Fit (s : Store) (x : Loose) (threadId memoryId : Nat) : Prop :=
  memoryId < s.nextId ∧ (threadId ∉ x.mixed → ∀ thread ∈ s.threads, thread.id = threadId →
    ∀ memory ∈ s.memories, memory.id = memoryId → memory.kind = thread.kind)

theorem Store.Attaches.fit (h : s.Attaches s') {threadId memoryId : Nat} (hf : s.Fit x threadId memoryId) :
    s'.Fit x threadId memoryId := by
  unfold Store.Fit
  rw [h.nextId, h.threads, h.memories]
  exact hf

theorem Store.Wired.attachAll (now : Int) {threadId : Nat} : ∀ {ids : List Nat} {s : Store}, s.Wired kept x →
    threadId < s.nextId → (∀ id ∈ ids, s.Fit x threadId id) →
    Tx.wp (Tx.forEach ids fun id => insertOrIgnoreAutoPosition now threadId id)
      (fun _ s' => s'.Wired kept x ∧ s.Attaches s' ∧ ∀ id ∈ ids, s'.Attached threadId id) Fails s
  | [], _, h, _, _ => ⟨h, refl_of _ _, by simp⟩
  | id :: ids, s, h, hthread, hids => by
    unfold insertOrIgnoreAutoPosition
    simp only [Tx.forEach, Tx.wp_bind, Tx.wp_writes]
    have hfit := hids id (by simp)
    have ha := Store.Attaches.attach s now threadId id
    have h₁ := h.attach now hthread hfit.1 hfit.2
    refine (h₁.attachAll now (by rw [ha.nextId]; exact hthread) fun k hk => ha.fit (hids k (by simp [hk]))).imp
      fun _ s₂ hout => ?_
    obtain ⟨h₂, ha₂, hall⟩ := hout
    refine ⟨h₂, trans_of _ ha ha₂, fun k hk => ?_⟩
    rcases List.mem_cons.1 hk with rfl | hk
    · exact ha₂.attached _ _ (Store.attached_attach now threadId k)
    · exact hall k hk

/-- Attaching what is attached does nothing. -/
theorem attachAll_nothing (now : Int) {threadId : Nat} : ∀ {ids : List Nat},
    (∀ id ∈ ids, s.Attached threadId id) →
    Tx.wp (Tx.forEach ids fun id => insertOrIgnoreAutoPosition now threadId id) (fun _ s' => s' = s) Fails s
  | [], _ => rfl
  | id :: ids, hids => by
    unfold insertOrIgnoreAutoPosition
    simp only [Tx.forEach, Tx.wp_bind, Tx.wp_writes]
    rw [Store.attach_of_attached now (hids id (by simp))]
    exact attachAll_nothing now fun k hk => hids k (by simp [hk])

/-! ## Calls on memories -/

theorem insertMemory_wires (h : s.Wired kept x) (now : Int) (data : MemoryData) :
    Tx.wp (insertMemory now data)
      (fun id s' => s'.Wired kept x ∧ id = s.nextId ∧ s'.nextId = s.nextId + 1 ∧ s'.threads = s.threads ∧
        s'.threadMemories = s.threadMemories ∧ s'.memories = s.memories ++ [⟨s.nextId, data.inserted now⟩]) Fails s := by
  unfold insertMemory generateId
  simp only [Tx.wp_bind, Tx.wp_reads, Tx.wp_writes, Tx.wp_pure, Tx.wp_get, Tx.wp_ensure]
  refine ⟨fun _ => ⟨h.insertMemory (data.inserted now), ?_⟩, fun _ => trivial⟩
  simp [Store.insertMemory]

theorem createMemory_wires [Deployment] (h : s.Wired kept x) (now : Int) (groups : GroupAnswers)
    (memory : MemoryData) : Tx.wp (createMemory now groups memory) (fun _ s' => s'.Wired kept x) Fails s := by
  unfold createMemory
  rw [Tx.wp_bind]
  refine (normalizeMemoryForCreate_checks _ _).then fun memory => ?_
  rw [Tx.wp_bind]
  refine (validateLegacySummaryTarget_checks _ _).then fun _ => ?_
  rw [Tx.wp_bind]
  refine (linkMedia_does Store.Quiet.modifyMedia now memory.mediaObjectId s).imp fun _ s₁ hs₁ => ?_
  exact (insertMemory_wires (hs₁.wired h) now memory).imp fun _ s₂ h₂ => h₂.1

/-- An update keeps the wiring if it keeps the default system memories system memories. -/
theorem updateMemory_wires (h : s.Wired kept x) (now : Int) (groups : GroupAnswers) (id : Nat)
    (memory : Option MemoryData)
    (hrole : ∀ w, memory = some w → w.role = roleSystem ∨
      ∀ thread ∈ s.threads, thread.defaultSystemMemoryId = some id → thread.id ∈ x.unanchored) :
    Tx.wp (updateMemory now groups id memory) (fun _ s' => s'.Wired kept x) Fails s := by
  cases memory with
  | none => exact h
  | some requested =>
    unfold updateMemory
    rw [Tx.wp_bind, Tx.wp_get]
    split
    · exact h
    · next row stored hfind =>
      obtain ⟨hmem, hid⟩ := Store.findMemory_mem hfind
      simp only at hid
      subst hid
      rw [Tx.wp_bind, Tx.wp_ensure]
      refine ⟨fun _ => ?_, fun _ => trivial⟩
      rw [Tx.wp_bind]
      refine (preserveMemoryKindForUpdate_eq _ _ _).imp fun w s' ⟨he, hw⟩ => ?_
      subst he
      rw [Tx.wp_bind]
      refine (validateLegacySummaryTarget_checks _ _).then fun _ => ?_
      rw [Tx.wp_bind]
      refine (updateMediaRefs_quiet now _ _ s').imp fun jobs s₁ hs₁ => ?_
      have h₁ := hs₁.wired h
      unfold updateMemoryRow modifyMemory
      simp only [Tx.wp_bind, Tx.wp_reads, Tx.wp_writes, Tx.wp_pure, Tx.wp_ensure]
      refine ⟨fun _ => h₁.modifyMemory (fun r hr he => ?_) fun thread ht hn hd r _ _ => ?_, fun _ => trivial⟩
      · have hr' : r = ⟨row, stored⟩ := h₁.memory_eq hr (hs₁.1.1 ▸ hmem) he
        subst hr'
        show effectiveKind w.memoryKind = _
        rw [hw]
        exact effectiveKind_effectiveKind _
      · show w.role = roleSystem
        rcases hrole requested rfl with hrole | hrole
        · rw [hw]
          exact hrole
        · obtain ⟨thread', ht', hid, hd', -⟩ := hs₁.2.thread ht
          exact absurd (hid ▸ hrole thread' ht' (hd'.trans hd)) hn

theorem updateContentOnly_same (now : Int) (id : Nat) (content : String) :
    Tx.wp (updateContentOnly now id content)
      (fun _ s' => s' = s.modifyMemory id fun stored => { stored with content, updatedAt := now }) Fails s := by
  unfold updateContentOnly modifyMemory
  simp only [Tx.wp_bind, Tx.wp_reads, Tx.wp_writes, Tx.wp_pure]

theorem updateContentOnly_wires (h : s.Wired kept x) (now : Int) (id : Nat) (content : String) :
    Tx.wp (updateContentOnly now id content) (fun _ s' => s'.Wired kept x) Fails s := by
  refine (updateContentOnly_same now id content).imp fun _ s' he => ?_
  rw [he]
  exact h.same (.modifyMemory s id (fun _ => rfl) fun _ => rfl)

theorem writeBackCaption_wires (h : s.Wired kept x) (now : Int) (id mediaObjectId : Nat) (caption : String) :
    Tx.wp (writeBackCaption now id mediaObjectId caption) (fun _ s' => s'.Wired kept x) Fails s := by
  unfold writeBackCaption
  split
  · exact h
  · rw [Tx.wp_bind, Tx.wp_get]
    split
    · exact h
    · split
      · exact h
      · split
        · exact h
        · rw [Tx.wp_bind]
          exact (updateContentOnly_wires h now id caption).imp fun _ s' h' => h'

/-- **The deletion of a memory** takes it from the threads it is the default of. -/
theorem deleteMemoryRdb_wires (h : s.Wired kept x) (now : Int) (id : Nat) :
    Tx.wp (deleteMemoryRdb now id) (fun _ s' => s'.Wired kept x) Fails s := by
  unfold deleteMemoryRdb
  rw [Tx.wp_bind, Tx.wp_get]
  split
  · exact h
  · unfold clearDefaultSystemMemory deleteAttachmentsByMemory
    simp only [Tx.wp_bind, Tx.wp_writes]
    have h₁ := (h.modifyThreads (q := fun row => row.defaultSystemMemoryId = some id)
      (f := fun row => { row with defaultSystemMemoryId := none }) (fun _ => rfl) (fun _ _ _ => rfl)
      fun _ _ _ => .inl rfl).mono (y := { x with parted := x.parted ∪ {pair | pair.2 = id} })
        (fun _ hk => hk) (fun _ hk => hk) fun _ hk => .inl hk
    have h₂ := h₁.detach (fun row => row.memoryId = id) (fun a _ hq thread ht _ _ hd => ?_) fun a _ hq => .inr (by simpa using hq)
    · refine (refreshMessageBoundsForThreadIds_quiet now _ _).imp fun _ s₃ hs₃ => ?_
      refine (unlinkMedia_does Store.Quiet.modifyMedia now _ s₃).imp fun _ s₄ hs₄ => ?_
      have hs : Store.Quiet _ s₄ := trans_of _ hs₃ hs₄
      unfold deleteMemoryRow
      simp only [Tx.wp_bind, Tx.wp_reads, Tx.wp_writes, Tx.wp_pure]
      refine ((hs.wired h₂).deleteMemories (q := fun row => row.id = id) fun row _ hq => ?_).gone rfl
        fun pair hp => .inr fun row hrow => ?_
      · rw [Store.unattached_iff]
        intro a ha he
        rw [hs.1.2] at ha
        have hne : a.memoryId ≠ id := by simpa using (List.mem_filter.1 ha).2
        exact hne (he.trans (by simpa using hq))
      · have hid : pair.2 = id := hp
        rw [hid]
        simpa using (List.mem_filter.1 hrow).2
    · obtain ⟨row, hrow, rfl⟩ := mem_modifyWhere.1 ht
      have hid : a.memoryId = id := by simpa using hq
      rw [hid] at hd
      split at hd
      · simp at hd
      · next hn => exact hn (by simpa using hd)

theorem deleteLinkedMemories_wires (h : s.Wired kept x) (now : Int) (ids : List Nat) :
    Tx.wp (deleteLinkedMemories now ids) (fun _ s' => s'.Wired kept x) Fails s := by
  unfold deleteLinkedMemories
  refine Tx.wp_collect_all (I := fun _ _ s' => Store.Wired kept x s') (fun id rest _ s₁ h₁ => ?_) h
  simp only [Tx.wp_bind, Tx.wp_ensure, Tx.wp_pure]
  exact (deleteMemoryRdb_wires h₁ now id).imp fun _ s₂ h₂ => ⟨fun _ => h₂, fun _ => trivial⟩

/-! ## Calls on threads -/

/-- A thread whose default system memory has been checked is anchored by attaching it. -/
theorem anchorDefault_wires {t : ThreadRow}
    (h : s.Wired kept { x with unanchored := insert t.id x.unanchored }) (now : Int) (ht : t ∈ s.threads)
    (hd : ∀ d, t.defaultSystemMemoryId = some d → s.IsDefaultFor t.kind d) :
    Tx.wp (anchorDefault now t.id t.defaultSystemMemoryId) (fun _ s' => s'.Wired kept x) Fails s := by
  cases hdef : t.defaultSystemMemoryId with
  | none =>
    refine h.anchor rfl fun row ht' he d hd' => ?_
    rw [h.thread_eq ht' ht he, hdef] at hd'
    simp at hd'
  | some d =>
    unfold anchorDefault insertOrIgnoreAutoPosition
    simp only [Tx.wp_bind, Tx.wp_writes]
    have hfor := hd d hdef
    obtain ⟨memory, hm, hmid, -, hkind⟩ := hfor
    have h₁ := h.attach now (h.threadId_lt t ht) (hmid ▸ h.memoryId_lt memory hm) fun _ row ht' het m hm' hme => by
      rw [h.memory_eq hm' hm (hme.trans hmid.symm), h.thread_eq ht' ht het]
      exact hkind
    refine (refreshMessageBounds_quiet now t.id _).imp fun _ s₂ hs₂ => hs₂.wired ?_
    refine h₁.anchor rfl fun row ht' het d' hd' => ?_
    rw [Store.attach_threads] at ht'
    rw [Store.attach_memories]
    obtain rfl := h.thread_eq ht' ht het
    obtain rfl : d = d' := Option.some.inj (hdef.symm.trans hd')
    exact ⟨Store.attached_attach now row.id d, hd d hdef⟩

theorem createThread_wires [Deployment] (h : s.Wired kept x) (now : Int) (thread : ThreadData) :
    Tx.wp (createThread now thread) (fun _ s' => s'.Wired kept x) Fails s := by
  unfold createThread
  rw [Tx.wp_bind]
  refine (normalizeThreadForCreate_checks _ _).then fun thread => ?_
  rw [Tx.wp_bind]
  refine (validateMetadata_checks _).then fun _ => ?_
  rw [Tx.wp_bind]
  refine (validateDefaultSystemMemoryId_eq _ _).imp fun defaultId s' ⟨he, hdefault⟩ => ?_
  subst he
  unfold insertThread generateId
  simp only [Tx.wp_bind, Tx.wp_reads, Tx.wp_writes, Tx.wp_pure]
  have h₁ := (h.mono (y := { x with unanchored := insert s'.nextId x.unanchored }) (fun _ hk => hk)
    (fun _ hk => .inr hk) fun _ hk => hk).insertThread
      (r := ThreadData.row now s'.nextId { thread with defaultSystemMemoryId := defaultId }) rfl (.inr (.inl rfl))
  refine (anchorDefault_wires (t := ThreadData.row now s'.nextId { thread with defaultSystemMemoryId := defaultId })
    h₁ now (List.mem_append_right _ (List.mem_singleton.2 rfl)) hdefault).imp fun _ s₂ h₂ => ?_
  refine (validateLabels_checks _).then fun labels => ?_
  exact (addLabels_quiet now s'.nextId labels s₂).imp fun _ s₃ hs₃ => hs₃.wired h₂

/-- The row of a thread after the `UPDATE`, run or not. -/
theorem updateThreadIf_wires (h : s.Wired kept x) (now : Int) {existing : ThreadRow} (ht : existing ∈ s.threads)
    {w : ThreadData} (hkind : effectiveKind w.memoryKind = existing.kind) :
    Tx.wp (updateThreadIf (existing.differs w) now existing.id w)
      (fun _ s' => s'.Wired kept { x with unanchored := insert existing.id x.unanchored } ∧
        s'.memories = s.memories ∧ ∃ thread ∈ s'.threads, thread.id = existing.id ∧
          thread.defaultSystemMemoryId = w.defaultSystemMemoryId ∧ thread.kind = existing.kind) Fails s := by
  have hx := h.mono (y := { x with unanchored := insert existing.id x.unanchored }) (fun _ hk => hk)
    (fun _ hk => .inr hk) fun _ hk => hk
  unfold updateThreadIf
  split
  · unfold updateThreadRow
    simp only [Tx.wp_bind, Tx.wp_reads, Tx.wp_writes, Tx.wp_pure, Tx.wp_ensure]
    refine ⟨fun _ => ⟨hx.modifyThreads (fun _ => rfl) (fun row hrow hq => ?_) fun row _ hq => ?_, rfl, ?_⟩,
      fun _ => trivial⟩
    · rw [h.thread_eq hrow ht (by simpa using hq)]
      exact hkind
    · exact .inr (.inl (by simpa using hq))
    · exact ⟨existing.updated now w, mem_modifyWhere.2 ⟨existing, ht, by simp⟩, rfl, rfl, hkind⟩
  · next hdiffers =>
    refine ⟨hx, rfl, existing, ht, rfl, ?_, rfl⟩
    simp only [ThreadRow.differs, Bool.or_eq_true, not_or, decide_eq_true_eq, ne_eq, not_not] at hdiffers
    exact hdiffers.1.1.1.1.1.1

theorem updateThread_wires [Deployment] (h : s.Wired kept x) (now : Int) (id : Nat) (thread : Option ThreadData) :
    Tx.wp (updateThread now id thread) (fun _ s' => s'.Wired kept x) Fails s := by
  cases thread with
  | none => exact h
  | some w =>
    unfold updateThread
    rw [Tx.wp_bind]
    refine (validateMetadata_checks _).then fun _ => ?_
    rw [Tx.wp_bind, Tx.wp_get]
    split
    · exact trivial
    · next existing hfind =>
      obtain ⟨hmem, rfl⟩ := Store.findThread_mem hfind
      rw [Tx.wp_bind]
      refine (preserveThreadKindForUpdate_eq _ _ _).imp fun toUpdate s' ⟨he, hw⟩ => ?_
      subst he
      rw [Tx.wp_bind, Tx.wp_ensure]
      refine ⟨fun _ => ?_, fun _ => trivial⟩
      rw [Tx.wp_bind]
      refine (validateDefaultSystemMemoryId_eq _ _).imp fun defaultId s₁ ⟨he, hdefault⟩ => ?_
      subst he
      have hkind : effectiveKind toUpdate.memoryKind = existing.kind := by
        rw [hw]
        exact effectiveKind_effectiveKind _
      rw [Tx.wp_bind]
      refine (updateThreadIf_wires h now hmem (w := { toUpdate with defaultSystemMemoryId := defaultId }) hkind).imp fun _ s₂ ⟨h₂, hmemories, row, hrow, hid, hdef, hk⟩ => ?_
      rw [Tx.wp_bind]
      refine (validateLabels_checks _).then fun labels => ?_
      rw [Tx.wp_bind]
      simp only at hdef
      rw [← hid] at h₂
      rw [← hid, ← hdef]
      refine (anchorDefault_wires h₂ now hrow fun d hd => ?_).imp fun _ s₃ h₃ => ?_
      · unfold Store.IsDefaultFor
        rw [hmemories, hk, ← hkind]
        exact hdefault d (hdef ▸ hd)
      · rw [Tx.wp_bind]
        exact (replaceLabels_quiet now row.id labels s₃).imp fun _ s₄ hs₄ => hs₄.wired h₃

/-- **The deletion of a thread** takes no memory another thread holds. -/
theorem deleteThreadInTx_wires (h : s.Wired kept x) (now : Int) (id : Nat) :
    Tx.wp (deleteThreadInTx now id) (fun _ s' => s'.Wired kept x) Fails s := by
  unfold deleteThreadInTx deleteAttachmentsByThread deleteOrphanedByIds deleteLabelsByThread deleteThreadRow
  simp only [Tx.wp_bind, Tx.wp_get, Tx.wp_writes, Tx.wp_reads, Tx.wp_pure]
  have h₁ := (h.mono (y := { x with
      unanchored := insert id x.unanchored, parted := x.parted ∪ {pair | pair.1 = id} })
      (fun _ hk => hk) (fun _ hk => .inr hk) fun _ hk => .inl hk).detach (fun row => row.threadId = id)
    (fun a _ hq thread _ he hn => absurd (.inl (he.trans (by simpa using hq))) hn)
    fun a _ hq => .inr (by simpa using hq)
  have h₂ := h₁.deleteMemories (q := (s.detach fun row => row.threadId = id).isOrphanOf (s.memoryIdsByThread id))
    fun row _ hq => by
      simp only [Store.isOrphanOf, Bool.and_eq_true] at hq
      exact hq.2
  refine (releaseMedia_does Store.Quiet.modifyMedia now _ _ _).imp fun jobs s₃ hs₃ => ?_
  have h₄ := ((hs₃.wired h₂).same (.setLabels s₃ (s₃.threadLabels.filter fun row => !decide (row.threadId = id)))).deleteThread id
  have hnone : ∀ row ∈ ((s₃.removeLabels fun row => row.threadId = id).deleteThread id).threads, row.id ≠ id := by
    intro row hrow
    simpa using (List.mem_filter.1 hrow).2
  refine (h₄.gone (y := { x with unanchored := insert id x.unanchored }) rfl fun pair hp => .inl fun row hrow => ?_).anchor
    (y := x) rfl fun thread ht he => absurd he (hnone thread ht)
  have hid : pair.1 = id := hp
  rw [hid]
  exact hnone row hrow

theorem deleteThreads_wires (h : s.Wired kept x) (now : Int) (ids : List Nat) :
    Tx.wp (deleteThreads now ids) (fun _ s' => s'.Wired kept x) Fails s := by
  unfold deleteThreads
  refine Tx.wp_collect_all (I := fun _ _ s' => Store.Wired kept x s') (fun id rest _ s₁ h₁ => ?_) h
  simp only [Tx.wp_bind, Tx.wp_pure]
  exact (deleteThreadInTx_wires h₁ now id).imp fun _ s₂ h₂ => h₂

end MemoryStore.Conversation
