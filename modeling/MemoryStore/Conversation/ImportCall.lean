/-
The call around the loops of an import: its checks, which do not look at the
database, and the thread it writes to, which a second call finds again.
-/
import MemoryStore.Conversation.ImportRefines

namespace MemoryStore.Conversation

variable {s s' s₁ : Store}

/-! ## Checks -/

theorem prescan_blind : ∀ (idx : Nat) (seen : List String) (memories : List BatchMemoryInput),
    Tx.Blind (prescan idx seen memories)
  | _, _, [] => Tx.Blind.pure _
  | idx, _, _ :: rest => (Tx.Blind.ensure _ _).bind fun _ => (Tx.Blind.ensure _ _).bind fun _ =>
      prescan_blind (idx + 1) _ rest

/-- The external ids collected, each once. -/
theorem prescan_eids : ∀ (memories : List BatchMemoryInput) (idx : Nat) {seen eids : List String} {s s' : Store},
    prescan idx seen memories s = .ok (eids, s') → seen.Nodup →
      eids = seen ++ memories.flatMap (fun item => item.externalId?.toList) ∧ eids.Nodup
  | [], _, seen, eids, _, _, h, hseen => by
    obtain rfl : seen = eids := (Prod.mk.inj (Except.ok.inj h)).1
    exact ⟨by simp, hseen⟩
  | item :: rest, idx, seen, eids, _, _, h, hseen => by
    rw [prescan, Tx.bind_ok_iff] at h
    obtain ⟨_, _, -, h⟩ := h
    rw [Tx.bind_ok_iff] at h
    obtain ⟨_, _, hensure, h⟩ := h
    have hnew := (Tx.ensure_ok_iff.1 hensure).1
    have hnodup : (seen ++ item.externalId?.toList).Nodup := by
      refine List.nodup_append.2 ⟨hseen, ?_, fun a ha b hb he => ?_⟩
      · cases item.externalId? <;> simp
      · have hb' := List.all_eq_true.1 hnew b hb
        exact absurd (he ▸ ha) (by simpa using hb')
    obtain ⟨heq, hn⟩ := prescan_eids rest (idx + 1) h hnodup
    exact ⟨by rw [heq, List.flatMap_cons, List.append_assoc], hn⟩

theorem requireUserIds_blind : ∀ (idx : Nat) (memories : List BatchMemoryInput), Tx.Blind (requireUserIds idx memories)
  | _, [] => Tx.Blind.pure _
  | idx, _ :: rest => (Tx.Blind.ensure _ _).bind fun _ => requireUserIds_blind (idx + 1) rest

theorem bailIf_blind (refusal : Option String) : Tx.Blind (bailIf refusal) := by
  cases refusal with
  | none => exact Tx.Blind.pure ()
  | some message => exact Tx.Blind.fail _

theorem bailIf_ok_iff {refusal : Option String} {a : Unit} : bailIf refusal s = .ok (a, s') ↔ refusal = none ∧ s' = s := by
  cases refusal with
  | none =>
    show Except.ok ((), s) = Except.ok (a, s') ↔ _
    simp [eq_comm]
  | some message =>
    show (Except.error (AppError.bail message) : Except AppError (Unit × Store)) = Except.ok (a, s') ↔ _
    simp

theorem validateExplicitKind_blind (kind : Int) : Tx.Blind (validateExplicitKind kind) := Tx.Blind.ensure _ _

theorem resolvePreservedKind_blind (requested stored : Int) (operation : String) :
    Tx.Blind (resolvePreservedKind requested stored operation) := by
  unfold resolvePreservedKind
  refine Tx.Blind.ite ?_ (Tx.Blind.pure _)
  exact (validateExplicitKind_blind _).bind fun _ => (Tx.Blind.ensure _ _).bind fun _ => Tx.Blind.pure _

/-! ## Threads by their keys -/

/-- A kind that a thread was created with is the kind it is asked for again. -/
theorem resolvePreservedKind_self {kind : Int} (h : 1 ≤ kind ∧ kind ≤ 8) (operation : String) (s : Store) :
    resolvePreservedKind kind kind operation s = .ok (kind, s) := by
  have hne : kind ≠ 0 := by omega
  have heffective : effectiveKind kind = kind := if_neg hne
  unfold resolvePreservedKind
  simp only [heffective, hne, ne_eq, not_false_eq_true, if_true]
  rw [Tx.bind_ok_iff]
  refine ⟨(), s, Tx.ensure_ok_iff.2 ⟨by simpa using h, rfl⟩, ?_⟩
  rw [Tx.bind_ok_iff]
  exact ⟨(), s, Tx.ensure_ok_iff.2 ⟨by simp, rfl⟩, rfl⟩

theorem Store.findThread_key (s : Store) (id : Nat) :
    (s.findThread id).map ThreadRow.key = (s.threads.map ThreadRow.key).find? fun key => key.1 = id := by
  unfold Store.findThread
  rw [List.find?_map]
  rfl

theorem Store.findByChannel_key (s : Store) (channel : String) (userId : Int) :
    (s.findByChannelAndUserId channel userId).map ThreadRow.key =
      (s.threads.map ThreadRow.key).filter fun key => key.2.1 = some channel && key.2.2.1 = userId := by
  unfold Store.findByChannelAndUserId
  rw [List.filter_map]
  rfl

/-- What a batch needs of its thread, again. -/
structure BatchThread.Again (thread thread' : BatchThread) : Prop where
  threadId : thread'.threadId = thread.threadId
  userId : thread'.userId = thread.userId
  memoryKind : effectiveKind thread'.memoryKind = effectiveKind thread.memoryKind

/-- The messages of the database are as they were, and the ids only grow. -/
structure Store.OpenedThread (s s₁ : Store) : Prop where
  nextId : s.nextId ≤ s₁.nextId
  memories : s₁.memories = s.memories
  threadMemories : s₁.threadMemories = s.threadMemories

/-- The mapping of the source identity after an import, if there is one, is the thread imported to. -/
def MappedTo (answers : ImportAnswers) (threadId : Nat) (mapped : Option Nat) : Prop :=
  mapped = answers.mappedThreadId ∨ mapped = some threadId

theorem refuseMapped_blind (answers : ImportAnswers) (threadId : Nat) : Tx.Blind (refuseMapped answers threadId) :=
  bailIf_blind _

theorem refuseMapped_ok {answers : ImportAnswers} {threadId : Nat}
    (h : answers.mappedThreadId = none ∨ answers.mappedThreadId = some threadId) (s : Store) :
    refuseMapped answers threadId s = .ok ((), s) := by
  unfold refuseMapped
  rw [bailIf_ok_iff]
  rcases h with h | h <;> simp [h]

theorem refuseMapped_again {answers : ImportAnswers} {a : Unit} {threadId : Nat} {mapped : Option Nat} (hmapped : MappedTo answers threadId mapped)
    (h : refuseMapped answers threadId s = .ok (a, s')) (s₂ : Store) :
    refuseMapped { answers with mappedThreadId := mapped } threadId s₂ = .ok ((), s₂) := by
  rcases hmapped with rfl | rfl
  · exact ((refuseMapped_blind answers threadId).ok h).2 s₂
  · exact refuseMapped_ok (.inr rfl) s₂

section Deployment

variable [Deployment]

theorem resolveCreatedKind_blind (kind : Int) (operation : String) : Tx.Blind (resolveCreatedKind kind operation) := by
  unfold resolveCreatedKind
  refine Tx.Blind.ite ?_ ?_
  · exact (validateExplicitKind_blind kind).bind fun _ => Tx.Blind.pure _
  · exact (Tx.Blind.ensure _ _).bind fun _ => Tx.Blind.pure _

theorem normalizeMemoryForCreate_blind (memory : MemoryData) (operation : String) :
    Tx.Blind (normalizeMemoryForCreate memory operation) :=
  (resolveCreatedKind_blind _ _).bind fun _ => Tx.Blind.pure _

theorem normalizeThreadForCreate_blind (thread : ThreadData) (operation : String) :
    Tx.Blind (normalizeThreadForCreate thread operation) :=
  (resolveCreatedKind_blind _ _).bind fun _ => Tx.Blind.pure _

theorem validateMetadata_blind (metadata : Option String) : Tx.Blind (validateMetadata metadata) := by
  cases metadata with
  | none => exact Tx.Blind.pure ()
  | some raw => exact (Tx.Blind.ensure _ _).bind fun _ => Tx.Blind.ensure _ _

theorem normalizeBatch_blind (kind : Int) (memories : List BatchMemoryInput) : Tx.Blind (normalizeBatch kind memories) := by
  refine Tx.Blind.collect (fun item => ?_) _
  exact (normalizeMemoryForCreate_blind _ _).bind fun _ => (Tx.Blind.ensure _ _).bind fun _ => Tx.Blind.pure _

/-- What normalization leaves of an entry. -/
def BatchMemoryInput.SameEntry (item item' : BatchMemoryInput) : Prop :=
  item'.externalId? = item.externalId? ∧ item'.parentExternalIds = item.parentExternalIds

theorem normalizeBatch_same {kind : Int} : ∀ {memories items : List BatchMemoryInput} {s s' : Store},
    normalizeBatch kind memories s = .ok (items, s') → List.Forall₂ BatchMemoryInput.SameEntry memories items
  | [], items, _, _, h => by
    obtain rfl : [] = items := (Prod.mk.inj (Except.ok.inj h)).1
    exact .nil
  | item :: rest, items, _, _, h => by
    unfold normalizeBatch at h
    rw [Tx.collect, Tx.bind_ok_iff] at h
    obtain ⟨item', s₁, hitem, h⟩ := h
    rw [Tx.bind_ok_iff] at h
    obtain ⟨items', s₂, hrest, h⟩ := h
    obtain rfl : item' :: items' = items := (Prod.mk.inj (Except.ok.inj h)).1
    refine .cons ?_ (@normalizeBatch_same kind rest items' _ _ hrest)
    rw [Tx.bind_ok_iff] at hitem
    obtain ⟨memory, s₃, hmemory, hitem⟩ := hitem
    rw [Tx.bind_ok_iff] at hitem
    obtain ⟨_, _, -, hitem⟩ := hitem
    obtain rfl : { item with memory } = item' := (Prod.mk.inj (Except.ok.inj hitem)).1
    obtain ⟨-, memoryKind, rfl⟩ := (normalizeMemoryForCreate_wp item.memory _).ok hmemory
    exact ⟨rfl, rfl⟩

/-- The kind of a thread counts only by what it means. -/
theorem normalizeBatch_congr {kind kind' : Int} (h : effectiveKind kind = effectiveKind kind')
    (memories : List BatchMemoryInput) : normalizeBatch kind memories = normalizeBatch kind' memories := by
  unfold normalizeBatch validateMemoryKindMatchesThread
  rw [h]

/-! ## The call -/

/-- The checks before the thread, whatever the state. -/
structure Prechecked (groups : GroupAnswers) (memories : List BatchMemoryInput) (batchEids : List String) : Prop where
  nonempty : memories.isEmpty = false
  prescan : ∀ s, prescan 0 [] memories s = .ok (batchEids, s)
  authors : ∀ s, requireUserIds 0 memories s = .ok ((), s)
  legacy : ∀ s, (Tx.forEach memories fun item => validateLegacySummaryTarget groups item.memory) s = .ok ((), s)

/-- What a call came through: its checks, its thread and the loops. -/
def Imports (now : Int) (answers : ImportAnswers) (input : AddMemoriesBatchInput) (s : Store)
    (output : AddMemoriesBatchOutput) (s' : Store) : Prop :=
  ∃ batchEids thread s₁ items, Prechecked answers.groups input.memories batchEids ∧
    resolveThread now answers input.threadTarget s = .ok (thread, s₁) ∧
    answers.identityUserId.all (fun owner => owner = thread.userId) = true ∧
    answers.keyRefusal thread.threadId = none ∧
    (∀ s, normalizeBatch thread.memoryKind input.memories s = .ok (items, s)) ∧
    writeBatch now thread input.upsertByExternalId input.labels items batchEids s₁ = .ok (output, s')

variable {now : Int} {answers : ImportAnswers} {input : AddMemoriesBatchInput} {output : AddMemoriesBatchOutput}

theorem addMemoriesBatch_imports (hsuppressed : answers.suppressed = false)
    (h : addMemoriesBatch now answers input s = .ok (output, s')) : Imports now answers input s output s' := by
  unfold addMemoriesBatch at h
  rw [Tx.bind_ok_iff] at h
  obtain ⟨_, s₁, hrun₁, h⟩ := h
  obtain ⟨hnonempty, rfl⟩ := Tx.ensure_ok_iff.1 hrun₁
  rw [Tx.bind_ok_iff] at h
  obtain ⟨batchEids, s₂, hrun₂, h⟩ := h
  obtain ⟨rfl, hprescan⟩ := (prescan_blind 0 [] input.memories).ok hrun₂
  rw [Tx.bind_ok_iff] at h
  obtain ⟨_, s₃, hrun₃, h⟩ := h
  obtain ⟨rfl, hauthors⟩ := (requireUserIds_blind 0 input.memories).ok hrun₃
  rw [hsuppressed] at h
  simp only [Bool.false_eq_true, if_false] at h
  rw [Tx.bind_ok_iff] at h
  obtain ⟨_, s₄, hrun₄, h⟩ := h
  obtain ⟨rfl, hlegacy⟩ := (Tx.Blind.forEach (fun item => bailIf_blind _) input.memories).ok hrun₄
  rw [Tx.bind_ok_iff] at h
  obtain ⟨thread, s₅, hthread, h⟩ := h
  rw [Tx.bind_ok_iff] at h
  obtain ⟨_, s₆, hrun₅, h⟩ := h
  obtain ⟨howner, rfl⟩ := Tx.ensure_ok_iff.1 hrun₅
  rw [Tx.bind_ok_iff] at h
  obtain ⟨_, s₇, hrun₆, h⟩ := h
  obtain ⟨hkey, rfl⟩ := bailIf_ok_iff.1 hrun₆
  rw [Tx.bind_ok_iff] at h
  obtain ⟨items, s₈, hrun₇, h⟩ := h
  obtain ⟨rfl, hitems⟩ := (normalizeBatch_blind _ _).ok hrun₇
  exact ⟨batchEids, thread, s₈, items, ⟨by simpa using hnonempty, hprescan, hauthors, hlegacy⟩, hthread, howner, hkey,
    hitems, h⟩

theorem Imports.run (h : Imports now answers input s output s') (hsuppressed : answers.suppressed = false) :
    addMemoriesBatch now answers input s = .ok (output, s') := by
  obtain ⟨batchEids, thread, s₁, items, hchecks, hthread, howner, hkey, hitems, hwrite⟩ := h
  unfold addMemoriesBatch
  rw [Tx.bind_ok_iff]
  refine ⟨(), s, Tx.ensure_ok_iff.2 ⟨by rw [hchecks.nonempty]; rfl, rfl⟩, ?_⟩
  rw [Tx.bind_ok_iff]
  refine ⟨batchEids, s, hchecks.prescan s, ?_⟩
  rw [Tx.bind_ok_iff]
  refine ⟨(), s, hchecks.authors s, ?_⟩
  rw [hsuppressed]
  simp only [Bool.false_eq_true, if_false]
  rw [Tx.bind_ok_iff]
  refine ⟨(), s, hchecks.legacy s, ?_⟩
  rw [Tx.bind_ok_iff]
  refine ⟨thread, s₁, hthread, ?_⟩
  rw [Tx.bind_ok_iff]
  refine ⟨(), s₁, Tx.ensure_ok_iff.2 ⟨howner, rfl⟩, ?_⟩
  rw [Tx.bind_ok_iff]
  refine ⟨(), s₁, bailIf_ok_iff.2 ⟨hkey, rfl⟩, ?_⟩
  rw [Tx.bind_ok_iff]
  exact ⟨items, s₁, hitems s₁, hwrite⟩

/-! ## The thread again -/

theorem resolveCreatedKind_range {kind created : Int} {operation : String}
    (h : resolveCreatedKind kind operation s = .ok (created, s')) : 1 ≤ created ∧ created ≤ 8 := by
  unfold resolveCreatedKind at h
  split at h
  · rw [Tx.bind_ok_iff] at h
    obtain ⟨_, _, hkind, h⟩ := h
    obtain rfl := (Prod.mk.inj (Except.ok.inj h)).1
    simpa using (Tx.ensure_ok_iff.1 hkind).1
  · rw [Tx.bind_ok_iff] at h
    obtain ⟨_, _, -, h⟩ := h
    obtain rfl : kindRaw = created := (Prod.mk.inj (Except.ok.inj h)).1
    decide

/-- The created kind of a thread's data, and nothing else, is filled in. -/
theorem normalizeThreadForCreate_ok {data data' : ThreadData} {operation : String}
    (h : normalizeThreadForCreate data operation s = .ok (data', s')) :
    data' = { data with memoryKind := data'.memoryKind } ∧ 1 ≤ data'.memoryKind ∧ data'.memoryKind ≤ 8 := by
  unfold normalizeThreadForCreate at h
  rw [Tx.bind_ok_iff] at h
  obtain ⟨memoryKind, s₁, hkind, h⟩ := h
  obtain ⟨rfl, -⟩ := Prod.mk.inj (Except.ok.inj h)
  exact ⟨rfl, resolveCreatedKind_range hkind⟩

/-- What is done once the channel is looked up. -/
def openChannel (now : Int) (answers : ImportAnswers) (data : ThreadData) : List ThreadRow → StoreTx BatchThread
  | [] => do
    Tx.ensure answers.mappedThreadId.isNone
      (.bail "source identity already maps to a Thread; refusing to create a new channel target Thread")
    let id ← insertThread now { data with defaultSystemMemoryId := none }
    pure ⟨id, true, data.userId.getD 0, data.memoryKind⟩
  | [thread] => do
    refuseMapped answers thread.id
    let memoryKind ← resolvePreservedKind data.memoryKind thread.memoryKind "ThreadService.AddMemoriesBatch"
    pure ⟨thread.id, false, thread.userId, memoryKind⟩
  | _ =>
    let channel := data.channel.getD ""
    let userId := data.userId.getD 0
    Tx.fail (.failedPrecondition s!"multiple threads for channel ({channel}, user {userId})")

theorem upsertByChannel_again {data : ThreadData} {thread : BatchThread} {s s₁ s' : Store}
    (h : upsertByChannel now answers data s = .ok (thread, s₁))
    (hkeys : s'.threads.map ThreadRow.key = s₁.threads.map ThreadRow.key) :
    s.OpenedThread s₁ ∧ ∀ (now' : Int) (mapped : Option Nat), MappedTo answers thread.threadId mapped →
      ∃ thread', upsertByChannel now' { answers with mappedThreadId := mapped } data s' = .ok (thread', s') ∧
        thread.Again thread' := by
  unfold upsertByChannel at h
  rw [Tx.bind_ok_iff] at h
  obtain ⟨normalized, s₂, hrun₂, h⟩ := h
  obtain ⟨rfl, hnormalize⟩ := (normalizeThreadForCreate_blind _ _).ok hrun₂
  obtain ⟨-, hkind⟩ := normalizeThreadForCreate_ok hrun₂
  rw [Tx.bind_ok_iff] at h
  obtain ⟨_, s₃, hrun₃, h⟩ := h
  obtain ⟨hsome, rfl⟩ := Tx.ensure_ok_iff.1 hrun₃
  rw [Tx.bind_ok_iff] at h
  obtain ⟨_, s₄, hrun₄, h⟩ := h
  obtain ⟨huser, rfl⟩ := Tx.ensure_ok_iff.1 hrun₄
  rw [Tx.bind_ok_iff] at h
  obtain ⟨_, s₅, hrun₅, h⟩ := h
  obtain ⟨hchannel, rfl⟩ := Tx.ensure_ok_iff.1 hrun₅
  rw [Tx.bind_ok_iff] at h
  obtain ⟨_, s₆, hrun₆, h⟩ := h
  obtain ⟨rfl, hmetadata⟩ := (validateMetadata_blind _).ok hrun₆
  rw [Tx.bind_ok_iff] at h
  obtain ⟨_, s₇, hrun₇, h⟩ := h
  obtain ⟨hdefault, rfl⟩ := Tx.ensure_ok_iff.1 hrun₇
  rw [Tx.get_bind] at h
  -- The checks pass again; what is left is the lookup of the channel.
  have hagain : ∀ (now' : Int) (answers' : ImportAnswers) (result : BatchThread × Store),
      openChannel now' answers' normalized
        (s'.findByChannelAndUserId (normalized.channel.getD "") (normalized.userId.getD 0)) s' = .ok result →
      upsertByChannel now' answers' data s' = .ok result := by
    intro now' answers' result hresult
    unfold upsertByChannel
    rw [Tx.bind_ok_iff]
    refine ⟨normalized, s', hnormalize s', ?_⟩
    rw [Tx.bind_ok_iff]
    refine ⟨(), s', Tx.ensure_ok_iff.2 ⟨hsome, rfl⟩, ?_⟩
    rw [Tx.bind_ok_iff]
    refine ⟨(), s', Tx.ensure_ok_iff.2 ⟨huser, rfl⟩, ?_⟩
    rw [Tx.bind_ok_iff]
    refine ⟨(), s', Tx.ensure_ok_iff.2 ⟨hchannel, rfl⟩, ?_⟩
    rw [Tx.bind_ok_iff]
    refine ⟨(), s', hmetadata s', ?_⟩
    rw [Tx.bind_ok_iff]
    refine ⟨(), s', Tx.ensure_ok_iff.2 ⟨hdefault, rfl⟩, ?_⟩
    rw [Tx.get_bind]
    exact hresult
  have hfound := s'.findByChannel_key (normalized.channel.getD "") (normalized.userId.getD 0)
  rw [hkeys, ← Store.findByChannel_key] at hfound
  have hone : ∀ row, s₁.findByChannelAndUserId (normalized.channel.getD "") (normalized.userId.getD 0) = [row] →
      ∃ row', s'.findByChannelAndUserId (normalized.channel.getD "") (normalized.userId.getD 0) = [row'] ∧
        row'.id = row.id ∧ row'.userId = row.userId ∧ row'.memoryKind = row.memoryKind := by
    intro row hrow
    rw [hrow, List.map_singleton] at hfound
    obtain ⟨row', hrow', hkey⟩ := List.map_eq_singleton_iff.1 hfound
    simp only [ThreadRow.key, Prod.mk.injEq] at hkey
    exact ⟨row', hrow', hkey.1, hkey.2.2.1, hkey.2.2.2⟩
  cases hlookup : s₇.findByChannelAndUserId (normalized.channel.getD "") (normalized.userId.getD 0) with
  | nil =>
    rw [hlookup] at h
    dsimp only at h
    rw [Tx.bind_ok_iff] at h
    obtain ⟨_, s₈, hrun₈, h⟩ := h
    obtain ⟨hmapped, rfl⟩ := Tx.ensure_ok_iff.1 hrun₈
    obtain ⟨rfl, rfl⟩ := Prod.mk.inj (Except.ok.inj h)
    have hname : normalized.channel = some (normalized.channel.getD "") := by
      cases hc : normalized.channel with
      | none => rw [hc] at hchannel; simp at hchannel
      | some channel => rfl
    obtain ⟨row', hrow', hid, hrowUser, hrowKind⟩ := hone (ThreadData.row now s₈.nextId
        { normalized with defaultSystemMemoryId := none }) (by
      have hnew : (ThreadData.row now s₈.nextId { normalized with defaultSystemMemoryId := none }).channel =
          some (normalized.channel.getD "") := hname
      unfold Store.findByChannelAndUserId at hlookup ⊢
      simp only [Store.insertThread, List.filter_append, hlookup, List.nil_append]
      rw [List.filter_cons_of_pos]
      · rfl
      · simp [hnew]
        rfl)
    refine ⟨⟨Nat.le_succ _, rfl, rfl⟩, fun now' mapped hmapped => ?_⟩
    have hmapped' : mapped = none ∨ mapped = some row'.id := by
      rcases hmapped with rfl | rfl
      · exact .inl (Option.isNone_iff_eq_none.1 hmapped)
      · exact .inr (congrArg some hid.symm)
    refine ⟨⟨row'.id, false, row'.userId, normalized.memoryKind⟩, hagain now' _ _ ?_, hid, hrowUser, rfl⟩
    rw [hrow', openChannel]
    rw [Tx.bind_ok_iff]
    refine ⟨(), s', refuseMapped_ok hmapped' s', ?_⟩
    rw [Tx.bind_ok_iff, hrowKind]
    exact ⟨normalized.memoryKind, s', resolvePreservedKind_self hkind _ s', rfl⟩
  | cons row rest =>
    cases rest with
    | nil =>
      rw [hlookup] at h
      dsimp only at h
      rw [Tx.bind_ok_iff] at h
      obtain ⟨_, s₈, hrun₈, h⟩ := h
      obtain ⟨rfl, -⟩ := (refuseMapped_blind _ _).ok hrun₈
      rw [Tx.bind_ok_iff] at h
      obtain ⟨memoryKind, s₉, hrun₉, h⟩ := h
      obtain ⟨rfl, hkind'⟩ := (resolvePreservedKind_blind _ _ _).ok hrun₉
      obtain ⟨rfl, rfl⟩ := Prod.mk.inj (Except.ok.inj h)
      obtain ⟨row', hrow', hid, hrowUser, hrowKind⟩ := hone row hlookup
      refine ⟨⟨Nat.le_refl _, rfl, rfl⟩, fun now' mapped hmapped => ?_⟩
      refine ⟨⟨row'.id, false, row'.userId, memoryKind⟩, hagain now' _ _ ?_, hid, hrowUser, rfl⟩
      rw [hrow', openChannel]
      rw [Tx.bind_ok_iff, hid]
      refine ⟨(), s', refuseMapped_again hmapped hrun₈ s', ?_⟩
      rw [Tx.bind_ok_iff, hrowKind]
      exact ⟨memoryKind, s', hkind' s', rfl⟩
    | cons second rest =>
      rw [hlookup] at h
      exact absurd h (by simp [Tx.fail])

/-- **The thread is found again** where the keys of the threads are as the call left them. -/
theorem resolveThread_again {target : BatchThreadTarget} {thread : BatchThread} {s s₁ s' : Store}
    (h : resolveThread now answers target s = .ok (thread, s₁))
    (hkeys : s'.threads.map ThreadRow.key = s₁.threads.map ThreadRow.key) :
    s.OpenedThread s₁ ∧ ∀ (now' : Int) (mapped : Option Nat), MappedTo answers thread.threadId mapped →
      ∃ thread', resolveThread now' { answers with mappedThreadId := mapped } target s' = .ok (thread', s') ∧
        thread.Again thread' := by
  cases target with
  | existingThreadId threadId =>
    rw [resolveThread, Tx.get_bind] at h
    cases hfind : s.findThread threadId with
    | none =>
      rw [hfind] at h
      exact absurd h (by simp [Tx.fail])
    | some row =>
      rw [hfind] at h
      dsimp only at h
      rw [Tx.bind_ok_iff] at h
      obtain ⟨_, s₂, hrefuse, h⟩ := h
      obtain ⟨rfl, -⟩ := (refuseMapped_blind answers threadId).ok hrefuse
      obtain ⟨rfl, rfl⟩ := Prod.mk.inj (Except.ok.inj h)
      refine ⟨⟨Nat.le_refl _, rfl, rfl⟩, fun now' mapped hmapped => ?_⟩
      have hfind' := s'.findThread_key threadId
      rw [hkeys, ← Store.findThread_key, hfind] at hfind'
      obtain ⟨row', hfound, hkey⟩ := Option.map_eq_some_iff.1 hfind'
      simp only [ThreadRow.key, Prod.mk.injEq] at hkey
      obtain ⟨-, -, huser, hkind⟩ := hkey
      refine ⟨⟨threadId, false, row'.userId, row'.memoryKind⟩, ?_, rfl, huser, by rw [hkind]⟩
      rw [resolveThread, Tx.get_bind, hfound]
      dsimp only
      rw [Tx.bind_ok_iff]
      exact ⟨(), s', refuseMapped_again hmapped hrefuse s', rfl⟩
  | upsertByChannel data => exact upsertByChannel_again h hkeys

end Deployment

end MemoryStore.Conversation
