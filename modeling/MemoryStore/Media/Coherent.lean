/-
The two read caches of a process: `find_memory` fills the one of memories,
`find_thread` the one of threads, and each call drops, once its transaction has
committed, the keys it takes to have changed. The deletion of media runs on in
the background of the calls.

The cache itself is a library: what is used of it is what `ReadCache` asks for.
An entry may be refused or forgotten at any time; it does not expire.
-/
import MemoryStore.Conversation.DefaultSystemMemory
import MemoryStore.Media.Counts
import MemoryStore.Media.System

namespace MemoryStore.Media

open Conversation

/-- `UseMemoryCache`: `with_cache_if_some` answers with the entry there is, or
with what the fetch answers, and may then keep that; `remove` drops an entry. -/
class ReadCache (κ ν : Type) where
  State : Type
  new : State
  get : State → κ → Option ν
  withCacheIfSome : State → κ → Option ν → Option ν × State
  remove : State → κ → State
  get_new : ∀ k, get new k = none
  answer : ∀ c k fetched, (withCacheIfSome c k fetched).1 = (get c k).or fetched
  kept : ∀ c k fetched k' v, get (withCacheIfSome c k fetched).2 k' = some v →
    get c k' = some v ∨ k' = k ∧ fetched = some v
  removed : ∀ c k k' v, get (remove c k) k' = some v → k' ≠ k ∧ get c k' = some v

/-! ## What is read -/

/-- `MediaPayload`, as `media_payload_metadata` leaves it: no URL yet. -/
structure MediaPayload where
  id : Nat
  kind : Int
  mediaType : String
  byteSize : Option Int
  width : Option Nat
  height : Option Nat
  durationMs : Option Int
  alt : Option String
  sha256 : Option String
  unresolved : Bool
  deriving DecidableEq, Repr

/-- `as u32`. -/
def asU32 (w : Int) : Nat := (w % 2 ^ 32).toNat

/-- `row_to_metadata`, and the flag of `media_payload_metadata`. -/
def mediaPayloadMetadata (row : MediaObjectRow) : MediaPayload :=
  { id := row.id, kind := row.kind, mediaType := row.mediaType, byteSize := row.byteSize
    width := row.width.map asU32, height := row.height.map asU32, durationMs := row.durationMs, alt := row.alt
    sha256 := row.sha256
    unresolved := row.storageBackend = .unresolvable || row.storageUri.isNone ||
      row.inStates [.unresolvable, .promoting] }

/-- A memory with its media, as it is cached. -/
structure HydratedMemory where
  row : MemoryRow
  media : Option MediaPayload
  deriving DecidableEq, Repr

/-- `hydrate_media_metadata`: an object that is gone leaves the media empty. -/
def hydrateMediaMetadata (s : Store) (row : MemoryRow) : HydratedMemory :=
  ⟨row, row.data.mediaObjectId.bind fun mediaId => (s.findMedia mediaId).map mediaPayloadMetadata⟩

/-- What the closure of `find_memory` fetches. -/
def fetchMemory (s : Store) (id : Nat) : Option HydratedMemory := (s.findMemory id).map (hydrateMediaMetadata s)

/-- The answers, with what is read anew each time. -/
structure FoundMemory where
  memory : HydratedMemory
  threadIds : List Nat
  deriving DecidableEq, Repr

structure FoundThread where
  thread : ThreadRow
  labels : List String
  deriving DecidableEq, Repr

/-- The memory and the thread stored in the database. -/
def storedMemory (s : Store) (id : Nat) : Option FoundMemory :=
  (fetchMemory s id).map fun memory => ⟨memory, s.threadIdsByMemory id⟩

def storedThread (s : Store) (id : Nat) : Option FoundThread :=
  (s.findThread id).map fun thread => ⟨thread, s.labelsByThread id⟩

/-! ## The process -/

section

variable [ReadCache CacheKey HydratedMemory] [ReadCache CacheKey ThreadRow]

structure Process where
  media : System
  memoryCache : ReadCache.State CacheKey HydratedMemory
  threadCache : ReadCache.State CacheKey ThreadRow

/-- A process starts on a database with empty caches, and nothing going on. -/
def Process.start (σ : System) : Process := ⟨{ σ with tasks := [] }, ReadCache.new, ReadCache.new⟩

/-- `find_memory`. -/
def Process.findMemory (p : Process) (id : Nat) : Option FoundMemory × Process :=
  let (memory, memoryCache) :=
    ReadCache.withCacheIfSome p.memoryCache (.memoryId id) (fetchMemory p.media.store id)
  (memory.map fun memory => ⟨memory, p.media.store.threadIdsByMemory id⟩, { p with memoryCache })

/-- `find_thread`. -/
def Process.findThread (p : Process) (id : Nat) : Option FoundThread × Process :=
  let (thread, threadCache) :=
    ReadCache.withCacheIfSome p.threadCache (.threadId id) (p.media.store.findThread id)
  (thread.map fun thread => ⟨thread, p.media.store.labelsByThread id⟩, { p with threadCache })

/-- What is done in the process, one after the other. -/
inductive ProcessAction where
  | findMemory (id : Nat)
  | findThread (id : Nat)
  | call (now : Int) (op : Operation)
  | deleteMedia (mediaId : Nat)
  /-- A deletion of media that a call or `deleteMedia` has started goes on. -/
  | step (i : Nat) (now : Int) (outcome : Outcome)

/-- The process after an action; a call that fails leaves both caches alone. -/
def ProcessAction.exec [Deployment] [MediaConfig] (p : Process) : ProcessAction → Process
  | findMemory id => (p.findMemory id).2
  | findThread id => (p.findThread id).2
  | call now op =>
    match op.tx now p.media.store with
    | .ok (eff, _) =>
      { media := (Action.call now op).exec p.media
        memoryCache := eff.memoryCache.foldl ReadCache.remove p.memoryCache
        threadCache := eff.threadCache.foldl ReadCache.remove p.threadCache }
    | .error _ => p
  | deleteMedia mediaId => { p with media := (Action.delete mediaId).exec p.media }
  | step i now outcome => { p with media := (Action.step i now outcome).exec p.media }

/-- The actions, as `Run` takes them. -/
def ProcessAction.run [Deployment] [MediaConfig] (a : ProcessAction) (p : Process) : Process := a.exec p

end

end MemoryStore.Media

/-!
Read caches against the database: a sequential run of one process, with a call's
keys dropped after its commit. Every row a call changes has its key dropped,
and the media of a memory look the same for as long as the memory names them.
One key goes to the wrong cache: the memory `update_memory_parent_ids_with_guards`
rewires is dropped from the cache of threads.
-/

namespace MemoryStore.Media

open Conversation Table

variable {s s' : Store}

/-! ## What a memory shows of its media -/

/-- Every media row looks like one there was before. -/
def SamePayloads (s s' : Store) : Prop :=
  ∀ row' ∈ s'.mediaObjects, ∃ row ∈ s.mediaObjects, mediaPayloadMetadata row = mediaPayloadMetadata row'

instance : Std.Refl SamePayloads := ⟨fun _ row hrow => ⟨row, hrow, rfl⟩⟩

instance : IsTrans Store SamePayloads :=
  ⟨fun _ _ _ h h' row'' hrow => by
    obtain ⟨row', hrow', he'⟩ := h' row'' hrow
    obtain ⟨row, hmem, he⟩ := h row' hrow'
    exact ⟨row, hmem, he.trans he'⟩⟩

theorem modifyMedia_payloads (id : Nat) {g : MediaObjectRow → Bool} {f : MediaObjectRow → MediaObjectRow}
    (hf : ∀ row, g row = true → mediaPayloadMetadata (f row) = mediaPayloadMetadata row) :
    Tx.Does SamePayloads Fails (modifyMedia id g f) := by
  intro s row' hrow
  obtain ⟨row, hmem, rfl⟩ := mem_modifyWhere.1 hrow
  refine ⟨row, hmem, ?_⟩
  split
  · next hg =>
    simp only [Bool.and_eq_true] at hg
    exact (hf row hg.2).symm
  · rfl

theorem setState_payload {now : Int} {state : GcState} {row : MediaObjectRow} {states : List GcState}
    (hg : row.inStates states = true) (hs : ∀ t ∈ states, t ≠ .unresolvable ∧ t ≠ .promoting)
    (hstate : state ≠ .unresolvable ∧ state ≠ .promoting) :
    mediaPayloadMetadata (row.setState now state) = mediaPayloadMetadata row := by
  have hrow := hs row.gcState (by simpa [MediaObjectRow.inStates] using hg)
  have hboth : (row.setState now state).inStates [.unresolvable, .promoting] =
      row.inStates [.unresolvable, .promoting] := by
    simp [MediaObjectRow.setState, MediaObjectRow.inStates, hrow.1, hrow.2, hstate.1, hstate.2]
  rw [mediaPayloadMetadata, mediaPayloadMetadata, hboth]
  rfl

theorem claimDeleting_payloads (now : Int) (id : Nat) : Tx.Does SamePayloads Fails (claimDeleting now id) := by
  refine modifyMedia_payloads id fun row hg => ?_
  simp only [Bool.and_eq_true] at hg
  exact setState_payload hg.2 (by simp) (by simp)

theorem markDeleteFailed_payloads (now : Int) (id : Nat) : Tx.Does SamePayloads Fails (markDeleteFailed now id) :=
  modifyMedia_payloads id fun _ hg => setState_payload hg (by simp) (by simp)

theorem deleteRowTx_payloads (now : Int) (id : Nat) : Tx.Does SamePayloads Fails (deleteRowTx now id) := by
  have hdelete : Tx.Does SamePayloads Fails (deleteIfUnreferenced id) :=
    Tx.Does.bind (fun s => refl_of SamePayloads s) fun _ =>
      Tx.Does.bind (Tx.Does.writes fun s row hrow => ⟨row, (List.mem_filter.1 hrow).1, rfl⟩) fun _ => Tx.Does.pure _
  exact hdelete.bind fun ok => Tx.Does.ite (fun _ => Tx.Does.pure _) fun _ =>
    (markDeleteFailed_payloads now id).bind fun _ => Tx.Does.pure _

/-! ## Deletions going on -/

/-- A task of a deletion: of `delete`, or of what a call finishes after its commit. -/
def Task.Deletes : Task → Prop
  | .readForDelete _ | .claimForDelete .. | .deleteObject .. | .markFailed _ | .deleteRow _ => True
  | _ => False

theorem finishDelete_deletes (id : Nat) (row : MediaObjectRow) : (finishDelete id row).Deletes := by
  unfold finishDelete
  split <;> trivial

theorem transact_payloads {α : Type} {m : StoreTx α} {objects : Objects} {next : α → List Task}
    (hm : Tx.Does SamePayloads Fails m) (hnext : ∀ a, ∀ task ∈ next a, task.Deletes) :
    SamePayloads s (transact s objects m next).1 ∧ ∀ task ∈ (transact s objects m next).2.2, task.Deletes := by
  unfold transact
  cases hrun : m s with
  | ok r => exact ⟨(hm s).ok hrun, hnext r.1⟩
  | error e => exact ⟨refl_of SamePayloads s, by simp⟩

/-- A deletion shows no memory other media, and goes on as a deletion. -/
theorem Task.Deletes.step [MediaConfig] {task : Task} (h : task.Deletes) (now : Int) (outcome : Outcome)
    (objects : Objects) : SamePayloads s (task.step now outcome s objects).1 ∧
      ∀ t ∈ (task.step now outcome s objects).2.2, t.Deletes := by
  cases task with
  | readForDelete id =>
    simp only [Task.step]
    split
    · exact ⟨refl_of SamePayloads s, by simp⟩
    · split
      · exact ⟨refl_of SamePayloads s, by simp⟩
      · exact ⟨refl_of SamePayloads s, by simp [Task.Deletes]⟩
  | claimForDelete id row =>
    refine transact_payloads (claimDeleting_payloads now id) fun claimed => ?_
    split
    · simpa using finishDelete_deletes id row
    · simp
  | deleteObject id row =>
    simp only [Task.step]
    refine ⟨refl_of SamePayloads s, ?_⟩
    split <;> simp [Task.Deletes]
  | markFailed id => exact transact_payloads (markDeleteFailed_payloads now id) (by simp)
  | deleteRow id => exact transact_payloads (deleteRowTx_payloads now id) (by simp)
  | _ => exact h.elim

/-- The media of a memory that is there are as they were. -/
theorem SamePayloads.hydrate (h : SamePayloads s s') (hs : s.Sound) (hs' : s'.Sound) (hm : s'.memories = s.memories)
    {row : MemoryRow} (hrow : row ∈ s.memories) : hydrateMediaMetadata s' row = hydrateMediaMetadata s row := by
  unfold hydrateMediaMetadata
  cases hk : row.data.mediaObjectId with
  | none => rfl
  | some k =>
    -- A memory names it, so its row cannot have gone.
    have hpos := Store.actualRefCount_pos (s := s') (hm ▸ hrow) hk
    obtain ⟨media', hmedia'⟩ := Option.isSome_iff_exists.1 (hs'.counted.named k (by omega))
    obtain ⟨hmem', hid'⟩ := Store.findMedia_mem hmedia'
    obtain ⟨media, hmem, he⟩ := h media' hmem'
    have hid : media.id = k := (congrArg MediaPayload.id he).trans hid'
    have hfind : s.findMedia k = some media := hs.valid.findMedia_iff.2 ⟨hmem, hid⟩
    simp only [Option.bind_some, hmedia', hfind, Option.map_some, he]

theorem SamePayloads.fetch (h : SamePayloads s s') (hs : s.Sound) (hs' : s'.Sound) (hm : s'.memories = s.memories)
    (id : Nat) : fetchMemory s' id = fetchMemory s id := by
  have hfind : s'.findMemory id = s.findMemory id := by
    unfold Store.findMemory
    rw [hm]
  unfold fetchMemory
  rw [hfind]
  cases hrow : s.findMemory id with
  | none => rfl
  | some row => simp only [Option.map_some, h.hydrate hs hs' hm (Store.findMemory_mem hrow).1]

/-- A memory transaction shows no memory other media. -/
theorem MediaStep.payload {claimed : Prop} {m m' : Option MediaObjectRow} (h : MediaStep claimed m m') :
    m'.map mediaPayloadMetadata = m.map mediaPayloadMetadata := by
  cases m with
  | none =>
    cases m' with
    | none => rfl
    | some r => exact h.elim
  | some r₀ =>
    cases m' with
    | none => exact h.elim
    | some r =>
      obtain ⟨hsame, hclaimed, hnot⟩ := h
      have hstate : r.inStates [.unresolvable, .promoting] = r₀.inStates [.unresolvable, .promoting] := by
        by_cases hc : claimed
        · obtain ⟨h₀ | h₀, h₁, -⟩ := hclaimed hc <;> simp [MediaObjectRow.inStates, h₀, h₁]
        · rcases hnot hc with he | ⟨h₀, -, h₁⟩
          · simp [MediaObjectRow.inStates, he]
          · simp [MediaObjectRow.inStates, h₀, h₁]
      simp only [Option.map_some, Option.some.injEq]
      rw [mediaPayloadMetadata, mediaPayloadMetadata, hstate, hsame]

/-! ## Which keys a call drops -/

/-- An answer computed from an answer, whatever the program does. -/
theorem wp_answer {α : Type} {m : StoreTx α} {f : α → Effects} {P : Effects → Prop} (hf : ∀ a, P (f a)) :
    Tx.wp (m >>= fun a => pure (f a)) (fun eff _ => P eff) Fails s := by
  rw [Tx.wp_bind]
  unfold Tx.wp
  cases m s with
  | ok r => exact hf r.1
  | error e => trivial

/-- A rewiring. -/
def rewires : Operation → Bool
  | .updateMemoryParentIdsWithGuards .. => true
  | _ => false

/-- No other call drops a memory from the cache of threads. -/
theorem threadCache_threads [Deployment] (now : Int) {op : Operation} (ho : rewires op = false) :
    Tx.wp (op.tx now) (fun eff _ => ∀ id, CacheKey.memoryId id ∉ eff.threadCache) Fails s := by
  cases op with
  | updateMemoryParentIdsWithGuards threadId memoryId newParentIds whenShared whenNonEmpty => simp [rewires] at ho
  | createMemory groups memory => exact wp_answer fun _ _ => by simp [Effects.none]
  | updateMemory groups id memory =>
    refine wp_answer fun outcome k => ?_
    split <;> simp [Effects.none]
  | updateContentNoDispatch id content => exact wp_answer fun _ _ => by simp
  | writeBackCaption id mediaObjectId caption =>
    refine wp_answer fun outcome k => ?_
    split <;> simp [Effects.none]
  | deleteMemory id =>
    refine wp_answer fun effects k => ?_
    unfold MemoryDeletion.effects
    split <;> simp [Effects.none]
  | deleteLinkedMemories ids =>
    refine wp_answer fun deletions k hk => ?_
    obtain ⟨eff, heff, hk⟩ := List.mem_flatMap.1 hk
    obtain ⟨⟨id, effects⟩, -, rfl⟩ := List.mem_map.1 heff
    change CacheKey.memoryId k ∈ (MemoryDeletion.effects id effects).threadCache at hk
    unfold MemoryDeletion.effects at hk
    split at hk <;> simp [Effects.none] at hk
  | createThread thread => exact wp_answer fun _ _ => by simp [Effects.none]
  | updateThread id thread =>
    refine wp_answer fun outcome k => ?_
    split <;> simp [Effects.none]
  | deleteThreads ids =>
    refine wp_answer fun outcomes k hk => ?_
    obtain ⟨eff, heff, hk⟩ := List.mem_flatMap.1 hk
    obtain ⟨o, -, rfl⟩ := List.mem_map.1 heff
    simp [DeleteThreadTxOutcome.effects] at hk
  | addMemory groups threadId memory => exact wp_answer fun _ _ => by simp
  | addMemoriesBatch answers input =>
    refine wp_answer fun output k => ?_
    split <;> simp [Effects.none]

/-- The new parents that are there. -/
def validated (s : Store) (newParentIds : List Nat) : List Nat :=
  newParentIds.filter (· ∈ (s.findByIds newParentIds).map MemoryRow.id)

/-- What a rewiring does to the rows of memories. -/
theorem rewired_rows (now : Int) (threadId memoryId : Nat) (newParentIds : List Nat) (whenShared whenNonEmpty : Bool) :
    Tx.wp (updateMemoryParentIdsWithGuards now threadId memoryId newParentIds whenShared whenNonEmpty)
      (fun outcome s' => outcome ≠ .rewired ∧ s' = s ∨
        s.Rewires threadId memoryId whenShared whenNonEmpty ∧ s'.memories = (s.modifyMemory memoryId fun stored =>
          { stored with parentIds := validated s newParentIds }).memories) Fails s := by
  unfold updateMemoryParentIdsWithGuards
  simp only [Tx.wp_bind, Tx.wp_get, Tx.wp_ensure]
  refine ⟨fun hthread => ⟨fun hattached => ?_, fun _ => trivial⟩, fun _ => trivial⟩
  split
  · exact trivial
  · next existing hfind =>
    split
    · exact .inl ⟨by simp, rfl⟩
    · next hshared =>
      split
      · exact .inl ⟨by simp, rfl⟩
      · next hnonEmpty =>
        have hrewires : s.Rewires threadId memoryId whenShared whenNonEmpty := by
          refine ⟨hthread, Store.attached_iff.2 hattached, existing, hfind, ?_, ?_⟩
          · cases whenShared <;> simp_all
          · cases whenNonEmpty <;> simp_all
        unfold updateParentIds modifyMemory
        simp only [Tx.wp_bind, Tx.wp_reads, Tx.wp_writes, Tx.wp_pure]
        have hattach : Tx.Does Store.Attaches Fails (Tx.forEach (validated s newParentIds) fun parent =>
            insertOrIgnoreAutoPosition now threadId parent) :=
          Tx.Does.forEach fun parent _ => Tx.Does.writes fun s => .attach s now threadId parent
        refine (hattach _).imp fun _ s₁ ha => ?_
        refine (refreshMessageBounds_quiet now threadId s₁).imp fun _ s₂ hs₂ => .inr ⟨hrewires, ?_⟩
        exact hs₂.1.1.trans ha.memories

/-! ## The caches and the database -/

theorem ReadCache.removeAll {κ ν : Type} [ReadCache κ ν] : ∀ (keys : List κ) {c : ReadCache.State κ ν} {k : κ} {v : ν},
    ReadCache.get (keys.foldl ReadCache.remove c) k = some v → k ∉ keys ∧ ReadCache.get c k = some v
  | [], _, _, _, h => ⟨by simp, h⟩
  | key :: keys, c, k, v, h => by
    obtain ⟨hnot, hget⟩ := removeAll keys h
    obtain ⟨hne, hget⟩ := ReadCache.removed _ _ _ _ hget
    exact ⟨by simp [hne, hnot], hget⟩

section

variable [ReadCache CacheKey HydratedMemory] [ReadCache CacheKey ThreadRow]

/-- Whatever is asked for, the answer is what is stored. -/
structure Process.Coherent (p : Process) : Prop where
  memory : ∀ id, (p.findMemory id).1 = storedMemory p.media.store id
  thread : ∀ id, (p.findThread id).1 = storedThread p.media.store id

/-- Every entry of a cache is what would be fetched now. -/
structure Process.Fresh (p : Process) : Prop where
  sound : p.media.Sound
  deletes : ∀ task ∈ p.media.tasks, task.Deletes
  memories : ∀ id v, ReadCache.get p.memoryCache (.memoryId id) = some v → fetchMemory p.media.store id = some v
  threads : ∀ id v, ReadCache.get p.threadCache (.threadId id) = some v → p.media.store.findThread id = some v

variable {p : Process}

theorem Process.Fresh.coherent (h : p.Fresh) : p.Coherent where
  memory id := by
    simp only [Process.findMemory, storedMemory, ReadCache.answer]
    cases hget : ReadCache.get p.memoryCache (CacheKey.memoryId id) with
    | none => rw [Option.none_or]
    | some v => rw [h.memories id v hget, Option.some_or]
  thread id := by
    simp only [Process.findThread, storedThread, ReadCache.answer]
    cases hget : ReadCache.get p.threadCache (CacheKey.threadId id) with
    | none => rw [Option.none_or]
    | some v => rw [h.threads id v hget, Option.some_or]

theorem Process.fresh_start {σ : System} (hσ : σ.Sound) : (Process.start σ).Fresh where
  sound := ⟨hσ.store, by simp [Process.start]⟩
  deletes := by simp [Process.start]
  memories id v hget := by
    simp only [Process.start, ReadCache.get_new] at hget
    simp at hget
  threads id v hget := by
    simp only [Process.start, ReadCache.get_new] at hget
    simp at hget

/-- A find keeps what it has fetched. -/
theorem Process.Fresh.findMemory (h : p.Fresh) (id : Nat) : (p.findMemory id).2.Fresh :=
  { h with
    memories := fun k v hget => by
      rcases ReadCache.kept _ _ _ _ _ hget with hget | ⟨hk, hfetched⟩
      · exact h.memories k v hget
      · obtain rfl := CacheKey.memoryId.inj hk
        exact hfetched }

theorem Process.Fresh.findThread (h : p.Fresh) (id : Nat) : (p.findThread id).2.Fresh :=
  { h with
    threads := fun k v hget => by
      rcases ReadCache.kept _ _ _ _ _ hget with hget | ⟨hk, hfetched⟩
      · exact h.threads k v hget
      · obtain rfl := CacheKey.threadId.inj hk
        exact hfetched }

/-- The call rewires no memory that is cached, or leaves it the parents it has. -/
def RewiresUncached (p : Process) : ProcessAction → Prop
  | .call _ (.updateMemoryParentIdsWithGuards threadId memoryId newParentIds whenShared whenNonEmpty) =>
    p.media.store.Rewires threadId memoryId whenShared whenNonEmpty →
      ReadCache.get p.memoryCache (.memoryId memoryId) = none ∨
        ∀ row, p.media.store.findMemory memoryId = some row →
          validated p.media.store newParentIds = row.data.parentIds
  | _ => True

variable [Deployment] [MediaConfig]

/-- What a call commits, looked at through the keys it drops. -/
theorem memory_unchanged (hs : s.Sound) {now : Int} {op : Operation} {eff : Effects}
    (hrun : op.tx now s = .ok (eff, s')) {id : Nat} (hid : (s.findMemory id).isSome)
    (hkey : CacheKey.memoryId id ∉ eff.memoryCache)
    (hrewire : ∀ threadId memoryId newParentIds whenShared whenNonEmpty,
      op = .updateMemoryParentIdsWithGuards threadId memoryId newParentIds whenShared whenNonEmpty →
        s.Rewires threadId memoryId whenShared whenNonEmpty → memoryId ≠ id ∨
          ∀ row, s.findMemory memoryId = some row → validated s newParentIds = row.data.parentIds) :
    s'.findMemory id = s.findMemory id := by
  obtain ⟨row, hrow⟩ := Option.isSome_iff_exists.1 hid
  obtain ⟨hmem, rfl⟩ := Store.findMemory_mem hrow
  by_cases ho : rewires op = true
  · cases op with
    | updateMemoryParentIdsWithGuards threadId memoryId newParentIds whenShared whenNonEmpty =>
      have hspec : Tx.wp (Operation.tx now (.updateMemoryParentIdsWithGuards threadId memoryId newParentIds whenShared
          whenNonEmpty)) (fun _ s' => s' = s ∨ s.Rewires threadId memoryId whenShared whenNonEmpty ∧
            s'.memories = (s.modifyMemory memoryId fun stored =>
              { stored with parentIds := validated s newParentIds }).memories) Fails s := by
        unfold Operation.tx
        rw [Tx.wp_bind]
        exact (rewired_rows now threadId memoryId newParentIds whenShared whenNonEmpty).imp fun _ _ hr =>
          hr.imp_left And.right
      rcases hspec.ok hrun with he | ⟨hr, hrows⟩
      · rw [he]
      · have hfind : s'.findMemory row.id = (s.modifyMemory memoryId fun stored =>
            { stored with parentIds := validated s newParentIds }).findMemory row.id := by
          unfold Store.findMemory
          rw [hrows]
        rcases hrewire _ _ _ _ _ rfl hr with hne | hsame
        · rw [hfind, Store.findMemory_modifyMemory_ne _ (Ne.symm hne)]
        · by_cases hid : row.id = memoryId
          · subst hid
            rw [hfind, Store.findMemory_modifyMemory, hrow, Option.map_some, if_pos rfl, hsame row hrow]
          · rw [hfind, Store.findMemory_modifyMemory_ne _ hid]
    | _ => simp [rewires] at ho
  · obtain ⟨account, hmid, hcovers⟩ := (op.tx_spec hs now).ok hrun
    refine hmid.memories row.id (hs.valid.memoryId_lt row hmem) fun hk => ?_
    rcases hcovers.memories row.id (hs.valid.memoryId_lt row hmem) hk with hk | hk
    · exact hkey hk
    · exact (threadCache_threads now (by simpa using ho)).ok hrun row.id hk

theorem Process.Fresh.call (h : p.Fresh) {now : Int} {op : Operation} (ha : RewiresUncached p (.call now op)) :
    ((ProcessAction.call now op).exec p).Fresh := by
  simp only [ProcessAction.exec]
  cases hrun : op.tx now p.media.store with
  | error e => exact h
  | ok r =>
    obtain ⟨eff, s'⟩ := r
    have hsound := Action.exec_sound h.sound (.call now op)
    obtain ⟨account, hmid, hcovers⟩ := (op.tx_spec h.sound.store now).ok hrun
    have hexec : (Action.call now op).exec p.media =
        .become p.media.tasks (s', p.media.objects, eff.postDelete.map fun job => finishDelete job.1 job.2) := by
      simp only [Action.exec, transact, hrun]
    refine ⟨hsound, fun task ht => ?_, fun id v hget => ?_, fun id v hget => ?_⟩
    · rw [hexec] at ht
      rcases List.mem_append.1 ht with ht | ht
      · exact h.deletes task ht
      · obtain ⟨job, -, rfl⟩ := List.mem_map.1 ht
        exact finishDelete_deletes job.1 job.2
    · obtain ⟨hkey, hold⟩ := ReadCache.removeAll eff.memoryCache hget
      have hv := h.memories id v hold
      have hid : (p.media.store.findMemory id).isSome := by
        unfold fetchMemory at hv
        obtain ⟨row, hrow, -⟩ := Option.map_eq_some_iff.1 hv
        rw [hrow]
        rfl
      have hsame := memory_unchanged h.sound.store hrun hid hkey fun t m ps a b he hr => by
        subst he
        rcases ha hr with hnone | hsame
        · refine .inl ?_
          rintro rfl
          rw [hnone] at hold
          simp at hold
        · exact .inr hsame
      rw [hexec]
      show fetchMemory s' id = some v
      rw [← hv]
      unfold fetchMemory
      rw [hsame]
      refine Option.map_congr fun row _ => ?_
      unfold hydrateMediaMetadata
      congr 1
      refine Option.bind_congr fun k _ => ?_
      exact MediaStep.payload (hmid.media k)
    · obtain ⟨hkey, hold⟩ := ReadCache.removeAll eff.threadCache hget
      have hv := h.threads id v hold
      have hlt : id < p.media.store.nextId := by
        obtain ⟨hmem, rfl⟩ := Store.findThread_mem hv
        exact h.sound.store.valid.threadId_lt v hmem
      rw [hexec]
      show s'.findThread id = some v
      rw [hmid.threads id hlt fun hk => hkey (hcovers.threads id hlt hk), hv]

theorem Process.Fresh.step (h : p.Fresh) (i : Nat) (now : Int) (outcome : Outcome) :
    ((ProcessAction.step i now outcome).exec p).Fresh := by
  obtain ⟨hsafe, hsound⟩ := Action.exec_safe h.sound (a := .step i now outcome) (by simp)
  have huntouched := (hsafe h.sound.store).2
  have hstep : SamePayloads p.media.store ((Action.step i now outcome).exec p.media).store ∧
      ∀ task ∈ ((Action.step i now outcome).exec p.media).tasks, task.Deletes := by
    simp only [Action.exec]
    cases hget : p.media.tasks[i]? with
    | none => exact ⟨refl_of SamePayloads _, h.deletes⟩
    | some task =>
      obtain ⟨hpayloads, hnext⟩ := (h.deletes task (List.mem_of_getElem? hget)).step (s := p.media.store) now outcome
        p.media.objects
      refine ⟨hpayloads, fun t ht => ?_⟩
      rcases List.mem_append.1 ht with ht | ht
      · exact h.deletes t (List.mem_of_mem_eraseIdx ht)
      · exact hnext t ht
  refine ⟨hsound, hstep.2, fun id v hget => ?_, fun id v hget => ?_⟩
  · show fetchMemory ((Action.step i now outcome).exec p.media).store id = some v
    rw [hstep.1.fetch h.sound.store hsound.store huntouched.memories]
    exact h.memories id v hget
  · show ((Action.step i now outcome).exec p.media).store.findThread id = some v
    have := h.threads id v hget
    unfold Store.findThread at this ⊢
    rw [huntouched.threads]
    exact this

theorem Process.Fresh.exec (h : p.Fresh) {a : ProcessAction} (ha : RewiresUncached p a) : (a.exec p).Fresh := by
  cases a with
  | findMemory id => exact h.findMemory id
  | findThread id => exact h.findThread id
  | call now op => exact h.call ha
  | deleteMedia id =>
    refine { h with sound := Action.exec_sound h.sound (.delete id), deletes := fun task ht => ?_ }
    rcases List.mem_append.1 ht with ht | ht
    · exact h.deletes task ht
    · obtain rfl := List.mem_singleton.1 ht
      trivial
  | step i now outcome => exact h.step i now outcome

/-- **Read caches are coherent with committed writes**, in a process started on
any reachable database, as long as it rewires no memory that is cached. -/
theorem read_caches_coherent {σ : System} (hσ : Reachable σ)
    (h : Run.Reaches ProcessAction.run RewiresUncached (Process.start σ) p) : p.Coherent := by
  have hp : p.Fresh := Run.Reaches.invariant (I := Process.Fresh) (fun _ _ hp ha => hp.exec ha) h
    (Process.fresh_start hσ.sound)
  exact hp.coherent

end

/-- A cache that keeps what it is given. -/
@[reducible] def keepAll (ν : Type) : ReadCache CacheKey ν where
  State := CacheKey → Option ν
  new := fun _ => none
  get c k := c k
  withCacheIfSome c k fetched := ((c k).or fetched, fun k' => if k' = k then (c k).or fetched else c k')
  remove c k := fun k' => if k' = k then none else c k'
  get_new _ := rfl
  answer _ _ _ := rfl
  kept c k fetched k' v h := by
    by_cases hk : k' = k
    · simp only [hk, if_true] at h
      subst hk
      cases hc : c k' with
      | none => rw [hc, Option.none_or] at h; exact .inr ⟨rfl, h⟩
      | some w => rw [hc, Option.some_or] at h; exact .inl h
    · simp only [if_neg hk] at h
      exact .inl h
  removed c k k' v h := by
    by_cases hk : k' = k
    · simp [hk] at h
    · simp only [if_neg hk] at h
      exact ⟨hk, h⟩

/-- A thread with two messages, each read; the one not cached is rewired to the other. -/
def readThenWritten : List ProcessAction :=
  [.call 5 (.createThread (threadOf none 1)), .call 6 (.addMemory .none 1 (memoryOf 1 1)),
    .call 7 (.addMemory .none 1 (memoryOf 1 1)), .findThread 1, .findMemory 2,
    .call 8 (.updateMemoryParentIdsWithGuards 1 3 [2] false false), .findMemory 3,
    .call 9 (.updateContentNoDispatch 3 "edited"), .call 10 (.deleteMemory 2)]

theorem read_caches_coherent_readThenWritten :
    @Process.Coherent (keepAll _) (keepAll _)
      (Run.execAll (@ProcessAction.run (keepAll _) (keepAll _) permissive fileServer) readThenWritten
        (@Process.start (keepAll _) (keepAll _) .new)) := by
  have hrun : Run.Allowed (@ProcessAction.run (keepAll _) (keepAll _) permissive fileServer)
      (@RewiresUncached (keepAll _) (keepAll _)) readThenWritten (@Process.start (keepAll _) (keepAll _) .new) :=
    ⟨trivial, trivial, trivial, trivial, trivial, fun _ => .inl rfl, trivial, trivial, trivial, trivial⟩
  exact @read_caches_coherent (keepAll _) (keepAll _) _ permissive fileServer _ .refl (Run.reaches_of_allowed hrun)

/-- A message is read, then rewired to another. -/
def readThenRewired : List ProcessAction :=
  [.call 5 (.createThread (threadOf none 1)), .call 6 (.addMemory .none 1 (memoryOf 1 1)),
    .call 7 (.addMemory .none 1 (memoryOf 1 1)), .findMemory 3,
    .call 8 (.updateMemoryParentIdsWithGuards 1 3 [2] false false)]

theorem memory_stale_after_rewiring :
    ¬∀ p, Run.Reaches (@ProcessAction.run (keepAll _) (keepAll _) permissive fileServer) Run.anyAction
      (@Process.start (keepAll _) (keepAll _) .new) p → @Process.Coherent (keepAll _) (keepAll _) p := by
  intro h
  have hcoherent := h (Run.execAll (@ProcessAction.run (keepAll _) (keepAll _) permissive fileServer) readThenRewired
    (@Process.start (keepAll _) (keepAll _) .new)) (Run.reaches_execAll (fun _ _ _ => trivial) _)
  have hstale : (@Process.findMemory (keepAll _) (keepAll _)
        (Run.execAll (@ProcessAction.run (keepAll _) (keepAll _) permissive fileServer) readThenRewired
          (@Process.start (keepAll _) (keepAll _) .new)) 3).1 ≠
      storedMemory (@Process.media (keepAll _) (keepAll _)
        (Run.execAll (@ProcessAction.run (keepAll _) (keepAll _) permissive fileServer) readThenRewired
          (@Process.start (keepAll _) (keepAll _) .new))).store 3 := by decide +kernel
  exact hstale (@Process.Coherent.memory (keepAll _) (keepAll _) _ hcoherent 3)

end MemoryStore.Media
