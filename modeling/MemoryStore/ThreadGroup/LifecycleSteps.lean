/-
What the thread operations and the purge can do to the group and relation
tables: creating a thread and assigning a key change neither; a batch may
revive one key; a delete leaves placeholders and nulls endpoints, thread by
thread; a purge takes the rows of one group away.
-/
import MemoryStore.ThreadGroup.OperatorSteps

namespace MemoryStore.ThreadGroup

open Tx Table

/-! ## Threads and batches -/

theorem insertThread_maps {userId : Int} {channel : Option String} :
    Does MappingOnly Benign (insertThread userId channel) := fun s => by
  simp only [insertThread, generateId, wp_bind, wp_reads, wp_writes, wp_pure]
  exact .of_keys ⟨rfl, Nat.le_succ _⟩ rfl

theorem createThread_maps {userId : Int} {channel : Option String} {randomKey : Key} :
    Does MappingOnly Benign (createThread userId channel randomKey) :=
  insertThread_maps.bind fun _ => assignKey_maps.bind fun _ => Does.pure _

theorem ensureThreadCanonicalKey_maps {threadId : Nat} {userId : Int} {randomKey : Key} :
    Does MappingOnly Benign (ensureThreadCanonicalKey threadId userId randomKey) :=
  Does.get.bind fun s => by
    split
    · exact Does.pure _
    · exact assignKey_maps.bind fun _ => Does.pure _

theorem resolveBatchThread_maps {target : BatchThreadTarget} {mapped : Option Nat} :
    Does MappingOnly Benign (resolveBatchThread target mapped) := by
  have hmapped : ∀ {threadId : Nat} {refusing : String},
      Does MappingOnly Benign (ensureMappedTo mapped threadId refusing) := by
    intro threadId refusing
    unfold ensureMappedTo
    split
    · exact Does.pure ()
    · exact Does.ensure (benign_bail _)
  refine Does.get.bind fun s => ?_
  split
  · split
    · exact Does.fail (benign_bail _)
    · exact hmapped.bind fun _ => Does.pure _
  · refine (Does.ensure (benign_bail _)).bind fun _ => (Does.ensure (benign_bail _)).bind fun _ => ?_
    split
    · split
      · exact Does.fail (benign_bail _)
      · exact insertThread_maps.bind fun _ => Does.pure _
    · exact hmapped.bind fun _ => Does.pure _
    · exact Does.fail (benign_bail _)

/-- The tables after the placeholder of a key is attached to a thread again. -/
def Store.revived (s : Store) (key : Key) (threadId : Nat) : Store :=
  { s with
      members := modifyWhere (fun m => m.threadCanonicalKey = key && m.state.isDeleted)
        (fun m => { m with state := .active threadId }) s.members
      relations := modifyWhere (fun r => r.childThreadCanonicalKey = key && r.childThreadId = none)
        (fun r => { r with childThreadId := some threadId })
        (modifyWhere (fun r => r.parentThreadCanonicalKey = key && r.parentThreadId = none)
          (fun r => { r with parentThreadId := some threadId }) s.relations) }

/-- **What a batch can do**: map threads, and revive the key its thread has. -/
inductive Batches (s : Store) : Store → Prop where
  | maps (s' : Store) (h : MappingOnly s s') : Batches s s'
  | revives (key : Key) (threadId : Nat) (row : ThreadCanonicalKeyRow) (s₁ s' : Store) (h₁ : MappingOnly s s₁)
      (hkey : row ∈ s₁.canonicalKeys) (hrow : row.threadId = threadId ∧ row.key = key)
      (h₂ : MappingOnly (s₁.revived key threadId) s') : Batches s s'

theorem reviveKey_spec {key : Key} {threadId : Nat} {identity : SourceIdentityKey} (s : Store)
    (hassigned : ∀ row, s.findKeyByThreadId threadId = some row → row.key = key) :
    wp (reviveKey key threadId identity)
      (fun _ s' => ∃ s₁ row, MappingOnly s s₁ ∧ row ∈ s₁.canonicalKeys ∧ (row.threadId = threadId ∧ row.key = key) ∧
        s' = s₁.revived key threadId) Benign s := by
  simp only [reviveKey, wp_bind, wp_get]
  split
  · simp only [wp_bind]
    have hassign : wp (assignKey threadId identity.userId key .sourceIdentity)
        (fun _ s' => MappingOnly s s' ∧ ⟨threadId, identity.userId, key, .sourceIdentity⟩ ∈ s'.canonicalKeys)
        Benign s := by
      have hmem : wp (assignKey threadId identity.userId key .sourceIdentity)
          (fun _ s' => ⟨threadId, identity.userId, key, .sourceIdentity⟩ ∈ s'.canonicalKeys) (fun _ => True) s := by
        simp [assignKey]
      exact ((assignKey_maps s).and hmem).mono (fun _ _ h => h) fun _ h => h.1
    refine hassign.imp fun _ s₁ hout => ?_
    obtain ⟨h₁, hmem⟩ := hout
    exact ⟨s₁, _, h₁, hmem, ⟨rfl, rfl⟩, rfl⟩
  · next hsome =>
    cases hrow : s.findKeyByThreadId threadId with
    | none => simp [hrow] at hsome
    | some row =>
      obtain ⟨hmem, hid⟩ := findKeyByThreadId_mem hrow
      exact ⟨s, row, refl_of _ s, hmem, ⟨hid, hassigned row hrow⟩, rfl⟩

theorem consumeMarker_maps {identity : SourceIdentityKey} : Does MappingOnly Benign (consumeMarker identity) :=
  Does.writes fun _ => .of_keys ⟨rfl, le_rfl⟩ rfl

theorem reviveIdentity_spec [KeyHash] {threadId : Nat} {identity : SourceIdentityKey} {markerKey : Option Key}
    (s : Store) : wp (reviveIdentity threadId identity markerKey) (fun _ s' => Batches s s') Benign s := by
  simp only [reviveIdentity, wp_bind, wp_get]
  refine (reviveKey_spec s fun row hrow => by simp [hrow]).imp fun _ s₁ hout => ?_
  obtain ⟨s₀, row, h₀, hmem, hrow, hs₁⟩ := hout
  subst hs₁
  exact (upsertResolved_maps _).imp fun _ s' h' => .revives _ threadId row s₀ s' h₀ hmem hrow h'

theorem Batches.after {s s₁ s' : Store} (h : MappingOnly s s₁) (hb : Batches s₁ s') : Batches s s' := by
  cases hb with
  | maps _ h' => exact .maps s' (h.trans h')
  | revives key threadId row s₂ _ h₁ hkey hrow h₂ => exact .revives key threadId row s₂ s' (h.trans h₁) hkey hrow h₂

theorem addMemoriesBatch_spec [KeyHash] {target : BatchThreadTarget} {sourceIdentity : Option SourceIdentity}
    {explicitOverride : Bool} (s : Store) :
    wp (addMemoriesBatch target sourceIdentity explicitOverride) (fun _ s' => Batches s s') Benign s := by
  simp only [addMemoriesBatch, wp_bind, wp_get]
  split
  · exact .maps s (refl_of _ s)
  · simp only [wp_bind]
    refine (resolveBatchThread_maps s).imp fun out s₁ h₁ => ?_
    simp only [wp_ensure]
    refine ⟨fun _ => ⟨fun hmarker => ?_, fun _ => benign_bail _⟩, fun _ => benign_bail _⟩
    split
    · exact .maps s₁ h₁
    · next identity _ =>
      split
      · simp only [wp_bind, wp_pure]
        exact (consumeMarker_maps s₁).imp fun _ s₂ h₂ => (reviveIdentity_spec s₂).imp fun _ s' hb =>
          .after (h₁.trans h₂) hb
      · simp only [wp_bind, wp_pure]
        exact (reviveIdentity_spec s₁).imp fun _ s' hb => .after h₁ hb

/-! ## Deletes -/

/-- The tables after one thread is gone: its endpoints are nulled, the live row of
its key is a placeholder, and it has no key. -/
def Store.deleted (s : Store) (threadId : Nat) (key : Option Key) (now : Int) : Store :=
  { s with
      canonicalKeys := s.canonicalKeys.filter (fun row => row.threadId ≠ threadId)
      members := modifyWhere (fun m => some m.threadCanonicalKey = key && m.state.isActive)
        (fun m => { m with state := .deleted now }) s.members
      relations := modifyWhere (fun r => r.childThreadId = some threadId) (fun r => { r with childThreadId := none })
        (modifyWhere (fun r => r.parentThreadId = some threadId) (fun r => { r with parentThreadId := none })
          s.relations) }

/-- The tables of keys, members, relations and groups are the same. -/
structure SameGraph (s s' : Store) : Prop where
  canonicalKeys : s'.canonicalKeys = s.canonicalKeys
  members : s'.members = s.members
  relations : s'.relations = s.relations
  groups : s'.groups = s.groups
  nextId : s'.nextId = s.nextId

instance : Std.Refl SameGraph := ⟨fun _ => ⟨rfl, rfl, rfl, rfl, rfl⟩⟩

instance : IsTrans Store SameGraph :=
  ⟨fun _ _ _ h h' => ⟨h'.canonicalKeys.trans h.canonicalKeys, h'.members.trans h.members,
    h'.relations.trans h.relations, h'.groups.trans h.groups, h'.nextId.trans h.nextId⟩⟩

theorem deleteTarget_spec {forbidReimport : Bool} {now : Int} {key : Option Key}
    {identities : List SourceThreadIdentityRow} {threadId : Nat} (s : Store) :
    wp (deleteTarget forbidReimport now key identities threadId)
      (fun _ s' => SameGraph (s.deleted threadId key now) s') (fun _ => False) s := by
  have hmarkers : Does SameGraph (fun _ => False) (Tx.forEach identities fun row => (do
      putMarker ⟨row.identity, forbidReimport, key⟩
      deleteIdentity row.identity : StoreTx Unit)) :=
    Does.forEach fun row _ => (Does.writes fun s => by split <;> exact ⟨rfl, rfl, rfl, rfl, rfl⟩).bind fun _ =>
      Does.writes fun _ => ⟨rfl, rfl, rfl, rfl, rfl⟩
  have hrest : ∀ s₁ : Store, wp (do
      Tx.forEach identities fun row => do
        putMarker ⟨row.identity, forbidReimport, key⟩
        deleteIdentity row.identity
      deleteKey threadId : StoreTx Unit)
      (fun _ s' => SameGraph { s₁ with canonicalKeys := s₁.canonicalKeys.filter (fun row => row.threadId ≠ threadId) } s')
      (fun _ => False) s₁ := by
    intro s₁
    rw [wp_bind]
    refine (hmarkers s₁).imp fun _ s₂ h => ?_
    simp only [deleteKey, wp_writes]
    exact ⟨by simp only [h.canonicalKeys], h.members, h.relations, h.groups, h.nextId⟩
  simp only [deleteTarget, deleteThreadInTx, detachParentThreadId, detachChildThreadId, wp_bind, wp_writes]
  cases key with
  | none =>
    have hmem : ∀ rows : List MemberRow, modifyWhere (fun m => decide (some m.threadCanonicalKey = none) && m.state.isActive)
        (fun m => { m with state := .deleted now }) rows = rows := fun rows =>
      modifyWhere_of_none fun m _ => by simp
    refine (hrest _).imp fun _ s' h => ⟨h.canonicalKeys, ?_, h.relations, h.groups, h.nextId⟩
    simp only [Store.deleted, hmem, h.members]
  | some key =>
    simp only [markCurrentDeleted, wp_bind, wp_writes]
    refine (wp_bind.1 (hrest _)).imp fun _ _ h => h.imp fun _ s' h =>
      ⟨h.canonicalKeys, ?_, h.relations, h.groups, h.nextId⟩
    simp only [Store.deleted, h.members, Option.some.injEq]

/-- **What a delete can do**: its targets go, one after the other, each with the key
it had when the transaction began. -/
inductive Deletes (keyOf : Nat → Option Key) (now : Int) : Store → Store → Prop where
  | done (s : Store) : Deletes keyOf now s s
  | next (threadId : Nat) (s s₁ s' : Store) (h : SameGraph (s.deleted threadId (keyOf threadId) now) s₁)
      (hrest : Deletes keyOf now s₁ s') : Deletes keyOf now s s'

/-- The key a thread has. -/
def Store.keyOf (s : Store) (threadId : Nat) : Option Key :=
  (s.findKeyByThreadId threadId).map ThreadCanonicalKeyRow.key

theorem deleteThreadsTx_spec {targets : List Nat} {forbidReimport : Bool} {now : Int} (s : Store) :
    wp (deleteThreadsTx targets forbidReimport now) (fun _ s' => Deletes s.keyOf now s s') Benign s := by
  simp only [deleteThreadsTx, wp_bind, wp_get]
  have hloop : ∀ (targets : List Nat) (s₁ : Store),
      wp (Tx.forEach targets fun threadId => deleteTarget forbidReimport now (s.keyOf threadId)
        (s.listIdentitiesByThreadId threadId) threadId) (fun _ s' => Deletes s.keyOf now s₁ s') (fun _ => False) s₁ := by
    intro targets
    induction targets with
    | nil => exact fun s₁ => .done s₁
    | cons threadId targets ih =>
      intro s₁
      simp only [Tx.forEach, wp_bind]
      exact (deleteTarget_spec s₁).imp fun _ s₂ h => (ih s₂).imp fun _ s' h' => .next threadId s₁ s₂ s' h h'
  exact (hloop targets s).mono (fun _ _ h => h) fun _ he => he.elim

/-! ## Thread ids of relations -/

/-- A relation without the thread ids of its endpoints. -/
def RelationRow.edge (r : RelationRow) : RelationRow := { r with parentThreadId := none, childThreadId := none }

/-- The relations are the same but for the thread ids of their endpoints. -/
def SameEdges (s s' : Store) : Prop := s'.relations.map RelationRow.edge = s.relations.map RelationRow.edge

theorem SameEdges.findActiveByChild {s s' : Store} (h : SameEdges s s') (key : Key) :
    (s'.findActiveByChild key).map RelationRow.edge = (s.findActiveByChild key).map RelationRow.edge := by
  have hfind : ∀ s : Store, (s.findActiveByChild key).map RelationRow.edge =
      (s.relations.map RelationRow.edge).find? (fun r => r.childThreadCanonicalKey = key && r.isActive) := fun s => by
    rw [List.find?_map]
    rfl
  rw [hfind, hfind, h]

theorem SameEdges.activeParent {s s' : Store} (h : SameEdges s s') : s'.activeParent = s.activeParent := by
  funext key
  have hparent : ∀ s : Store, s.activeParent key =
      ((s.findActiveByChild key).map RelationRow.edge).map RelationRow.parentThreadCanonicalKey := fun s => by
    rw [Option.map_map]
    rfl
  rw [hparent, hparent, h.findActiveByChild]

theorem SameEdges.forest {s s' : Store} (h : SameEdges s s') (hf : RelationForest s) : RelationForest s' where
  child := by
    have hkeys : ∀ rows : List RelationRow, (rows.filter RelationRow.isActive).map RelationRow.childThreadCanonicalKey =
        ((rows.map RelationRow.edge).filter RelationRow.isActive).map RelationRow.childThreadCanonicalKey := fun rows => by
      rw [List.filter_map, List.map_map]
      rfl
    have := hf.child
    rw [UniqueWhere, hkeys] at this ⊢
    rwa [h]
  acyclic := h.activeParent ▸ hf.acyclic

theorem deleted_sameEdges (s : Store) (threadId : Nat) (key : Option Key) (now : Int) :
    SameEdges s (s.deleted threadId key now) := by
  exact (map_modifyWhere (by intros; rfl) _).trans (map_modifyWhere (by intros; rfl) _)

theorem revived_sameEdges (s : Store) (key : Key) (threadId : Nat) : SameEdges s (s.revived key threadId) := by
  exact (map_modifyWhere (by intros; rfl) _).trans (map_modifyWhere (by intros; rfl) _)

theorem Sound.deleted {s : Store} (h : Sound s) (threadId : Nat) (key : Option Key) (now : Int) :
    Sound (s.deleted threadId key now) := by
  refine ⟨?_, (deleted_sameEdges s threadId key now).forest h.forest⟩
  refine (h.memberships.modifyMembers (q := fun m => some m.threadCanonicalKey = key && m.state.isActive)
    (f := fun m => { m with state := .deleted now }) (fun _ => rfl) (fun _ => rfl) fun m hq _ => ?_).congr rfl rfl le_rfl
  simp only [Bool.and_eq_true] at hq
  cases hst : m.state <;> simp_all [MemberState.isActive, MemberRow.current, MemberState.current]

theorem Sound.revived {s : Store} (h : Sound s) (key : Key) (threadId : Nat) : Sound (s.revived key threadId) := by
  refine ⟨?_, (revived_sameEdges s key threadId).forest h.forest⟩
  refine (h.memberships.modifyMembers (q := fun m => m.threadCanonicalKey = key && m.state.isDeleted)
    (f := fun m => { m with state := .active threadId }) (fun _ => rfl) (fun _ => rfl) fun m hq _ => ?_).congr rfl rfl le_rfl
  simp only [Bool.and_eq_true] at hq
  cases hst : m.state <;> simp_all [MemberState.isDeleted, MemberRow.current, MemberState.current]

theorem SameGraph.sound {s s' : Store} (h : SameGraph s s') (hs : Sound s) : Sound s' :=
  ⟨hs.memberships.congr h.members h.groups h.nextId.ge, hs.forest.congr h.relations⟩

theorem Batches.sound {s s' : Store} (h : Batches s s') (hs : Sound s) : Sound s' := by
  cases h with
  | maps _ h => exact h.tables hs
  | revives key threadId _ _ _ h₁ _ _ h₂ => exact h₂.tables ((h₁.tables hs).revived key threadId)

theorem Deletes.sound {keyOf : Nat → Option Key} {now : Int} {s s' : Store} (h : Deletes keyOf now s s')
    (hs : Sound s) : Sound s' := by
  induction h with
  | done => exact hs
  | next threadId s _ _ h _ ih => exact ih (h.sound (hs.deleted threadId (keyOf threadId) now))

/-! ## Purge -/

/-- Relations may go; keys, members and groups stay. -/
structure Thins (s s' : Store) : Prop where
  canonicalKeys : s'.canonicalKeys = s.canonicalKeys
  members : s'.members = s.members
  relations : s'.relations.Sublist s.relations
  groups : s'.groups = s.groups
  nextId : s'.nextId = s.nextId

instance : Std.Refl Thins := ⟨fun _ => ⟨rfl, rfl, List.Sublist.refl _, rfl, rfl⟩⟩

instance : IsTrans Store Thins :=
  ⟨fun _ _ _ h h' => ⟨h'.canonicalKeys.trans h.canonicalKeys, h'.members.trans h.members,
    h'.relations.trans h.relations, h'.groups.trans h.groups, h'.nextId.trans h.nextId⟩⟩

/-- **What a purge can do**: it takes the rows of one group without live members. -/
structure Purges (groupId : Nat) (s s' : Store) : Prop where
  group : ∃ g ∈ s.groups, g.id = groupId
  inactive : ∀ m ∈ s.members, m.groupId = groupId → m.state.isActive = false
  members : s'.members = s.members.filter fun m => m.groupId ≠ groupId
  relations : s'.relations.Sublist s.relations
  canonicalKeys : s'.canonicalKeys = s.canonicalKeys
  nextId : s'.nextId = s.nextId
  memberships : Memberships s'
  redirects : RedirectsResolve s → (∀ g ∈ s.groups, g.id = groupId → g.isActive = true →
    ∀ g' ∈ s.groups, g'.redirectsTo groupId = false) → RedirectsResolve s'

theorem RelationForest.sublist {s s' : Store} (h : RelationForest s) (hsub : s'.relations.Sublist s.relations) :
    RelationForest s' := by
  have hchild : UniqueWhere RelationRow.isActive RelationRow.childThreadCanonicalKey s'.relations :=
    List.Nodup.sublist ((hsub.filter _).map _) h.child
  refine ⟨hchild, h.acyclic.mono fun a b hab => ?_⟩
  obtain ⟨r, hr, hp⟩ := activeParent_eq_some.1 hab
  obtain ⟨hmem, hact, hkey⟩ := findActiveByChild_mem hr
  exact activeParent_eq_some.2 ⟨r, h.findActiveByChild_eq_some.2 ⟨hsub.subset hmem, hact, hkey⟩, hp⟩

theorem Purges.sound {groupId : Nat} {s s' : Store} (h : Purges groupId s s') (hs : Sound s) : Sound s' :=
  ⟨h.memberships, hs.forest.sublist h.relations⟩

theorem OperatorStep.sound {s s' : Store} (h : OperatorStep s s') (hs : Sound s) : Sound s' :=
  ⟨h.memberships, hs.forest.congr h.keeps.relations⟩

theorem purgeMarkers_thins {groupId : Nat} {members : List MemberRow} {E : TxError → Prop} :
    Does Thins E (purgeMarkers groupId members) :=
  Does.forEach fun member _ => by
    split
    · exact Does.pure ()
    · exact Does.get.bind fun _ => Does.ite (fun _ => Does.pure ()) fun _ => Does.ite (fun _ => Does.pure ()) fun _ =>
        Does.writes fun _ => ⟨rfl, rfl, List.Sublist.refl _, rfl, rfl⟩

/-- Repointing redirects leaves the other tables alone, and active groups active. -/
theorem repointInbound_spec {s : Store} (h : Memberships s) {groupId target : Nat} :
    wp (repointInbound groupId target)
      (fun _ s' => Memberships s' ∧ s'.members = s.members ∧ s'.relations = s.relations ∧
        s'.canonicalKeys = s.canonicalKeys ∧ s'.nextId = s.nextId ∧
        ((∀ g ∈ s.groups, g.redirectsTo groupId = false) → s'.groups = s.groups)) Benign s := by
  simp only [repointInbound, wp_bind, wp_get]
  refine (wp_forEach (I := fun rest s' => Memberships s' ∧ s'.members = s.members ∧ s'.relations = s.relations ∧
    s'.canonicalKeys = s.canonicalKeys ∧ s'.nextId = s.nextId ∧ (∀ r ∈ rest, r ∈ s.groups ∧ r.redirectsTo groupId = true) ∧
    ((∀ g ∈ s.groups, g.redirectsTo groupId = false) → s'.groups = s.groups))
    (fun r rest s' hloop => ?_)
    ⟨h, rfl, rfl, rfl, rfl, fun r hr => ?_, fun _ => rfl⟩).imp fun _ s' hloop =>
      ⟨hloop.1, hloop.2.1, hloop.2.2.1, hloop.2.2.2.1, hloop.2.2.2.2.1, hloop.2.2.2.2.2.2⟩
  · obtain ⟨h₁, h₂, h₃, h₄, hn, h₅, h₆⟩ := hloop
    simp only [repointRedirect, wp_bind, wp_get, wp_ensure, wp_writes, wp_pure]
    refine ⟨fun _ => ?_, fun _ => benign_check _⟩
    obtain ⟨hr, hro⟩ := h₅ r (by simp)
    refine ⟨h₁.modifyGroups (fun _ => rfl) (fun _ => rfl) (fun g _ ha => by simp [GroupRow.isActive] at ha)
      fun m hm hc g hq hg ha => ?_, h₂, h₃, h₄, hn, fun r' hr' => h₅ r' (by simp [hr']), fun hnone => ?_⟩
    · have hst : g.status = .active := by simpa [GroupRow.isActive] using ha
      simp [not_isRedirected (.inl hst)] at hq
    · simp [hnone r hr] at hro
  · simp only [List.mem_filter] at hr
    exact ⟨hr.1.1, hr.2⟩

theorem Memberships.filterMembers {s : Store} (h : Memberships s) (groupId : Nat) :
    Memberships { s with members := s.members.filter (fun m => m.groupId ≠ groupId) } where
  current := h.current.filter _
  groupId := h.groupId
  fresh := h.fresh
  activeKey := h.activeKey
  inActive m hm hc := h.inActive m (List.mem_filter.1 hm).1 hc

theorem Memberships.dropGroup {s : Store} (h : Memberships s) {groupId : Nat}
    (hempty : ∀ m ∈ s.members, m.current = true → m.groupId ≠ groupId) :
    Memberships { s with groups := s.groups.filter (fun g => g.id ≠ groupId) } where
  current := h.current
  groupId := h.groupId.filter _
  fresh g hg := h.fresh g (List.mem_filter.1 hg).1
  activeKey := h.activeKey.filter _
  inActive m hm hc := by
    obtain ⟨g, hg, hid, ha⟩ := h.inActive m hm hc
    exact ⟨g, List.mem_filter.2 ⟨hg, by simpa [hid] using hempty m hm hc⟩, hid, ha⟩

theorem purgeGroup_spec [PurgeDigest] {s : Store} (h : Memberships s) {groupId : Nat} {expectedDigest : String} :
    wp (purgeGroup groupId expectedDigest) (fun _ s' => Purges groupId s s') Benign s := by
  simp only [purgeGroup, wp_bind, wp_get]
  split
  · exact benign_bail _
  · next group hgroup =>
    obtain ⟨hgmem, hgid⟩ := h.findGroup_eq_some.1 hgroup
    simp only [wp_bind, wp_ensure]
    refine ⟨fun _ => ⟨fun hlive => ⟨fun hsplit => ?_, fun _ => benign_bail _⟩, fun _ => benign_bail _⟩,
      fun _ => benign_bail _⟩
    have hinactive : ∀ m ∈ s.members, m.groupId = groupId → m.state.isActive = false := by
      intro m hm hg
      have hmem : m ∈ s.listAllByGroupId groupId := by
        rw [Store.listAllByGroupId, List.mem_insertionSort, List.mem_filter]
        exact ⟨hm, by simpa using hg⟩
      simpa using (by simpa using hlive : ∀ m ∈ s.listAllByGroupId groupId, ¬ m.state.isActive = true) m hmem
    have hnone : RedirectsResolve s → (∀ g ∈ s.groups, g.id = groupId → g.isActive = true →
        ∀ g' ∈ s.groups, g'.redirectsTo groupId = false) → ∀ g ∈ s.groups, g.redirectsTo groupId = false := by
      intro hr hact g hg
      cases hto : g.redirectsTo groupId with
      | false => rfl
      | true =>
        obtain ⟨t, ht, hid, hst⟩ := hr g hg groupId (by simpa [GroupRow.redirectsTo] using hto)
        obtain rfl := h.groupId.eq ht rfl hgmem rfl (hid.trans hgid.symm)
        rcases hst with hst | hst
        · exact absurd hto (by simp [hact t ht hid (by simpa [GroupRow.isActive] using hst) g hg])
        · have hin : g ∈ s.listRedirectingTo groupId := listRedirectingTo_mem.2 ⟨hg, hto⟩
          simp only [hst, decide_true, Bool.true_and, Bool.not_not, List.isEmpty_iff] at hsplit
          simp [hsplit] at hin
    have hthin : Does Thins Benign (Tx.forEach ((s.internalRelations (s.listAllByGroupId groupId)).filter
        (!·.isActive)) fun relation => deleteRelation relation.id) :=
      Does.forEach fun _ _ => Does.writes fun _ => ⟨rfl, rfl, List.filter_sublist, rfl, rfl⟩
    refine (hthin s).imp fun _ s₁ h₁ => ?_
    have haudits : Does Thins Benign (deleteAuditsByGroupId groupId) :=
      Does.writes fun _ => ⟨rfl, rfl, List.Sublist.refl _, rfl, rfl⟩
    refine (haudits s₁).imp fun _ s₂ h₂ => ?_
    simp only [deleteMembersByGroupId, wp_writes]
    set s₃ : Store := { s₂ with members := s₂.members.filter (fun m => m.groupId ≠ groupId) } with hs₃
    have hm₃ : s₃.members = s.members.filter fun m => m.groupId ≠ groupId := by
      simp only [s₃, h₂.members, h₁.members]
    have h₃ : Memberships s₃ := (h.filterMembers groupId).congr hm₃ (h₂.groups.trans h₁.groups)
      (h₂.nextId.trans h₁.nextId).ge
    refine (purgeMarkers_thins s₃).imp fun _ s₄ h₄ => ?_
    have hm₄ : Memberships s₄ := h₃.congr h₄.members h₄.groups h₄.nextId.ge
    have hg₄ : s₄.groups = s.groups := h₄.groups.trans (h₂.groups.trans h₁.groups)
    have hend : ∀ s₅ : Store, Memberships s₅ → s₅.members = s₄.members → s₅.relations = s₄.relations →
        s₅.canonicalKeys = s₄.canonicalKeys → s₅.nextId = s₄.nextId →
        ((∀ g ∈ s₄.groups, g.redirectsTo groupId = false) → s₅.groups = s₄.groups) →
        wp (do
          let deleted ← deleteGroup groupId
          Tx.ensure deleted (.bail s!"group {groupId} disappeared during purge") : StoreTx Unit)
          (fun _ s' => Purges groupId s s') Benign s₅ := by
      intro s₅ h₅ m₅ r₅ c₅ n₅ g₅
      simp only [deleteGroup, wp_bind, wp_get, wp_writes, wp_pure, wp_ensure]
      refine ⟨fun _ => ?_, fun _ => benign_bail _⟩
      have hmem : s₅.members = s.members.filter fun m => m.groupId ≠ groupId := m₅.trans (h₄.members.trans hm₃)
      refine ⟨⟨group, hgmem, hgid⟩, hinactive, hmem, ?_, ?_, ?_, h₅.dropGroup fun m hm _ => ?_, fun hr hact => ?_⟩
      · exact r₅ ▸ h₄.relations.trans (h₂.relations.trans h₁.relations)
      · exact c₅.trans (h₄.canonicalKeys.trans (h₂.canonicalKeys.trans h₁.canonicalKeys))
      · exact n₅.trans (h₄.nextId.trans (h₂.nextId.trans h₁.nextId))
      · rw [hmem, List.mem_filter] at hm
        simpa using hm.2
      · have hno := hnone hr hact
        have hg₅ : s₅.groups = s.groups := (g₅ (hg₄ ▸ hno)).trans hg₄
        intro g hg t hst
        simp only [hg₅] at hg ⊢
        have hg' := (List.mem_filter.1 hg).1
        obtain ⟨target, ht, hid, htst⟩ := hr g hg' t hst
        refine ⟨target, List.mem_filter.2 ⟨ht, ?_⟩, hid, htst⟩
        have hne : t ≠ groupId := by
          rintro rfl
          simpa [GroupRow.redirectsTo, hst] using hno g hg'
        simpa [hid] using hne
    split
    · simp only [wp_bind]
      refine (repointInbound_spec hm₄).imp fun _ s₅ hout => ?_
      obtain ⟨h₅, m₅, r₅, c₅, n₅, g₅⟩ := hout
      exact wp_bind.1 (hend s₅ h₅ m₅ r₅ c₅ n₅ g₅)
    · exact hend s₄ hm₄ rfl rfl rfl rfl fun _ => rfl

end MemoryStore.ThreadGroup
