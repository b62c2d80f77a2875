/-
What each transaction does to the owners: no statement of the schema and no
transaction of the services brings in an owner that its arguments or the rows
it read do not have. The statements come first, then the reconciler, the thread
operations and the operator's mutations.
-/
import MemoryStore.ThreadGroup.Owners

namespace MemoryStore.ThreadGroup

open Tx Table Forest

/-- One owner for each key, and one for each thread id drawn so far. -/
structure Owners where
  ofKey : Key → Int
  ofThread : Nat → Int
  drawn : Nat

def Owners.named (o : Owners) (key : Key) (owner : Int) : Prop := o.ofKey key = owner

def Owners.held (o : Owners) (threadId : Nat) (owner : Int) : Prop := o.ofThread threadId = owner ∧ threadId < o.drawn

/-- The owners are those the rows of a store name. -/
abbrev Owners.Fit (o : Owners) (s : Store) : Prop := Agrees o.named o.held s

/-- **The owners agree**: one owner for each key, and one for each thread, fits every row. -/
def Store.Owned (s : Store) : Prop := ∃ o : Owners, o.drawn ≤ s.nextId ∧ o.Fit s

/-! ## What the statements keep -/

/-- A program that keeps the owners, whatever it ends with. -/
abbrev KeepsOwners {α : Type} (named : Key → Int → Prop) (held : Nat → Int → Prop) (m : StoreTx α) : Prop :=
  Does (Preserves (Agrees named held)) (fun _ => True) m

section Statements

variable {named : Key → Int → Prop} {held : Nat → Int → Prop} {s : Store}

theorem assignKey_owners {threadId : Nat} {userId : Int} {key : Key} {origin : CanonicalKeyOrigin}
    (hk : named key userId) (ht : held threadId userId) :
    KeepsOwners named held (assignKey threadId userId key origin) :=
  Does.get.bind fun _ => (Does.ensure trivial).bind fun _ => (Does.ensure trivial).bind fun _ =>
    Does.writes fun _ h =>
      { h with
        key := fun row hr => by
          rcases List.mem_append.1 hr with hr | hr
          · exact h.key row hr
          · exact List.mem_singleton.1 hr ▸ ⟨hk, ht⟩ }

theorem deleteKey_owners {threadId : Nat} : KeepsOwners named held (deleteKey threadId) :=
  Does.writes fun _ h => { h with key := fun row hr => h.key row (List.mem_filter.1 hr).1 }

theorem upsertResolved_owners {identity : SourceIdentityKey} {threadId : Nat} (ht : held threadId identity.userId) :
    KeepsOwners named held (upsertResolved identity threadId) :=
  Does.writes fun s h => by
    split
    · exact
        { h with
          identity := fun row hr => by
            obtain ⟨row₀, hr₀, rfl⟩ := mem_modifyWhere.1 hr
            split <;> rename_i hp
            · have hp : row₀.identity = identity := by simpa using hp
              exact hp ▸ ht
            · exact h.identity row₀ hr₀ }
    · exact
        { h with
          identity := fun row hr => by
            rcases List.mem_append.1 hr with hr | hr
            · exact h.identity row hr
            · exact List.mem_singleton.1 hr ▸ ht }

theorem deleteIdentity_owners {identity : SourceIdentityKey} : KeepsOwners named held (deleteIdentity identity) :=
  Does.writes fun _ h => { h with identity := fun row hr => h.identity row (List.mem_filter.1 hr).1 }

theorem putMarker_owners {marker : ThreadDeletionMarkerRow}
    (hm : ∀ key ∈ marker.threadCanonicalKey, named key marker.identity.userId) :
    KeepsOwners named held (putMarker marker) :=
  Does.writes fun s h => by
    split
    · exact
        { h with
          marker := fun row hr key hk => by
            obtain ⟨row₀, hr₀, rfl⟩ := mem_modifyWhere.1 hr
            split at hk <;> rename_i hp
            · rw [if_pos hp]
              rcases Option.or_eq_some_iff.1 hk with hk | ⟨-, hk⟩
              · exact hm key hk
              · have hp : row₀.identity = marker.identity := by simpa using hp
                exact hp ▸ h.marker row₀ hr₀ key hk
            · rw [if_neg hp]
              exact h.marker row₀ hr₀ key hk }
    · exact
        { h with
          marker := fun row hr => by
            rcases List.mem_append.1 hr with hr | hr
            · exact h.marker row hr
            · exact List.mem_singleton.1 hr ▸ hm }

theorem consumeMarker_owners {identity : SourceIdentityKey} : KeepsOwners named held (consumeMarker identity) :=
  Does.writes fun _ h => { h with marker := fun row hr => h.marker row (List.mem_filter.1 hr).1 }

/-- A statement that leaves the owner-naming tables alone. -/
theorem groupWrite_owners {f : Store → List GroupRow} :
    KeepsOwners named held (Tx.writes fun s => { s with groups := f s }) :=
  Does.writes fun _ h => { h with }

theorem insertMember_owners {row : MemberRow} (hrow : row.Agrees named held) :
    KeepsOwners named held (insertMember row) :=
  Does.get.bind fun _ => (Does.ensure trivial).bind fun _ => Does.writes fun _ h => h.join hrow

theorem redirectCurrent_owners {key : Key} {groupId : Nat} : KeepsOwners named held (redirectCurrent key groupId) :=
  Does.get.bind fun _ => (Does.writes fun _ h => h.leave key groupId).bind fun _ => Does.pure _

theorem markCurrentDeleted_owners {key : Key} {now : Int} : KeepsOwners named held (markCurrentDeleted key now) :=
  Does.writes fun _ h => h.modifyMembers fun m hp _ => by
    simp only [Bool.and_eq_true] at hp
    refine ⟨?_, fun hm => ⟨hm.key, by simp [MemberState.liveThread?]⟩⟩
    cases hst : m.state <;> simp_all [MemberState.isActive, MemberRow.current, MemberState.current]

/-- A placeholder goes live in a thread that has its key. -/
theorem reviveCurrent_owners {key : Key} {threadId : Nat} (ht : ∀ u, named key u → held threadId u) :
    KeepsOwners named held (reviveCurrent key threadId) :=
  Does.writes fun _ h => h.modifyMembers fun m hp _ => by
    simp only [Bool.and_eq_true, decide_eq_true_eq] at hp
    refine ⟨?_, fun hm => ⟨hm.key, fun t hlive => ?_⟩⟩
    · cases hst : m.state <;> simp_all [MemberState.isDeleted, MemberRow.current, MemberState.current]
    · simp only [MemberState.liveThread?, Option.mem_def, Option.some.injEq] at hlive
      exact hlive ▸ ht _ (hp.1 ▸ hm.key)

theorem setRoleProvenance_owners {key : Key} {role : MemberRole} {provenance : GroupingAuthority} :
    KeepsOwners named held (setRoleProvenance key role provenance) :=
  Does.writes fun _ h => h.modifyMembers fun _ _ hc => ⟨hc, fun hm => ⟨hm.key, hm.thread⟩⟩

theorem detachParentThreadId_owners {threadId : Nat} : KeepsOwners named held (detachParentThreadId threadId) :=
  Does.writes fun _ h => h.modifyRelations fun _ _ ha =>
    ⟨ha, fun hr => ⟨hr.parentKey, by simp, hr.childKey, hr.childThread⟩⟩

theorem detachChildThreadId_owners {threadId : Nat} : KeepsOwners named held (detachChildThreadId threadId) :=
  Does.writes fun _ h => h.modifyRelations fun _ _ ha =>
    ⟨ha, fun hr => ⟨hr.parentKey, hr.parentThread, hr.childKey, by simp⟩⟩

theorem reconnectParentThreadId_owners {key : Key} {threadId : Nat} (ht : ∀ u, named key u → held threadId u) :
    KeepsOwners named held (reconnectParentThreadId key threadId) :=
  Does.writes fun _ h => h.modifyRelations fun r hp ha => ⟨ha, fun hr => ⟨hr.parentKey, fun t hlive => by
    simp only [Bool.and_eq_true, decide_eq_true_eq] at hp
    obtain rfl := Option.some.inj (Option.mem_def.1 hlive)
    exact ht _ (hp.1 ▸ hr.parentKey), hr.childKey, hr.childThread⟩⟩

theorem reconnectChildThreadId_owners {key : Key} {threadId : Nat} (ht : ∀ u, named key u → held threadId u) :
    KeepsOwners named held (reconnectChildThreadId key threadId) :=
  Does.writes fun _ h => h.modifyRelations fun r hp ha => ⟨ha, fun hr => ⟨hr.parentKey, hr.parentThread, hr.childKey,
    fun t hlive => by
      simp only [Bool.and_eq_true, decide_eq_true_eq] at hp
      obtain rfl := Option.some.inj (Option.mem_def.1 hlive)
      exact ht _ (hp.1 ▸ hr.childKey)⟩⟩

theorem generateId_owners : KeepsOwners named held generateId := fun _ h => { h with }

theorem deleteThreadInTx_owners {threadId : Nat} : KeepsOwners named held (deleteThreadInTx threadId) :=
  (Does.writes fun _ h => { h with thread := fun row hr => h.thread row (List.mem_filter.1 hr).1 }).bind fun _ =>
    detachParentThreadId_owners.bind fun _ => detachChildThreadId_owners

end Statements

/-! ## What is found -/

section Found

variable {o : Owners} {s s' : Store}

theorem findResolved_mem {identity : SourceIdentityKey} {row : SourceThreadIdentityRow}
    (h : s.findResolved identity = some row) : row ∈ s.sourceIdentities ∧ row.identity = identity :=
  ⟨List.mem_of_find?_eq_some h, by simpa using List.find?_some h⟩

theorem findMarker_mem {identity : SourceIdentityKey} {row : ThreadDeletionMarkerRow}
    (h : s.findMarker identity = some row) : row ∈ s.markers ∧ row.identity = identity :=
  ⟨List.mem_of_find?_eq_some h, by simpa using List.find?_some h⟩

theorem findThread_mem {threadId : Nat} {row : ThreadRow} (h : s.findThread threadId = some row) :
    row ∈ s.threads ∧ row.id = threadId :=
  ⟨List.mem_of_find?_eq_some h, by simpa using List.find?_some h⟩

theorem userId_of_key? {e : SourceIdentity} {k : SourceIdentityKey} (h : e.key? = some k) : k.userId = e.userId := by
  rw [SourceIdentity.key?_eq_some.1 h]
  rfl

/-- A mapped identity's thread is its owner's. -/
theorem Agrees.resolved (h : o.Fit s) {identity : SourceIdentityKey} {row : SourceThreadIdentityRow}
    (hr : s.findResolved identity = some row) : o.held row.threadId identity.userId := by
  obtain ⟨hmem, rfl⟩ := findResolved_mem hr
  exact h.identity row hmem

/-- The key of an owner's thread is that owner's. -/
theorem Agrees.keyOf (h : o.Fit s) {threadId : Nat} {row : ThreadCanonicalKeyRow} {owner : Int}
    (hr : s.findKeyByThreadId threadId = some row) (ht : o.held threadId owner) : o.named row.key owner := by
  obtain ⟨hmem, rfl⟩ := findKeyByThreadId_mem hr
  exact (h.key row hmem).1.trans ((h.key row hmem).2.1.symm.trans ht.1)

theorem Agrees.hasKey (h : o.Fit s) {threadId : Nat} {key : Key} {owner : Int} (hk : s.HasKey threadId key)
    (ht : o.held threadId owner) : o.named key owner := by
  obtain ⟨row, hmem, rfl, rfl⟩ := hk
  exact (h.key row hmem).1.trans ((h.key row hmem).2.1.symm.trans ht.1)

/-- A candidate's parent comes with the owner of its thread. -/
theorem OfferedCandidate.Resolves.owners {offer : OfferedCandidate} (hr : offer.Resolves s) (h : o.Fit s) :
    o.named offer.candidate.parentKey offer.parent.userId ∧
      ∀ t ∈ s.resolvedThreadId offer.parent, o.held t offer.parent.userId := by
  obtain ⟨identity, row, key, hid, hres, hkey, hparent⟩ := hr.mapped
  have hheld : o.held row.threadId offer.parent.userId := userId_of_key? hid ▸ h.resolved hres
  refine ⟨hparent ▸ h.keyOf hkey hheld, fun t ht => ?_⟩
  have hrow : s.resolvedThreadId offer.parent = some row.threadId := by
    simp [Store.resolvedThreadId, SourceIdentity.lockKey_of_key? hid, hres]
  rw [hrow] at ht
  exact Option.some.inj ht ▸ hheld

/-! ## Thread operations -/

theorem deleteThreadsTx_owners {targets : List Nat} {forbidReimport : Bool} {now : Int} (h : o.Fit s) :
    wp (deleteThreadsTx targets forbidReimport now) (fun _ s' => o.Fit s') (fun _ => True) s := by
  simp only [deleteThreadsTx, wp_bind, wp_get]
  -- The key and the identities are those of one thread in the store the transaction began with.
  have htarget : ∀ threadId, KeepsOwners o.named o.held (deleteTarget forbidReimport now
      ((s.findKeyByThreadId threadId).map ThreadCanonicalKeyRow.key) (s.listIdentitiesByThreadId threadId) threadId) := by
    intro threadId
    have hmarkers : ∀ key, key = (s.findKeyByThreadId threadId).map ThreadCanonicalKeyRow.key →
        KeepsOwners o.named o.held (do
          Tx.forEach (s.listIdentitiesByThreadId threadId) fun row => do
            putMarker ⟨row.identity, forbidReimport, key⟩
            deleteIdentity row.identity
          deleteKey threadId : StoreTx Unit) := by
      rintro _ rfl
      refine (Does.forEach fun row hrow => (putMarker_owners fun key hkey => ?_).bind fun _ =>
        deleteIdentity_owners).bind fun _ => deleteKey_owners
      obtain ⟨krow, hkrow, rfl⟩ := Option.map_eq_some_iff.1 (Option.mem_def.1 hkey)
      rw [Store.listIdentitiesByThreadId, List.mem_insertionSort, List.mem_filter] at hrow
      have hid : row.threadId = threadId := by simpa using hrow.2
      exact h.keyOf hkrow (hid ▸ h.identity row hrow.1)
    refine deleteThreadInTx_owners.bind fun _ => ?_
    cases hkey : (s.findKeyByThreadId threadId).map ThreadCanonicalKeyRow.key with
    | none => exact hmarkers none hkey.symm
    | some key => exact markCurrentDeleted_owners.bind fun _ => hmarkers (some key) hkey.symm
  exact (Does.forEach (fun threadId _ => htarget threadId) s).imp fun _ _ hkeep => hkeep h

/-- Thread ids that were not drawn get an owner; keys have the owners they had. -/
structure Owners.Extended (o o' : Owners) (s' : Store) : Prop where
  ofKey : o'.ofKey = o.ofKey
  drawn : o'.drawn ≤ s'.nextId
  fit : o'.Fit s'

def Owners.giveKey (o : Owners) (key : Key) (owner : Int) : Owners :=
  { o with ofKey := Function.update o.ofKey key owner }

def Owners.giveThread (o : Owners) (threadId : Nat) (owner : Int) (drawn : Nat) : Owners :=
  { o with ofThread := Function.update o.ofThread threadId owner, drawn }

/-- Every row that names the key's owner names this one. -/
def Store.NamesOnly (s : Store) (key : Key) (owner : Int) : Prop :=
  Agrees (fun k u => k = key → u = owner) (fun _ _ => True) s

/-- Every row that names the thread's owner names this one. -/
def Store.HoldsOnly (s : Store) (threadId : Nat) (owner : Int) : Prop :=
  Agrees (fun _ _ => True) (fun t u => t = threadId → u = owner) s

theorem Agrees.giveKey (h : o.Fit s) {key : Key} {owner : Int} (hn : s.NamesOnly key owner) :
    (o.giveKey key owner).Fit s :=
  (h.and hn).mono (fun k u ⟨hk, hu⟩ => by
    by_cases he : k = key
    · subst he; simp [Owners.named, Owners.giveKey, hu rfl]
    · simpa [Owners.named, Owners.giveKey, he] using hk) fun _ _ ht => ht.1

theorem Agrees.giveThread (h : o.Fit s) {threadId : Nat} {owner : Int} {drawn : Nat}
    (hh : s.HoldsOnly threadId owner) (hd : o.drawn ≤ drawn) : (o.giveThread threadId owner drawn).Fit s :=
  (h.and hh).mono (fun _ _ hk => hk.1) fun t u ⟨ht, hu⟩ => by
    refine ⟨?_, ht.2.trans_le hd⟩
    by_cases he : t = threadId
    · subst he; simp [Owners.giveThread, hu rfl]
    · simpa [Owners.giveThread, he] using ht.1

theorem Owners.giveThread_held {threadId : Nat} {owner : Int} {drawn : Nat} (h : threadId < drawn) :
    (o.giveThread threadId owner drawn).held threadId owner := ⟨by simp [Owners.giveThread], h⟩

/-- No row names an owner for an id that is not drawn. -/
theorem Agrees.holdsOnly_next (h : o.Fit s) (hd : o.drawn ≤ s.nextId) (owner : Int) : s.HoldsOnly s.nextId owner :=
  h.mono (fun _ _ _ => trivial) fun t u ht he => absurd (he ▸ ht.2) (by omega)

theorem insertThread_owners (h : o.Fit s) (hd : o.drawn ≤ s.nextId) (userId : Int) (channel : Option String) :
    wp (insertThread userId channel) (fun id s' => ∃ o', o.Extended o' s' ∧ o'.held id userId ∧
      s'.canonicalKeys = s.canonicalKeys) (fun _ => True) s := by
  have hheld : (o.giveThread s.nextId userId (s.nextId + 1)).held s.nextId userId :=
    Owners.giveThread_held (Nat.lt_succ_self _)
  have hfit : (o.giveThread s.nextId userId (s.nextId + 1)).Fit s := h.giveThread (h.holdsOnly_next hd userId) (by omega)
  simp only [insertThread, generateId, wp_bind, wp_reads, wp_writes, wp_pure]
  refine ⟨o.giveThread s.nextId userId (s.nextId + 1), ⟨rfl, le_rfl, ?_⟩, hheld, trivial⟩
  exact
    { hfit with
      thread := fun row hr => by
        rcases List.mem_append.1 hr with hr | hr
        · exact hfit.thread row hr
        · exact List.mem_singleton.1 hr ▸ hheld }

theorem createThread_owners (h : o.Fit s) (hd : o.drawn ≤ s.nextId) {userId : Int} {channel : Option String}
    {randomKey : Key} (hk : o.named randomKey userId) :
    wp (ThreadGroup.createThread userId channel randomKey) (fun _ s' => s'.Owned) (fun _ => True) s := by
  simp only [ThreadGroup.createThread, wp_bind, wp_pure]
  refine (insertThread_owners h hd userId channel).imp fun id s₁ hout => ?_
  obtain ⟨o', h', hheld, _⟩ := hout
  have hn : wp (assignKey id userId randomKey .creationUuid) (fun _ s' => s₁.nextId ≤ s'.nextId) Benign s₁ :=
    (assignKey_maps s₁).imp fun _ _ hm => hm.keeps.nextId
  have hk' : o'.named randomKey userId := (congrFun h'.ofKey randomKey).trans hk
  refine ((assignKey_owners hk' hheld s₁).and hn).mono (fun _ s₂ hout => ?_) fun _ _ => trivial
  obtain ⟨hkeep, hle⟩ := hout
  exact ⟨o', h'.drawn.trans hle, hkeep h'.fit⟩

theorem ensureThreadCanonicalKey_owners (h : o.Fit s) {threadId : Nat} {userId : Int} {randomKey : Key}
    (hk : s.findKeyByThreadId threadId = none → o.named randomKey userId ∧ o.held threadId userId) :
    wp (ensureThreadCanonicalKey threadId userId randomKey) (fun _ s' => o.Fit s') (fun _ => True) s := by
  simp only [ensureThreadCanonicalKey, wp_bind, wp_get]
  split
  · exact h
  · next hnone =>
    simp only [wp_bind, wp_pure]
    exact (assignKey_owners (hk hnone).1 (hk hnone).2 s).imp fun _ _ hkeep => hkeep h

/-! ## Batches -/

/-- The thread a batch goes to, if it is there already. -/
def Store.batchThread (s : Store) : BatchThreadTarget → Option ThreadRow
  | .existingThreadId threadId => s.findThread threadId
  | .upsertByChannel userId channel => (s.findByChannelAndUserId channel userId).head?

theorem ensureMappedTo_same (mapped : Option Nat) (threadId : Nat) (refusing : String) (s : Store) :
    wp (ensureMappedTo mapped threadId refusing) (fun _ s' => s' = s) (fun _ => True) s := by
  unfold ensureMappedTo
  split <;> simp

/-- A batch goes to the thread that is there, or to a new one, and has its owner. -/
theorem resolveBatchThread_owners (h : o.Fit s) (hd : o.drawn ≤ s.nextId) (target : BatchThreadTarget)
    (mapped : Option Nat) :
    wp (resolveBatchThread target mapped) (fun out s' => ∃ o', o.Extended o' s' ∧ o'.held out.1 out.2.2 ∧
      s'.canonicalKeys = s.canonicalKeys ∧ ∀ row, s.batchThread target = some row → row.id = out.1)
      (fun _ => True) s := by
  have hsame : o.Extended o s := ⟨rfl, hd, h⟩
  simp only [resolveBatchThread, wp_bind, wp_get]
  split
  · next threadId =>
    split
    · trivial
    · next row hrow =>
      simp only [wp_bind, wp_pure]
      refine (ensureMappedTo_same ..).imp fun _ s₁ h₁ => ?_
      subst h₁
      obtain ⟨hmem, rfl⟩ := findThread_mem hrow
      exact ⟨o, hsame, h.thread row hmem, rfl, fun row' hr => by rw [Store.batchThread, hrow] at hr; simp_all⟩
  · next userId channel =>
    simp only [wp_bind, wp_ensure]
    refine ⟨fun _ => ⟨fun _ => ?_, fun _ => trivial⟩, fun _ => trivial⟩
    split
    · next hnone =>
      split
      · trivial
      · simp only [wp_bind, wp_pure]
        refine (insertThread_owners h hd userId (some channel)).imp fun id s₁ hout => ?_
        obtain ⟨o', h', hheld, hkeys⟩ := hout
        exact ⟨o', h', hheld, hkeys, fun row hr => by simp [Store.batchThread, hnone] at hr⟩
    · next row hrow =>
      simp only [wp_bind, wp_pure]
      refine (ensureMappedTo_same ..).imp fun _ s₁ h₁ => ?_
      subst h₁
      have hmem : row ∈ s₁.threads :=
        (List.mem_filter.1 (show row ∈ s₁.findByChannelAndUserId channel userId by simp [hrow])).1
      exact ⟨o, hsame, h.thread row hmem, rfl, fun row' hr => by
        rw [Store.batchThread, hrow] at hr
        exact congrArg ThreadRow.id (Option.some.inj hr).symm⟩
    · trivial

theorem reviveKey_owners {key : Key} {threadId : Nat} {identity : SourceIdentityKey}
    (hk : o.named key identity.userId) (ht : o.held threadId identity.userId) :
    KeepsOwners o.named o.held (reviveKey key threadId identity) := by
  have hof : ∀ u, o.named key u → o.held threadId u := fun u hu => by
    obtain rfl : identity.userId = u := hk.symm.trans hu
    exact ht
  have hrest : KeepsOwners o.named o.held (do
      reviveCurrent key threadId
      reconnectParentThreadId key threadId
      reconnectChildThreadId key threadId : StoreTx Unit) :=
    (reviveCurrent_owners hof).bind fun _ => (reconnectParentThreadId_owners hof).bind fun _ =>
      reconnectChildThreadId_owners hof
  refine Does.get.bind fun s => ?_
  dsimp only
  split
  · exact (assignKey_owners hk ht).bind fun _ => hrest
  · exact hrest

theorem Batches.nextId (hb : Batches s s') : s.nextId ≤ s'.nextId := by
  cases hb with
  | maps _ h => exact h.keeps.nextId
  | revives _ _ _ _ _ h₁ _ _ h₂ => exact h₁.keeps.nextId.trans h₂.keeps.nextId

/-- The batch of an identity that has neither a key kept in its marker nor a thread with a key assigns its own key. -/
def Store.BatchAssigns (s : Store) (target : BatchThreadTarget) (identity : SourceIdentityKey) : Prop :=
  (s.findMarker identity).bind ThreadDeletionMarkerRow.threadCanonicalKey = none ∧
    (s.batchThread target).bind (fun row => s.findKeyByThreadId row.id) = none

theorem addMemoriesBatch_owners [KeyHash] (h : o.Fit s) (hd : o.drawn ≤ s.nextId) {target : BatchThreadTarget}
    {sourceIdentity : Option SourceIdentity} {explicitOverride : Bool}
    (hk : ∀ identity, sourceIdentity.bind SourceIdentity.key? = some identity → s.BatchAssigns target identity →
      o.named identity.canonicalKey identity.userId) :
    wp (addMemoriesBatch target sourceIdentity explicitOverride) (fun _ s' => s'.Owned) (fun _ => True) s := by
  simp only [addMemoriesBatch, wp_bind, wp_get]
  split
  · exact ⟨o, hd, h⟩
  · simp only [wp_bind]
    refine (resolveBatchThread_owners h hd ..).imp fun out s₁ hout => ?_
    obtain ⟨o', h', hheld, hkeys, hthread⟩ := hout
    simp only [wp_ensure]
    refine ⟨fun howner => ⟨fun _ => ?_, fun _ => trivial⟩, fun _ => trivial⟩
    split
    · exact ⟨o', h'.drawn, h'.fit⟩
    · next identity hid =>
      obtain ⟨source, hsource, hkey⟩ := Option.bind_eq_some_iff.1 hid
      have hu : identity.userId = out.2.2 := by
        have : source.userId = out.2.2 := by simpa [hsource] using howner
        exact (userId_of_key? hkey).trans this
      -- The key the batch revives is its owner's, wherever it comes from.
      have hrevive : ∀ s₂ : Store, o'.Fit s₂ → s₂.nextId = s₁.nextId → s₂.canonicalKeys = s₁.canonicalKeys →
          wp (reviveIdentity out.1 identity
            ((sourceIdentity.bind SourceIdentity.key?).bind s.findMarker |>.bind
              ThreadDeletionMarkerRow.threadCanonicalKey))
            (fun _ s' => s'.Owned) (fun _ => True) s₂ := by
        intro s₂ h₂ hn₂ hk₂
        have hnamed : o'.named ((((s₂.findKeyByThreadId out.1).map ThreadCanonicalKeyRow.key).or
            ((s.findMarker identity).bind ThreadDeletionMarkerRow.threadCanonicalKey)).getD identity.canonicalKey)
            identity.userId := by
          cases hassigned : s₂.findKeyByThreadId out.1 with
          | some row => exact h₂.keyOf hassigned (hu ▸ hheld)
          | none =>
            cases hmarker : (s.findMarker identity).bind ThreadDeletionMarkerRow.threadCanonicalKey with
            | some key =>
              obtain ⟨marker, hm, hmk⟩ := Option.bind_eq_some_iff.1 hmarker
              obtain ⟨hmem, rfl⟩ := findMarker_mem hm
              exact (congrFun h'.ofKey key).trans (h.marker marker hmem key hmk)
            | none =>
              refine (congrFun h'.ofKey _).trans (hk identity hid ⟨hmarker, ?_⟩)
              cases hb : s.batchThread target with
              | none => rfl
              | some row =>
                have hfind : s.findKeyByThreadId row.id = s₂.findKeyByThreadId out.1 := by
                  simp only [Store.findKeyByThreadId, hthread row hb, hk₂, hkeys]
                exact hfind.trans hassigned
        rw [hid]
        have hkeeps : KeepsOwners o'.named o'.held (do
            reviveKey _ out.1 identity
            upsertResolved identity out.1 : StoreTx Unit) :=
          (reviveKey_owners hnamed (hu ▸ hheld)).bind fun _ => upsertResolved_owners (hu ▸ hheld)
        have hfit : wp (reviveIdentity out.1 identity ((s.findMarker identity).bind
            ThreadDeletionMarkerRow.threadCanonicalKey)) (fun _ s' => o'.Fit s') (fun _ => True) s₂ :=
          wp_bind.2 (wp_get.2 ((hkeeps s₂).imp fun _ _ hkeep => hkeep h₂))
        refine (hfit.and (reviveIdentity_spec s₂)).mono (fun _ s' hout => ?_) fun _ _ => trivial
        obtain ⟨hfit', hb⟩ := hout
        exact ⟨o', (h'.drawn.trans hn₂.ge).trans hb.nextId, hfit'⟩
      split
      · simp only [wp_bind, wp_pure]
        exact hrevive { s₁ with markers := s₁.markers.filter (fun row => row.identity ≠ identity) }
          (consumeMarker_owners s₁ h'.fit) rfl rfl
      · simp only [wp_bind, wp_pure]
        exact hrevive s₁ h'.fit rfl rfl

variable [KeyHash]

/-! ## The reconciler -/

theorem KeyAssigned.owners {threadId : Nat} {identity : SourceIdentityKey} {key : Key}
    (ha : KeyAssigned threadId identity key s s') (h : o.Fit s) (ht : o.held threadId identity.userId)
    (hk : s.findKeyByThreadId threadId = none → o.named identity.canonicalKey identity.userId) :
    o.Fit s' ∧ o.named key identity.userId := by
  have hspec : wp (assignSubjectKey threadId identity) (fun key s' => o.Fit s' ∧ o.named key identity.userId)
      (fun _ => True) s := by
    simp only [assignSubjectKey, wp_bind, wp_get]
    split
    · next row hrow =>
      simp only [wp_bind, wp_pure]
      exact (upsertResolved_owners ht s).imp fun _ _ hkeep => ⟨hkeep h, h.keyOf hrow ht⟩
    · next hnone =>
      simp only [wp_bind, wp_pure]
      exact (assignKey_owners (hk hnone) ht s).imp fun _ s₁ h₁ =>
        (upsertResolved_owners ht s₁).imp fun _ _ h₂ => ⟨h₂ (h₁ h), hk hnone⟩
  exact hspec.ok ha

theorem Adopts.owners {threadId : Nat} {key : Key} {subject : ObservedEndpoint} {offers : List OfferedCandidate}
    {owner : Int} (ha : Adopts threadId key subject offers owner s s') (hs : Sound s) (h : o.Fit s)
    (hk : o.named key subject.userId) (ht : o.held threadId subject.userId)
    (hoffers : ∀ offer ∈ offers, o.named offer.candidate.parentKey offer.parent.userId ∧
      ∀ t ∈ s.resolvedThreadId offer.parent, o.held t offer.parent.userId) : o.Fit s' := by
  cases ha with
  | unselected => exact h
  | tied _ _ _ hev => exact (h.retracted key).evidence hev
  | refused _ _ _ _ hev => exact h.evidence hev
  | applied winner offer _ _ _ _ hno hoffer happ hev =>
    obtain ⟨hparent, hthread⟩ := hoffers offer (List.mem_of_find?_eq_some hoffer)
    have hwinner : offer.candidate = winner := by simpa using List.find?_some hoffer
    have he : (s.selectedEdge threadId key subject offer.parent winner owner).Agrees o.named o.held :=
      ⟨hk, ht, hwinner ▸ hparent, hthread⟩
    exact (happ.agrees hs hno he h).evidence hev

/-- The subject's transaction copies the owner the subject has. -/
theorem Reconciles.owners {threadId : Nat} {subject : ObservedEndpoint} {observations : List ObservationInput}
    {owner : Int} (hr : Reconciles threadId subject observations owner s s') (hs : Sound s) (h : o.Fit s)
    (ht : o.held threadId subject.userId)
    (hk : ∀ identity, subject.key? = some identity → s.findKeyByThreadId threadId = none →
      o.named identity.canonicalKey identity.userId) : o.Fit s' := by
  cases hr with
  | evidence _ _ hev => exact h.evidence hev
  | subject identity key ids s₁ s₂ s₃ _ hkey hassigned hev _ hadopts hhoused =>
    have hu : identity.userId = subject.userId := userId_of_key? hkey
    obtain ⟨h₁, hnamed⟩ := hassigned.owners h (hu ▸ ht) (hk identity hkey)
    have hs₂ := (hassigned.mapping.tables hs).evidence hev
    have h₃ : o.Fit s₃ := hadopts.owners hs₂ (h₁.evidence hev) (hu ▸ hnamed) ht fun offer hoffer => by
      rw [hev.read (fun s => s.resolvedThreadId offer.parent) fun _ => rfl]
      exact (offersFrom_resolves hoffer).owners h₁
    exact hhoused.agrees h₃ (hu ▸ hnamed) ht

/-- Late discovery takes its subject's owner from the identity that is mapped. -/
theorem Discovers.owners {observationId : Nat} (hd : Discovers observationId s s') (hs : Sound s) (h : o.Fit s) :
    o.Fit s' := by
  cases hd with
  | nothing => exact h
  | adopts _ subject _ late _ _ _ _ hlate hadopts =>
    obtain ⟨hknown, row, hrow, hthread⟩ := lateSubject_known hlate
    have ht : o.held late.threadId subject.endpoint.userId := hthread ▸ h.resolved hrow
    exact hadopts.owners hs h (h.hasKey hknown.key ht) ht fun offer hoffer => (hknown.offers offer hoffer).owners h

/-- A guarded reconcile is for the owner of the thread. -/
theorem reconcileSubjectTx_guarded (threadId : Nat) (subject : ObservedEndpoint) (observations : List ObservationInput)
    (owner : Int) (operationId : String) (now : Int) (s : Store) :
    wp (reconcileSubjectTx threadId subject observations owner operationId now true)
      (fun _ _ => ∃ row, s.findThread threadId = some row ∧ subject.userId = row.userId) (fun _ => True) s := by
  have hrun : reconcileSubjectTx threadId subject observations owner operationId now true =
      (checkImportGuard threadId subject observations >>= fun _ =>
        reconcileSubjectTx threadId subject observations owner operationId now false) := rfl
  rw [hrun, wp_bind]
  have htrivial : ∀ {α : Type} (m : StoreTx α) (s : Store), wp m (fun _ _ => True) (fun _ => True) s := fun m s => by
    unfold wp
    split <;> trivial
  simp only [checkImportGuard, wp_bind, wp_get]
  split
  · trivial
  · next row hrow =>
    simp only [wp_bind, wp_ensure, decide_eq_true_eq]
    refine ⟨fun hu => ?_, fun _ => trivial⟩
    refine (htrivial _ s).imp fun _ s₁ _ => (htrivial _ s₁).imp fun _ _ _ => ⟨row, hrow, hu⟩

/-! ## The operator's mutations -/

/-- A program that reads the store it starts in. -/
theorem wp_get_owners {α : Type} {f : Store → StoreTx α} (h : o.Fit s)
    (hf : KeepsOwners o.named o.held (f s)) : wp (Tx.get >>= f) (fun _ s' => o.Fit s') (fun _ => True) s :=
  wp_bind.2 (wp_get.2 ((hf s).imp fun _ _ hkeep => hkeep h))

theorem redirectGroup_owners {id target : Nat} : KeepsOwners o.named o.held (redirectGroup id target) :=
  Does.get.bind fun _ => (Does.ensure trivial).bind fun _ => groupWrite_owners.bind fun _ => Does.pure _

theorem repointRedirect_owners {id target : Nat} : KeepsOwners o.named o.held (repointRedirect id target) :=
  Does.get.bind fun _ => (Does.ensure trivial).bind fun _ => groupWrite_owners.bind fun _ => Does.pure _

theorem createGroup_owners {userId : Int} {key : Key} {title : Option String} {authority : GroupingAuthority} :
    KeepsOwners o.named o.held (createGroup userId key title authority) :=
  generateId_owners.bind fun _ => Does.get.bind fun _ => (Does.ensure trivial).bind fun _ =>
    groupWrite_owners.bind fun _ => Does.pure _

/-- Loops over the members of a group leave all of them. -/
theorem redirectAll_owners {rows : List MemberRow} {groupId : Nat} :
    KeepsOwners o.named o.held (Tx.forEach rows fun row => do
      let _ ← redirectCurrent row.threadCanonicalKey groupId
      pure () : StoreTx Unit) :=
  Does.forEach fun _ _ => redirectCurrent_owners.bind fun _ => Does.pure ()

theorem mergeGroups_owners {source target : Nat} (h : o.Fit s) :
    wp (mergeGroups source target) (fun _ s' => o.Fit s') (fun _ => True) s := by
  refine wp_bind.2 (wp_ensure.2 ⟨fun _ => ?_, fun _ => trivial⟩)
  refine wp_get_owners h ?_
  dsimp only
  split
  · exact Does.pure _
  · refine (Does.ensure trivial).bind fun _ => (Does.ensure trivial).bind fun _ => (Does.ensure trivial).bind fun _ => ?_
    refine redirectAll_owners.bind fun _ => (Does.forEach fun m hm => insertMember_owners ?_).bind fun _ => ?_
    · obtain ⟨hmem, -, hcur⟩ := mem_listCurrentByGroupId.1 (List.mem_filter.1 hm).1
      exact ⟨(h.member m hmem hcur).key, (h.member m hmem hcur).thread⟩
    · refine redirectGroup_owners.bind fun _ => (Does.forEach fun _ _ => repointRedirect_owners.bind fun _ =>
        Does.pure ()).bind fun _ => groupWrite_owners.bind fun _ => Does.get.bind fun _ =>
          (Does.forEach fun _ _ => setRoleProvenance_owners).bind fun _ => ?_
      refine Does.bind ?_ fun _ => Does.pure _
      exact generateId_owners.bind fun _ => Does.get.bind fun _ => (Does.ensure trivial).bind fun _ =>
        Does.writes fun _ h => { h with }

theorem attachMember_owners {groupId threadId : Nat} {key : Key} {endpoint : Option ObservedEndpoint} (h : o.Fit s)
    (hk : s.findCurrent key = none → o.named key ((endpoint.map SourceIdentity.userId).getD 0) ∧
      o.held threadId ((endpoint.map SourceIdentity.userId).getD 0)) :
    wp (attachMember groupId threadId key endpoint) (fun _ s' => o.Fit s') (fun _ => True) s := by
  refine wp_get_owners h ?_
  split
  · exact Does.fail trivial
  · refine (Does.ensure trivial).bind fun _ => Does.ite (fun _ => Does.pure ()) fun hn => ?_
    obtain ⟨hnamed, hheld⟩ := hk (by simpa using hn)
    have hid : KeepsOwners o.named o.held (attachIdentity endpoint) := fun s =>
      (attachIdentity_spec endpoint s).mono (fun _ s' h' h => h' ▸ h) fun _ _ => trivial
    refine hid.bind fun identity => (insertMember_owners ⟨hnamed, fun t ht => ?_⟩).bind fun _ => groupWrite_owners
    obtain rfl := Option.some.inj (Option.mem_def.1 ht)
    exact hheld

/-- Keys, states and owners of a split's members come from the source's own rows. -/
theorem insertSuccessorMembers_owners {rows : List MemberRow} (hrows : ∀ row ∈ rows, row.Agrees o.named o.held)
    {groupId : Nat} {memberships : List Membership}
    (hmem : ∀ m ∈ memberships, m ∈ rows.map MemberRow.membership) :
    KeepsOwners o.named o.held (insertSuccessorMembers rows groupId memberships) :=
  Does.forEach fun m hm => by
    cases hfind : rows.find? (fun row => row.threadCanonicalKey = m.threadCanonicalKey) with
    | none => exact Does.fail trivial
    | some row =>
      obtain ⟨from', hfrom, rfl⟩ := List.mem_map.1 (hmem m hm)
      have hrow := hrows row (List.mem_of_find?_eq_some hfind)
      have hkey : row.threadCanonicalKey = from'.membership.threadCanonicalKey := by
        simpa using List.find?_some hfind
      -- Two rows with one key have one owner.
      have howner : from'.userId = row.userId := 
        (hrows from' hfrom).key.symm.trans ((congrArg o.ofKey hkey.symm).trans hrow.key)
      exact insertMember_owners ⟨hrow.key, fun t ht => howner ▸ (hrows from' hfrom).thread t ht⟩

theorem splitGroup_owners {source : Nat} {partitions : List (List Key)} (hs : Memberships s) (h : o.Fit s) :
    wp (splitGroup source partitions) (fun _ s' => o.Fit s') (fun _ => True) s := by
  refine wp_get_owners h ?_
  split
  · exact Does.fail trivial
  · next group _ =>
    split
    · split
      · exact Does.pure _
      · exact Does.fail trivial
    · refine (Does.ensure trivial).bind fun _ => ?_
      dsimp only
      split
      · exact Does.fail trivial
      · next successors hsuccessors =>
        obtain ⟨-, hmem, -⟩ := splitMemberships_ok hsuccessors (by
          rw [List.map_map]
          exact hs.nodup_listCurrent source)
        have hrows : ∀ row ∈ s.listCurrentByGroupId source, row.Agrees o.named o.held := fun row hrow => by
          obtain ⟨hmem, -, hcur⟩ := mem_listCurrentByGroupId.1 hrow
          exact h.member row hmem hcur
        refine redirectAll_owners.bind fun _ => (Does.collect fun memberships hms => ?_).bind fun ids =>
          groupWrite_owners.bind fun _ => Does.bind ?_ fun _ => Does.pure _
        · exact createGroup_owners.bind fun _ => (insertSuccessorMembers_owners hrows fun m hm =>
            hmem m (List.mem_flatten.2 ⟨memberships, hms, hm⟩)).bind fun _ => Does.pure _
        · exact generateId_owners.bind fun _ => Does.get.bind fun _ => (Does.ensure trivial).bind fun _ =>
            Does.writes fun _ h => { h with }

/-- A purge only takes rows away. -/
theorem purgeGroup_owners [PurgeDigest] {groupId : Nat} {expectedDigest : String} :
    KeepsOwners o.named o.held (purgeGroup groupId expectedDigest) := by
  refine Does.get.bind fun s => ?_
  split
  · exact Does.fail trivial
  · next group _ =>
    have hmarkers : KeepsOwners o.named o.held (purgeMarkers groupId (s.listAllByGroupId groupId)) := by
      refine Does.forEach fun m _ => ?_
      cases m.identity with
      | none => exact Does.pure ()
      | some identity =>
        exact Does.get.bind fun _ => Does.ite (fun _ => Does.pure ()) fun _ =>
          Does.ite (fun _ => Does.pure ()) fun _ => consumeMarker_owners
    have hinbound : ∀ target, KeepsOwners o.named o.held (repointInbound groupId target) := fun target => by
      exact Does.get.bind fun _ => Does.forEach fun _ _ => repointRedirect_owners.bind fun _ => Does.pure ()
    have hdelete : KeepsOwners o.named o.held (do
        let deleted ← deleteGroup groupId
        Tx.ensure deleted (.bail s!"group {groupId} disappeared during purge") : StoreTx Unit) :=
      Does.bind (Does.get.bind fun _ => groupWrite_owners.bind fun _ => Does.pure _) fun _ => Does.ensure trivial
    refine (Does.ensure trivial).bind fun _ => (Does.ensure trivial).bind fun _ => (Does.ensure trivial).bind fun _ => ?_
    refine (Does.forEach fun r _ => Does.writes fun _ h =>
      { h with relation := fun r hr => h.relation r (List.mem_filter.1 hr).1 }).bind fun _ => ?_
    refine Does.bind (Does.writes fun _ h => { h with }) fun _ => ?_
    refine Does.bind (Does.writes fun _ h =>
      { h with member := fun m hm => h.member m (List.mem_filter.1 hm).1 }) fun _ => hmarkers.bind fun _ => ?_
    split
    · exact (hinbound _).bind fun _ => hdelete
    · exact hdelete

end Found

end MemoryStore.ThreadGroup
