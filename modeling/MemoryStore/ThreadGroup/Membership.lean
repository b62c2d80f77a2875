/-
The membership half of the reconciler: what `place_member` can do to the groups
and members, and the rule its callers' loops are verified by.

`Memberships` is what the group tables keep across every operation: one current
row for each key, one active group for each group key, and every current row in
an active group. `Placed` says once what a placement can do; the facts the
claims need are read off it.
-/
import MemoryStore.ThreadGroup.Frame

namespace MemoryStore.ThreadGroup

open Tx Table

/-! ## The tables -/

/-- The store has an active group of this id. -/
def Store.HasActive (s : Store) (groupId : Nat) : Prop := ∃ g ∈ s.groups, g.id = groupId ∧ g.isActive = true

/-- What the group tables keep. -/
structure Memberships (s : Store) : Prop where
  current : UniqueWhere MemberRow.current MemberRow.threadCanonicalKey s.members
  groupId : UniqueWhere (fun _ => true) GroupRow.id s.groups
  fresh : ∀ g ∈ s.groups, g.id < s.nextId
  activeKey : UniqueWhere GroupRow.isActive GroupRow.groupCanonicalKey s.groups
  inActive : ∀ m ∈ s.members, m.current = true → s.HasActive m.groupId

/-- Every redirect ends in one hop: at a group that is there, and active or split. -/
def RedirectsResolve (s : Store) : Prop :=
  ∀ g ∈ s.groups, ∀ target, g.status = .redirected target →
    ∃ t ∈ s.groups, t.id = target ∧ (t.status = .active ∨ t.status = .split)

theorem Memberships.empty : Memberships Store.empty :=
  ⟨UniqueWhere.nil, UniqueWhere.nil, by simp [Store.empty], UniqueWhere.nil, by simp [Store.empty]⟩

section Views

variable {s : Store}

theorem Memberships.findGroup_eq_some (h : Memberships s) {id : Nat} {g : GroupRow} :
    s.findGroup id = some g ↔ g ∈ s.groups ∧ g.id = id := by
  simpa [Store.findGroup] using h.groupId.find?_eq_some (k := id) (r := g)

theorem Memberships.findCurrent_eq_some (h : Memberships s) {key : Key} {m : MemberRow} :
    s.findCurrent key = some m ↔ m ∈ s.members ∧ m.current = true ∧ m.threadCanonicalKey = key :=
  h.current.find?_eq_some

theorem findCurrent_mem {key : Key} {m : MemberRow} (h : s.findCurrent key = some m) :
    m ∈ s.members ∧ m.current = true ∧ m.threadCanonicalKey = key := find?_mem h

theorem Memberships.hasActive_of_findCurrent (h : Memberships s) {key : Key} {m : MemberRow}
    (hm : s.findCurrent key = some m) : s.HasActive m.groupId :=
  h.inActive m (findCurrent_mem hm).1 (findCurrent_mem hm).2.1

theorem countCurrent_eq_zero {groupId : Nat} :
    s.countCurrentByGroupId groupId = 0 ↔ ∀ m ∈ s.members, m.current = true → m.groupId ≠ groupId := by
  simp only [Store.countCurrentByGroupId, List.countP_eq_zero, Bool.and_eq_true, decide_eq_true_eq]
  exact ⟨fun h m hm hc hg => h m hm ⟨hg, hc⟩, fun h m hm ⟨hg, hc⟩ => h m hm hc hg⟩

end Views

/-! ## Single writes -/

/-- A new row in the member table. -/
def Store.join (s : Store) (row : MemberRow) : Store := { s with members := s.members ++ [row] }

/-- The store after `redirect_current_tx`. -/
def Store.leave (s : Store) (key : Key) (groupId : Nat) : Store :=
  { s with
      members := modifyWhere (fun m => m.threadCanonicalKey = key && m.groupId = groupId && m.current)
        (fun m => { m with state := m.state.redirect }) s.members }

/-- A group redirected to another, with every redirect that pointed at it. -/
def Store.close (s : Store) (old target : Nat) : Store :=
  { s with
      groups := modifyWhere (fun g => (g.id = old && g.isActive) || g.redirectsTo old)
        (fun g => { g with status := .redirected target }) s.groups }

/-- A new active group, under the next id. -/
def Store.addGroup (s : Store) (userId : Int) (groupCanonicalKey : Key) (title : Option String)
    (groupingAuthority : GroupingAuthority) : Store :=
  { s with
      groups := s.groups ++ [⟨s.nextId, userId, groupCanonicalKey, title, .active, groupingAuthority⟩]
      nextId := s.nextId + 1 }

@[simp] theorem redirect_current (state : MemberState) : state.redirect.current = false := by cases state <;> rfl

section Writes

variable {s : Store}

theorem Store.HasActive.addGroup {g : Nat} (h : s.HasActive g) (userId : Int) (key : Key) (title : Option String)
    (authority : GroupingAuthority) : (s.addGroup userId key title authority).HasActive g := by
  obtain ⟨row, hrow, hr⟩ := h
  exact ⟨row, List.mem_append_left _ hrow, hr⟩

theorem Memberships.join (h : Memberships s) {row : MemberRow} (hn : s.findCurrent row.threadCanonicalKey = none)
    (hg : s.HasActive row.groupId) : Memberships (s.join row) where
  current := h.current.append fun _ r hr hc => find?_eq_none.1 hn r hr hc
  groupId := h.groupId
  fresh := h.fresh
  activeKey := h.activeKey
  inActive m hm hc := by
    rcases List.mem_append.1 hm with hm | hm
    · exact h.inActive m hm hc
    · obtain rfl := List.mem_singleton.1 hm
      exact hg

theorem Memberships.leave (h : Memberships s) (key : Key) (groupId : Nat) : Memberships (s.leave key groupId) where
  current := h.current.modifyWhere fun m _ _ hc => by simp [MemberRow.current] at hc
  groupId := h.groupId
  fresh := h.fresh
  activeKey := h.activeKey
  inActive m hm hc := by
    obtain ⟨m', hm', rfl⟩ := mem_modifyWhere.1 hm
    split at hc
    · simp [MemberRow.current] at hc
    · next hq => rw [if_neg hq]; exact h.inActive m' hm' hc

/-- The current rows after an update of member rows. -/
theorem Memberships.findCurrent_modify (h : Memberships s) {q : MemberRow → Bool} {f : MemberRow → MemberRow}
    (hf : ∀ m, q m = true → (f m).current = true → m.current = true ∧ (f m).threadCanonicalKey = m.threadCanonicalKey)
    (key : Key) :
    Store.findCurrent { s with members := modifyWhere q f s.members } key =
      (s.findCurrent key).bind fun m => if q m then if (f m).current then some (f m) else none else some m :=
  h.current.find?_modifyWhere (fun m _ => hf m) key

theorem findCurrent_join {row : MemberRow} (hc : row.current = true)
    (hn : s.findCurrent row.threadCanonicalKey = none) (key : Key) :
    (s.join row).findCurrent key = if key = row.threadCanonicalKey then some row else s.findCurrent key :=
  find?_append_new hc hn key

theorem Memberships.findCurrent_leave (h : Memberships s) (key : Key) (groupId : Nat) (k : Key) :
    (s.leave key groupId).findCurrent k =
      (s.findCurrent k).filter fun m => !(m.threadCanonicalKey = key && m.groupId = groupId) := by
  rw [Store.leave, h.findCurrent_modify fun m _ hc => by simp [MemberRow.current] at hc]
  cases hm : s.findCurrent k with
  | none => rfl
  | some m =>
    have hcur : m.state.current = true := (find?_mem hm).2.1
    by_cases hq : m.threadCanonicalKey = key ∧ m.groupId = groupId
    · simp [hq, hcur, MemberRow.current, Option.filter]
    · have hq' : m.threadCanonicalKey = key → ¬ m.groupId = groupId := fun h₁ h₂ => hq ⟨h₁, h₂⟩
      have : (m.threadCanonicalKey = key ∧ m.groupId = groupId) = False := by simpa using hq'
      simp [this, MemberRow.current, hcur, Option.filter]

/-- The key that leaves has no current row. -/
theorem Memberships.findCurrent_left (h : Memberships s) {key : Key} {m : MemberRow}
    (hm : s.findCurrent key = some m) : (s.leave key m.groupId).findCurrent key = none := by
  simp [h.findCurrent_leave, hm, (findCurrent_mem hm).2.2]

theorem Memberships.findCurrent_leave_of_ne (h : Memberships s) {key k : Key} (hk : k ≠ key) (groupId : Nat) :
    (s.leave key groupId).findCurrent k = s.findCurrent k := by
  rw [h.findCurrent_leave]
  cases hm : s.findCurrent k with
  | none => rfl
  | some m => simp [Option.filter, (findCurrent_mem hm).2.2, hk]

theorem leave_keeps (s : Store) (key : Key) (groupId : Nat) : RegroupOnly s (s.leave key groupId) := ⟨rfl, le_rfl⟩

theorem join_keeps (s : Store) (row : MemberRow) : RegroupOnly s (s.join row) := ⟨rfl, le_rfl⟩

theorem Memberships.addGroup (h : Memberships s) (userId : Int) {key : Key} (title : Option String)
    (authority : GroupingAuthority) (hn : s.findActiveByCanonicalKey key = none) :
    Memberships (s.addGroup userId key title authority) where
  current := h.current
  groupId := h.groupId.append fun _ g hg _ he => by
    have := h.fresh g hg
    simp only [he] at this
    omega
  fresh g hg := by
    rcases List.mem_append.1 hg with hg | hg
    · exact Nat.lt_succ_of_lt (h.fresh g hg)
    · obtain rfl := List.mem_singleton.1 hg
      exact Nat.lt_succ_self _
  activeKey := h.activeKey.append fun _ g hg hc => find?_eq_none.1 hn g hg hc
  inActive m hm hc := (h.inActive m hm hc).addGroup ..

/-- A group is made unless its key has an active group. -/
theorem wp_createGroup {userId : Int} {key : Key} {title : Option String} {authority : GroupingAuthority}
    {Q : Nat → Store → Prop} {E : TxError → Prop} :
    wp (createGroup userId key title authority) Q E s ↔
      ((s.findActiveByCanonicalKey key).isNone = true → Q s.nextId (s.addGroup userId key title authority)) ∧
        ((s.findActiveByCanonicalKey key).isNone = false → E (.unique .activeGroupCanonicalKey)) := by
  simp only [createGroup, generateId, wp_bind, wp_reads, wp_writes, wp_pure, wp_get, wp_ensure]
  rfl

theorem Memberships.hasActive_addGroup (s : Store) (userId : Int) (key : Key) (title : Option String)
    (authority : GroupingAuthority) : (s.addGroup userId key title authority).HasActive s.nextId :=
  ⟨_, List.mem_append_right _ (List.mem_singleton.2 rfl), rfl, rfl⟩

/-- Closing a group leaves every other active group active. -/
theorem Store.HasActive.close {g old target : Nat} (h : s.HasActive g) (hne : g ≠ old) :
    (s.close old target).HasActive g := by
  obtain ⟨row, hrow, hid, ha⟩ := h
  refine ⟨row, mem_modifyWhere.2 ⟨row, hrow, ?_⟩, hid, ha⟩
  have hst : row.status = .active := by simpa [GroupRow.isActive] using ha
  have h₁ : ¬ row.id = old := fun he => hne (hid.symm.trans he)
  simp [h₁, GroupRow.redirectsTo, hst]

theorem Memberships.close (h : Memberships s) {old target : Nat} (hempty : s.countCurrentByGroupId old = 0) :
    Memberships (s.close old target) where
  current := h.current
  groupId := h.groupId.modifyWhere fun _ _ _ _ => ⟨rfl, rfl⟩
  fresh g hg := by
    obtain ⟨g', hg', rfl⟩ := mem_modifyWhere.1 hg
    split <;> exact h.fresh g' hg'
  activeKey := h.activeKey.modifyWhere fun _ _ _ hc => by simp [GroupRow.isActive] at hc
  inActive m hm hc := (h.inActive m hm hc).close (countCurrent_eq_zero.1 hempty m hm hc)

theorem RedirectsResolve.addGroup (h : RedirectsResolve s) (userId : Int) (key : Key) (title : Option String)
    (authority : GroupingAuthority) : RedirectsResolve (s.addGroup userId key title authority) := by
  intro row hrow t hst
  rcases List.mem_append.1 hrow with hrow | hrow
  · obtain ⟨t', ht', hid, hst'⟩ := h row hrow t hst
    exact ⟨t', List.mem_append_left _ ht', hid, hst'⟩
  · obtain rfl := List.mem_singleton.1 hrow
    simp at hst

/-- Closing a group moves the redirects along. -/
theorem RedirectsResolve.close (h : RedirectsResolve s) {old target : Nat} (ht : s.HasActive target)
    (hne : old ≠ target) : RedirectsResolve (s.close old target) := by
  have hopen : (s.close old target).HasActive target := ht.close hne.symm
  obtain ⟨row, hrow, hid, ha⟩ := hopen
  have hact : row.status = .active := by simpa [GroupRow.isActive] using ha
  intro g hg t hst
  obtain ⟨g', hg', rfl⟩ := mem_modifyWhere.1 hg
  split at hst
  · obtain rfl : target = t := by simpa using hst
    exact ⟨row, hrow, hid, .inl hact⟩
  · next hq =>
    have hto : t ≠ old := by
      rintro rfl
      simp [GroupRow.redirectsTo, hst] at hq
    obtain ⟨t', ht', hid', hst'⟩ := h g' hg' t hst
    refine ⟨t', mem_modifyWhere.2 ⟨t', ht', ?_⟩, hid', hst'⟩
    have h₁ : ¬ t'.id = old := fun he => hto (hid'.symm.trans he)
    rcases hst' with hst' | hst' <;> simp [h₁, GroupRow.redirectsTo, hst']

end Writes

/-! ## Placing a member -/

/-- The group a member left is closed once nobody is in it, unless an operator owns it. -/
inductive Vacated (s : Store) (old target : Nat) : Store → Prop where
  | kept (h : s.countCurrentByGroupId old ≠ 0 ∨ ∃ g ∈ s.groups, g.id = old ∧ g.groupingAuthority = .operator) :
      Vacated s old target s
  | closed (hempty : s.countCurrentByGroupId old = 0)
      (hauto : ∃ g ∈ s.groups, g.id = old ∧ g.groupingAuthority = .reconciler) :
      Vacated s old target (s.close old target)

theorem listRedirectingTo_mem {s : Store} {old : Nat} {g : GroupRow} :
    g ∈ s.listRedirectingTo old ↔ g ∈ s.groups ∧ g.redirectsTo old = true := by
  rw [Store.listRedirectingTo, List.mem_insertionSort, List.mem_filter]

theorem Memberships.nodup_inbound {s : Store} (h : Memberships s) (old : Nat) :
    ((s.listRedirectingTo old).map GroupRow.id).Nodup := by
  have hs : ((s.groups.filter (·.redirectsTo old)).map GroupRow.id).Nodup := by
    have := (h.groupId.filter (·.redirectsTo old))
    simpa [UniqueWhere] using this
  exact (((List.perm_insertionSort _ _).map GroupRow.id).nodup_iff).2 hs

/-- The groups half way through the repointing: the inbound redirects still to come are as they were. -/
def repointed (old target : Nat) (rest : List GroupRow) (g : GroupRow) : GroupRow :=
  if (g.id = old && g.isActive) || (g.redirectsTo old && g.id ∉ rest.map GroupRow.id) then
    { g with status := .redirected target }
  else g

theorem repointed_nil (s : Store) (old target : Nat) :
    { s with groups := s.groups.map (repointed old target []) } = s.close old target := by
  simp [repointed, Store.close, modifyWhere]

theorem repointed_inbound (s : Store) (old target : Nat) :
    modifyWhere (fun g => g.id = old && g.isActive) (fun g => { g with status := .redirected target }) s.groups =
      s.groups.map (repointed old target (s.listRedirectingTo old)) := by
  refine List.map_congr_left fun g hg => ?_
  by_cases hto : g.redirectsTo old = true
  · have : g.id ∈ (s.listRedirectingTo old).map GroupRow.id :=
      List.mem_map_of_mem (listRedirectingTo_mem.2 ⟨hg, hto⟩)
    simp [repointed, this]
  · simp [repointed, hto]

/-- One pass of the repointing. -/
theorem Memberships.repointed_cons {s : Store} (h : Memberships s) {old target : Nat} {r : GroupRow}
    {rest : List GroupRow} (hr : r ∈ s.groups) (hro : r.redirectsTo old = true) (hr' : r.id ∉ rest.map GroupRow.id)
    (hne : old ≠ target) :
    modifyWhere (fun g => g.id = r.id && g.redirectsTo old) (fun g => { g with status := .redirected target })
      (s.groups.map (repointed old target (r :: rest))) = s.groups.map (repointed old target rest) := by
  rw [modifyWhere, List.map_map]
  refine List.map_congr_left fun g hg => ?_
  simp only [Function.comp_apply, repointed, List.map_cons, List.mem_cons]
  by_cases hgr : g.id = r.id
  · obtain rfl := h.groupId.eq hg rfl hr rfl hgr
    have hinact : g.isActive = false := by
      have hst : g.status = .redirected old := by simpa [GroupRow.redirectsTo] using hro
      simp [GroupRow.isActive, hst]
    simp [hro, hr', hinact]
  · split <;> simp_all [GroupRow.redirectsTo, hne.symm]

/-- The loop over the inbound redirects, from the closed group on. -/
theorem repointLoop_spec {s : Store} (h : Memberships s) {old target : Nat} (ht : s.HasActive target)
    (hne : old ≠ target) :
    wp (Tx.forEach (s.listRedirectingTo old) fun redirect => (do
        let repointed ← repointRedirectFrom redirect.id old target
        Tx.ensure repointed (.bail "incoming group redirect changed concurrently") : StoreTx Unit))
      (fun _ s' => s' = s.close old target) (fun _ => False)
      { s with groups := s.groups.map (repointed old target (s.listRedirectingTo old)) } := by
  refine (wp_forEach (I := fun rest s' => (rest.map GroupRow.id).Nodup ∧
    (∀ r ∈ rest, r ∈ s.groups ∧ r.redirectsTo old = true) ∧
    s' = { s with groups := s.groups.map (repointed old target rest) }) ?_
    ⟨h.nodup_inbound old, fun r hr => listRedirectingTo_mem.1 hr, rfl⟩).imp
    fun _ s' hI => hI.2.2.trans (repointed_nil s old target)
  rintro r rest s' ⟨hnd, hmem, rfl⟩
  obtain ⟨hr, hro⟩ := hmem r (by simp)
  rw [List.map_cons, List.nodup_cons] at hnd
  have hst : r.status = .redirected old := by simpa [GroupRow.redirectsTo] using hro
  have hrt : r.id ≠ target := by
    obtain ⟨t, htm, htid, hta⟩ := ht
    rintro he
    obtain rfl := h.groupId.eq hr rfl htm rfl (he.trans htid.symm)
    simp [GroupRow.isActive, hst] at hta
  have hself : repointed old target (r :: rest) r = r := by simp [repointed, GroupRow.isActive, hst]
  have hany : ((s.groups.map (repointed old target (r :: rest))).any
      fun g => g.id = r.id && g.redirectsTo old) = true :=
    List.any_eq_true.2 ⟨r, List.mem_map.2 ⟨r, hr, hself⟩, by simp [hro]⟩
  simp only [wp_bind, repointRedirectFrom, wp_get, wp_ensure, wp_writes, wp_pure, hany,
    h.repointed_cons hr hro hnd.1 hne]
  exact ⟨fun _ => ⟨fun _ => ⟨hnd.2, fun q hq => hmem q (by simp [hq]), trivial⟩, by simp⟩, by simp [hrt]⟩

theorem redirectEmptiedGroup_spec {s : Store} (h : Memberships s) {old target : Nat} (hold : s.HasActive old)
    (ht : s.HasActive target) (hne : old ≠ target) :
    wp (redirectEmptiedGroup old target) (fun _ s' => Vacated s old target s') (fun _ => False) s := by
  obtain ⟨g, hg, hgid, hga⟩ := hold
  obtain ⟨t, htm, htid, hta⟩ := id ht
  have hfg : s.findGroup old = some g := h.findGroup_eq_some.2 ⟨hg, hgid⟩
  have hft : s.findGroup target = some t := h.findGroup_eq_some.2 ⟨htm, htid⟩
  simp only [redirectEmptiedGroup, wp_bind, wp_get, hfg, hft]
  split
  · next hc => exact .kept (.inl hc)
  · next hc =>
    have hempty : s.countCurrentByGroupId old = 0 := by simpa using hc
    simp only [wp_bind, wp_ensure, hga, hta]
    refine ⟨fun _ => ?_, by simp⟩
    cases hauth : g.groupingAuthority with
    | operator => exact .kept (.inr ⟨g, hg, hgid, hauth⟩)
    | reconciler =>
      have happ : (s.groups.any fun g => g.id = old && g.isActive) = true :=
        List.any_eq_true.2 ⟨g, hg, by simp [hgid, hga]⟩
      simp only [ne_eq, not_true_eq_false, if_false, wp_bind, wp_ensure, redirectGroup, wp_get, wp_writes, wp_pure,
        happ, repointed_inbound]
      refine ⟨fun _ => ⟨fun _ => ⟨fun _ => ?_, by simp⟩, by simp [hne]⟩, by simp⟩
      refine (repointLoop_spec h ht hne).imp fun _ s' hs' => ?_
      exact hs' ▸ .closed hempty ⟨g, hg, hgid, hauth⟩

/-- The row `place_member` stores. -/
def automaticRow (key : Key) (endpoint : ObservedEndpoint) (identity : SourceTriple) (target : Nat) (anchorKey : Key)
    (state : MemberState) : MemberRow :=
  { groupId := target
    threadCanonicalKey := key
    userId := endpoint.userId
    identity := some identity
    role := if key = anchorKey then .root else .member
    state
    provenance := .reconciler }

@[simp] theorem automaticRow_key (key : Key) (endpoint : ObservedEndpoint) (identity : SourceTriple) (target : Nat)
    (anchorKey : Key) (state : MemberState) :
    (automaticRow key endpoint identity target anchorKey state).threadCanonicalKey = key := rfl

/-- The state a placement stores: a placeholder stays one, and a live member needs a thread. -/
def placedState (deletedAt : Option Int) (threadId : Option Nat) : Option MemberState :=
  match deletedAt, threadId with
  | some deletedAt, _ => some (.deleted deletedAt)
  | none, threadId => threadId.map .active

theorem placedState_current {deletedAt : Option Int} {threadId : Option Nat} {state : MemberState}
    (h : placedState deletedAt threadId = some state) : state.current = true := by
  cases deletedAt <;> cases threadId <;> simp_all [placedState] <;> subst h <;> rfl

/-- The errors of a placement: an endpoint of unknown scope has no row. -/
def Unplaceable (endpoint : ObservedEndpoint) (e : TxError) : Prop :=
  endpoint.key? = none ∧ e = .check "thread_group_member"

theorem storeAutomaticMember_spec {s : Store} {key : Key} (hn : s.findCurrent key = none) (deletedAt : Option Int)
    (threadId : Option Nat) (endpoint : ObservedEndpoint) (target : Nat) (anchorKey : Key) :
    wp (storeAutomaticMember deletedAt threadId key endpoint target anchorKey)
      (fun _ s' => (placedState deletedAt threadId = none ∧ s' = s) ∨
        ∃ state identity, placedState deletedAt threadId = some state ∧
          s' = s.join (automaticRow key endpoint identity target anchorKey state))
      (Unplaceable endpoint) s := by
  have hstore : ∀ state : MemberState, state.current = true → wp (do
      let identity ← endpointTriple "thread_group_member" endpoint
      insertMember (automaticRow key endpoint identity target anchorKey state) : StoreTx Unit)
      (fun _ s' => ∃ identity, s' = s.join (automaticRow key endpoint identity target anchorKey state))
      (Unplaceable endpoint) s := by
    intro state hstate
    unfold endpointTriple
    cases hscope : endpoint.identityScope with
    | unknown => simp [Unplaceable, SourceIdentity.key?, hscope, IdentityScope.value?]
    | known scope =>
      simp only [insertMember, wp_bind, wp_pure, wp_get, wp_ensure, wp_writes, automaticRow, hn]
      exact ⟨fun _ => ⟨_, rfl⟩, by simp⟩
  unfold storeAutomaticMember
  cases deletedAt with
  | some deletedAt =>
    exact (hstore (.deleted deletedAt) rfl).imp fun _ s' hout => .inr ⟨_, hout.imp fun _ h => ⟨rfl, h⟩⟩
  | none =>
    cases threadId with
    | some threadId =>
      exact (hstore (.active threadId) rfl).imp fun _ s' hout => .inr ⟨_, hout.imp fun _ h => ⟨rfl, h⟩⟩
    | none => exact .inl ⟨rfl, rfl⟩

/-- **What a placement can do.** A member that an operator placed, or that is in the
group already, stays. Without a current row the key enters the group if its
thread is known. Any other member leaves its group and enters the target, unless
it is live and its thread is not known: then it leaves and is lost. -/
inductive Placed (threadId : Option Nat) (key : Key) (endpoint : ObservedEndpoint) (target : Nat) (anchorKey : Key)
    (s : Store) : Store → Prop where
  | stays (m : MemberRow) (hm : s.findCurrent key = some m) (h : m.provenance = .operator ∨ m.groupId = target) :
      Placed threadId key endpoint target anchorKey s s
  | absent (hm : s.findCurrent key = none) (h : threadId = none) : Placed threadId key endpoint target anchorKey s s
  | enters (tid : Nat) (identity : SourceTriple) (hm : s.findCurrent key = none) (h : threadId = some tid) :
      Placed threadId key endpoint target anchorKey s
        (s.join (automaticRow key endpoint identity target anchorKey (.active tid)))
  | moves (m : MemberRow) (s₁ : Store) (identity : SourceTriple) (state : MemberState)
      (hm : s.findCurrent key = some m) (hp : m.provenance = .reconciler) (hg : m.groupId ≠ target)
      (hv : Vacated (s.leave key m.groupId) m.groupId target s₁)
      (hstate : placedState m.state.deletedAt? threadId = some state) :
      Placed threadId key endpoint target anchorKey s
        (s₁.join (automaticRow key endpoint identity target anchorKey state))
  | loses (m : MemberRow) (s₁ : Store) (hm : s.findCurrent key = some m) (hp : m.provenance = .reconciler)
      (hg : m.groupId ≠ target) (hv : Vacated (s.leave key m.groupId) m.groupId target s₁)
      (hstate : placedState m.state.deletedAt? threadId = none) :
      Placed threadId key endpoint target anchorKey s s₁

theorem Vacated.findCurrent {s s' : Store} {old target : Nat} (h : Vacated s old target s') (key : Key) :
    s'.findCurrent key = s.findCurrent key := by
  cases h <;> rfl

theorem placeMember_spec {s : Store} (h : Memberships s) {target : Nat} (ht : s.HasActive target)
    (threadId : Option Nat) (key : Key) (endpoint : ObservedEndpoint) (anchorKey : Key) :
    wp (placeMember threadId key endpoint target anchorKey)
      (fun _ s' => Placed threadId key endpoint target anchorKey s s') (Unplaceable endpoint) s := by
  simp only [placeMember, wp_bind, wp_get]
  split
  · next hn =>
    refine (storeAutomaticMember_spec hn none threadId endpoint target anchorKey).imp fun _ s' hs' => ?_
    cases threadId with
    | none =>
      rcases hs' with ⟨-, rfl⟩ | ⟨_, _, hst, -⟩
      · exact .absent hn rfl
      · simp [placedState] at hst
    | some tid =>
      rcases hs' with ⟨hst, -⟩ | ⟨state, identity, hst, rfl⟩
      · simp [placedState] at hst
      · obtain rfl : MemberState.active tid = state := by simpa [placedState] using hst
        exact .enters tid identity hn rfl
  · next m hm =>
    split
    · next hp => exact .stays m hm (.inl hp)
    · next hp =>
      split
      · next hg => exact .stays m hm (.inr hg)
      · next hg =>
        have hprov : m.provenance = .reconciler := by
          cases hc : m.provenance with
          | operator => exact absurd hc hp
          | reconciler => rfl
        obtain ⟨hmem, hcur, hkey⟩ := findCurrent_mem hm
        have happ : (s.members.any fun m' => m'.threadCanonicalKey = key && m'.groupId = m.groupId && m'.current) =
            true := List.any_eq_true.2 ⟨m, hmem, by simp [hkey, hcur]⟩
        have hleave := h.leave key m.groupId
        have hgone := h.findCurrent_left hm
        simp only [redirectCurrent, wp_bind, wp_get, wp_writes, wp_pure, wp_ensure, happ]
        refine ⟨fun _ => ?_, by simp⟩
        refine (redirectEmptiedGroup_spec hleave (h.hasActive_of_findCurrent hm) ht hg).mono (fun _ s₁ hv => ?_)
          fun _ he => he.elim
        refine (storeAutomaticMember_spec ((hv.findCurrent key).trans hgone) m.state.deletedAt? threadId endpoint
          target anchorKey).imp fun _ s' hs' => ?_
        rcases hs' with ⟨hst, rfl⟩ | ⟨state, identity, hst, rfl⟩
        · exact .loses m s' hm hprov hg hv hst
        · exact .moves m s₁ identity state hm hprov hg hv hst

/-! ## What every placement keeps -/

section Placed

variable {threadId : Option Nat} {key : Key} {endpoint : ObservedEndpoint} {target : Nat} {anchorKey : Key}
  {s s' : Store}

theorem Vacated.keeps {old : Nat} (h : Vacated s old target s') : RegroupOnly s s' := by
  cases h <;> exact ⟨rfl, le_rfl⟩

theorem Placed.keeps (h : Placed threadId key endpoint target anchorKey s s') : RegroupOnly s s' := by
  cases h with
  | stays => exact refl_of _ _
  | absent => exact refl_of _ _
  | enters => exact ⟨rfl, le_rfl⟩
  | moves m s₁ _ _ _ _ _ hv _ => exact (leave_keeps ..).trans (hv.keeps.trans (join_keeps ..))
  | loses m _ _ _ _ hv _ => exact (leave_keeps ..).trans hv.keeps

theorem Vacated.hasActive {old g : Nat} (h : Vacated s old target s') (hg : s.HasActive g) (hne : g ≠ old) :
    s'.HasActive g := by
  cases h with
  | kept => exact hg
  | closed => exact hg.close hne

theorem Vacated.memberships {old : Nat} (h : Vacated s old target s') (hs : Memberships s) : Memberships s' := by
  cases h with
  | kept => exact hs
  | closed hempty => exact hs.close hempty

theorem Vacated.redirects {old : Nat} (h : Vacated s old target s') (hr : RedirectsResolve s)
    (ht : s.HasActive target) (hne : old ≠ target) : RedirectsResolve s' := by
  cases h with
  | kept => exact hr
  | closed => exact hr.close ht hne

theorem Placed.hasActive_target (h : Placed threadId key endpoint target anchorKey s s') (ht : s.HasActive target) :
    s'.HasActive target := by
  cases h with
  | stays => exact ht
  | absent => exact ht
  | enters => exact ht
  | moves m s₁ _ _ _ _ hg hv _ => exact hv.hasActive ht hg.symm
  | loses m _ _ _ hg hv _ => exact hv.hasActive ht hg.symm

theorem Placed.memberships (h : Placed threadId key endpoint target anchorKey s s') (hs : Memberships s)
    (ht : s.HasActive target) : Memberships s' := by
  cases h with
  | stays => exact hs
  | absent => exact hs
  | enters _ _ hm => exact hs.join hm ht
  | moves m s₁ _ _ hm _ hg hv _ =>
    exact (hv.memberships (hs.leave key m.groupId)).join ((hv.findCurrent key).trans (hs.findCurrent_left hm))
      (hv.hasActive ht hg.symm)
  | loses m _ _ _ _ hv _ => exact hv.memberships (hs.leave key m.groupId)

theorem Placed.redirects (h : Placed threadId key endpoint target anchorKey s s') (hr : RedirectsResolve s)
    (ht : s.HasActive target) : RedirectsResolve s' := by
  cases h with
  | stays => exact hr
  | absent => exact hr
  | enters => exact hr
  | moves m s₁ _ _ _ _ hg hv _ => exact hv.redirects hr ht hg
  | loses m _ _ _ hg hv _ => exact hv.redirects hr ht hg

/-- A placement touches no other member. -/
theorem Placed.findCurrent_of_ne (h : Placed threadId key endpoint target anchorKey s s') (hs : Memberships s)
    {k : Key} (hk : k ≠ key) : s'.findCurrent k = s.findCurrent k := by
  cases h with
  | stays => rfl
  | absent => rfl
  | enters tid identity hm => rw [findCurrent_join rfl hm, automaticRow_key, if_neg hk]
  | moves m s₁ identity state hm _ _ hv hst =>
    rw [findCurrent_join (placedState_current hst) ((hv.findCurrent key).trans (hs.findCurrent_left hm)),
      automaticRow_key, if_neg hk, hv.findCurrent k, hs.findCurrent_leave_of_ne hk]
  | loses m _ _ _ _ hv _ => rw [hv.findCurrent k, hs.findCurrent_leave_of_ne hk]

/-- The row of the placed key afterwards. -/
def Store.placedMember (s : Store) (threadId : Option Nat) (key : Key) (endpoint : ObservedEndpoint) (target : Nat)
    (anchorKey : Key) (row : Option MemberRow) : Prop :=
  match s.findCurrent key with
  | none => row = none ∧ threadId = none ∨
      ∃ tid identity, threadId = some tid ∧
        row = some (automaticRow key endpoint identity target anchorKey (.active tid))
  | some m =>
    (row = some m ∧ (m.provenance = .operator ∨ m.groupId = target)) ∨
    (m.provenance = .reconciler ∧ m.groupId ≠ target ∧
      ((row = none ∧ placedState m.state.deletedAt? threadId = none) ∨
        ∃ state identity, placedState m.state.deletedAt? threadId = some state ∧
          row = some (automaticRow key endpoint identity target anchorKey state)))

theorem Placed.findCurrent_self (h : Placed threadId key endpoint target anchorKey s s') (hs : Memberships s) :
    s.placedMember threadId key endpoint target anchorKey (s'.findCurrent key) := by
  unfold Store.placedMember
  cases h with
  | stays m hm h => rw [hm]; exact .inl ⟨rfl, h⟩
  | absent hm h => rw [hm]; exact .inl ⟨rfl, h⟩
  | enters tid identity hm h =>
    rw [findCurrent_join rfl hm, automaticRow_key, if_pos rfl, hm]
    exact .inr ⟨tid, identity, h, rfl⟩
  | moves m s₁ identity state hm hp hg hv hst =>
    rw [findCurrent_join (placedState_current hst) ((hv.findCurrent key).trans (hs.findCurrent_left hm)),
      automaticRow_key, if_pos rfl, hm]
    exact .inr ⟨hp, hg, .inr ⟨state, identity, hst, rfl⟩⟩
  | loses m _ hm hp hg hv hst =>
    rw [hv.findCurrent key, hs.findCurrent_left hm, hm]
    exact .inr ⟨hp, hg, .inl ⟨rfl, hst⟩⟩

end Placed

end MemoryStore.ThreadGroup
