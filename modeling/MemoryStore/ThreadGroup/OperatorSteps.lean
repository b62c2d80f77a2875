/-
What the operator's mutations of groups can do: merge, split and attach, each
as a change of the current rows (`Store.findCurrent`) together with what it
keeps of the tables.
-/
import MemoryStore.ThreadGroup.Outcome

namespace MemoryStore.ThreadGroup

open Tx Table

/-- **What an operator's mutation can do.** Whole groups are touched: every member
of a touched group is the operator's afterwards, in some group, and is otherwise
as it was. Other members stay, and a member that is new is the operator's. -/
structure OperatorStep (s s' : Store) : Prop where
  keeps : RegroupOnly s s'
  memberships : Memberships s'
  redirects : RedirectsResolve s → RedirectsResolve s'
  touched : ∃ touched : Nat → Prop, ∀ k m, s.findCurrent k = some m →
    (touched m.groupId → ∃ g, s'.findCurrent k = some { m with groupId := g, provenance := .operator }) ∧
    (¬ touched m.groupId → s'.findCurrent k = some m)
  new : ∀ k m, s.findCurrent k = none → s'.findCurrent k = some m → m.provenance = .operator

theorem OperatorStep.refl {s : Store} (h : Memberships s) : OperatorStep s s :=
  ⟨refl_of _ s, h, id, ⟨fun _ => False, fun _ _ hm => ⟨False.elim, fun _ => hm⟩⟩, fun k m hn hm => by simp [hn] at hm⟩

/-! ## Loops over members -/

theorem Store.HasActive.congr {s s' : Store} {g : Nat} (h : s.HasActive g) (hg : s'.groups = s.groups) :
    s'.HasActive g := by
  obtain ⟨row, hrow, hid, ha⟩ := h
  exact ⟨row, hg ▸ hrow, hid, ha⟩

theorem RedirectsResolve.congr {s s' : Store} (h : RedirectsResolve s) (hg : s'.groups = s.groups) :
    RedirectsResolve s' := by
  unfold RedirectsResolve
  rw [hg]
  exact h

theorem mem_listCurrentByGroupId {s : Store} {groupId : Nat} {m : MemberRow} :
    m ∈ s.listCurrentByGroupId groupId ↔ m ∈ s.members ∧ m.groupId = groupId ∧ m.current = true := by
  rw [Store.listCurrentByGroupId, List.mem_insertionSort, List.mem_filter]
  simp

theorem Memberships.mem_listCurrent_iff {s : Store} (h : Memberships s) {groupId : Nat} {m : MemberRow} :
    m ∈ s.listCurrentByGroupId groupId ↔ s.findCurrent m.threadCanonicalKey = some m ∧ m.groupId = groupId := by
  rw [mem_listCurrentByGroupId, h.findCurrent_eq_some]
  exact ⟨fun ⟨h₁, h₂, h₃⟩ => ⟨⟨h₁, h₃, rfl⟩, h₂⟩, fun ⟨⟨h₁, h₃, _⟩, h₂⟩ => ⟨h₁, h₂, h₃⟩⟩

theorem Memberships.nodup_listCurrent {s : Store} (h : Memberships s) (groupId : Nat) :
    ((s.listCurrentByGroupId groupId).map MemberRow.threadCanonicalKey).Nodup := by
  refine (((List.perm_insertionSort _ _).map _).nodup_iff).2 ?_
  have := h.current.filter (fun m => m.groupId = groupId)
  rw [UniqueWhere, List.filter_filter] at this
  simpa [Bool.and_comm] using this

/-- The members that left their group, and the ones still to leave. -/
def remaining (rest : List MemberRow) (groupId : Nat) (m : MemberRow) : Bool := m.groupId ≠ groupId || m ∈ rest

/-- Members leave their group one by one. -/
theorem leaveLoop_spec {s : Store} (h : Memberships s) (groupId : Nat) :
    wp (Tx.forEach (s.listCurrentByGroupId groupId) fun member => (do
        let _ ← redirectCurrent member.threadCanonicalKey groupId
        pure () : StoreTx Unit))
      (fun _ s' => Memberships s' ∧ RegroupOnly s s' ∧ s'.groups = s.groups ∧
        ∀ k, s'.findCurrent k = (s.findCurrent k).filter fun m => m.groupId ≠ groupId)
      (fun _ => False) s := by
  refine (wp_forEach (I := fun rest s' => (∀ m ∈ rest, m.groupId = groupId) ∧
    (rest.map MemberRow.threadCanonicalKey).Nodup ∧ Memberships s' ∧ RegroupOnly s s' ∧ s'.groups = s.groups ∧
    ∀ k, s'.findCurrent k = (s.findCurrent k).filter (remaining rest groupId))
    (fun member rest s' ⟨hg, hnd, hs, hk, hgr, hf⟩ => ?_)
    ⟨fun m hm => ((h.mem_listCurrent_iff).1 hm).2, h.nodup_listCurrent groupId, h, refl_of _ _, rfl,
      fun k => ?_⟩).imp fun _ s' ⟨_, _, hs, hk, hgr, hf⟩ => ⟨hs, hk, hgr, ?_⟩
  · rw [List.map_cons, List.nodup_cons] at hnd
    simp only [redirectCurrent, wp_bind, wp_get, wp_writes, wp_pure]
    refine ⟨fun m hm => hg m (by simp [hm]), hnd.2, hs.leave .., hk.trans (leave_keeps ..), hgr, fun k => ?_⟩
    rw [← Store.leave, hs.findCurrent_leave, hf k]
    cases hm : s.findCurrent k with
    | none => rfl
    | some m =>
      have hmem : m ∈ rest → m.threadCanonicalKey ≠ member.threadCanonicalKey := fun hr he =>
        hnd.1 (he ▸ List.mem_map_of_mem hr)
      by_cases hgm : m.groupId = groupId
      · by_cases hr : m ∈ rest
        · simp [Option.filter, remaining, hr, hmem hr]
        · by_cases hself : m = member
          · simp [Option.filter, remaining, hself, hg member (by simp), hself ▸ hr]
          · simp [Option.filter, remaining, hr, hself, hgm]
      · simp [Option.filter, remaining, hgm]
  · cases hm : s.findCurrent k with
    | none => rfl
    | some m =>
      have hmem : m.groupId = groupId → m ∈ s.listCurrentByGroupId groupId := fun hg =>
        h.mem_listCurrent_iff.2 ⟨(findCurrent_mem hm).2.2 ▸ hm, hg⟩
      by_cases hg : m.groupId = groupId
      · simp [Option.filter, remaining, hmem hg]
      · simp [Option.filter, remaining, hg]
  · intro k
    rw [hf k]
    congr 1
    funext m
    simp [remaining]

/-- Rows with new keys enter one by one. -/
theorem joinLoop_spec {s : Store} (h : Memberships s) {rows : List MemberRow} {f : MemberRow → MemberRow}
    (hkey : ∀ m, (f m).threadCanonicalKey = m.threadCanonicalKey) (hcur : ∀ m ∈ rows, (f m).current = true)
    (hnew : ∀ m ∈ rows, s.findCurrent m.threadCanonicalKey = none) (hactive : ∀ m ∈ rows, s.HasActive (f m).groupId)
    (hnd : (rows.map MemberRow.threadCanonicalKey).Nodup) :
    wp (Tx.forEach rows fun member => insertMember (f member))
      (fun _ s' => Memberships s' ∧ RegroupOnly s s' ∧ s'.groups = s.groups ∧
        (∀ m ∈ rows, s'.findCurrent m.threadCanonicalKey = some (f m)) ∧
        ∀ k, k ∉ rows.map MemberRow.threadCanonicalKey → s'.findCurrent k = s.findCurrent k)
      (fun _ => False) s := by
  induction rows generalizing s with
  | nil => exact ⟨h, refl_of _ s, rfl, by simp, fun k _ => rfl⟩
  | cons m rows ih =>
    rw [List.map_cons, List.nodup_cons] at hnd
    have hn : s.findCurrent (f m).threadCanonicalKey = none := hkey m ▸ hnew m (by simp)
    have hjoin : Memberships (s.join (f m)) := h.join hn (hactive m (by simp))
    have hview := findCurrent_join (hcur m (by simp)) hn
    simp only [Tx.forEach, wp_bind, insertMember, wp_get, wp_ensure, wp_writes, hn]
    refine ⟨fun _ => ?_, by simp⟩
    refine (ih hjoin (fun m' hm' => hcur m' (by simp [hm'])) (fun m' hm' => ?_)
      (fun m' hm' => (hactive m' (by simp [hm'])).congr rfl) hnd.2).imp fun _ s' ⟨h₁, h₂, h₃, h₄, h₅⟩ =>
        ⟨h₁, (join_keeps ..).trans h₂, h₃, fun m' hm' => ?_, fun k hk => ?_⟩
    · have hne : m'.threadCanonicalKey ≠ m.threadCanonicalKey := fun he => hnd.1 (he ▸ List.mem_map_of_mem hm')
      rw [hview, hkey, if_neg hne]
      exact hnew m' (by simp [hm'])
    · rcases List.mem_cons.1 hm' with rfl | hm'
      · rw [h₅ _ hnd.1, hview, hkey, if_pos rfl]
      · exact h₄ m' hm'
    · rw [List.map_cons, List.mem_cons, not_or] at hk
      rw [h₅ k hk.2, hview, hkey, if_neg hk.1]

/-! ## Group writes -/

/-- Group rows may change their status and authority, as long as no group becomes
active, and no group with current members stops being it. -/
theorem Memberships.modifyGroups {s : Store} (h : Memberships s) {q : GroupRow → Bool} {f : GroupRow → GroupRow}
    (hid : ∀ g, (f g).id = g.id) (hkey : ∀ g, (f g).groupCanonicalKey = g.groupCanonicalKey)
    (hact : ∀ g, q g = true → (f g).isActive = true → g.isActive = true)
    (hkeep : ∀ m ∈ s.members, m.current = true → ∀ g, q g = true → g.id = m.groupId → g.isActive = true →
      (f g).isActive = true) :
    Memberships { s with groups := modifyWhere q f s.groups } where
  current := h.current
  groupId := h.groupId.modifyWhere fun g _ _ _ => ⟨rfl, hid g⟩
  fresh g hg := by
    obtain ⟨g', hg', rfl⟩ := mem_modifyWhere.1 hg
    have := h.fresh g' hg'
    split
    · rwa [hid]
    · exact this
  activeKey := h.activeKey.modifyWhere fun g _ hq ha => ⟨hact g hq ha, hkey g⟩
  inActive m hm hc := by
    obtain ⟨g, hg, hgid, hga⟩ := h.inActive m hm hc
    refine ⟨_, mem_modifyWhere.2 ⟨g, hg, rfl⟩, ?_⟩
    split
    · next hq => exact ⟨(hid g).trans hgid, hkeep m hm hc g hq hgid hga⟩
    · exact ⟨hgid, hga⟩

/-- A group row the update does not touch is still there. -/
theorem mem_modifyWhere_of_not {q : GroupRow → Bool} {f : GroupRow → GroupRow} {groups : List GroupRow} {g : GroupRow}
    (hg : g ∈ groups) (hq : q g = false) : g ∈ modifyWhere q f groups :=
  mem_modifyWhere.2 ⟨g, hg, by simp [hq]⟩

/-- A redirect is resolved, or waits for its turn to be repointed. -/
def ResolvedBut (source : Nat) (rest : List GroupRow) (s : Store) : Prop :=
  ∀ g ∈ s.groups, ∀ t, g.status = .redirected t →
    (∃ target ∈ s.groups, target.id = t ∧ (target.status = .active ∨ target.status = .split)) ∨
      t = source ∧ g.id ∈ rest.map GroupRow.id

theorem not_isRedirected {g : GroupRow} (h : g.status = .active ∨ g.status = .split) : g.isRedirected = false := by
  rcases h with h | h <;> simp [GroupRow.isRedirected, h]

/-- A group without members is redirected, and what pointed at it is repointed. -/
theorem redirectSource_spec {s : Store} (h : Memberships s) {source target : Nat} (ht : s.HasActive target)
    (hne : source ≠ target) (hempty : ∀ m ∈ s.members, m.current = true → m.groupId ≠ source) :
    wp (do
        let _ ← redirectGroup source target
        Tx.forEach ((s.groups.filter GroupRow.isRedirected).filter (·.redirectsTo source)) fun group => do
          let _ ← repointRedirect group.id target
          pure () : StoreTx Unit)
      (fun _ s' => Memberships s' ∧ RegroupOnly s s' ∧ s'.members = s.members ∧ s'.HasActive target ∧
        (RedirectsResolve s → RedirectsResolve s')) Benign s := by
  set s₁ : Store := { s with
    groups := modifyWhere (fun g => g.id = source && g.isActive) (fun g => { g with status := .redirected target })
      s.groups } with hs₁
  have hm₁ : Memberships s₁ := h.modifyGroups (fun _ => rfl) (fun _ => rfl)
    (fun g _ ha => by simp [GroupRow.isActive] at ha) fun m hm hc g hq hg _ => by
      simp only [Bool.and_eq_true, decide_eq_true_eq] at hq
      exact absurd (hg.symm.trans hq.1) (hempty m hm hc)
  have ht₁ : s₁.HasActive target := by
    obtain ⟨row, hrow, hid, ha⟩ := ht
    exact ⟨row, mem_modifyWhere_of_not hrow (by simp [hid, hne.symm]), hid, ha⟩
  have hr₁ : RedirectsResolve s → ResolvedBut source ((s.groups.filter GroupRow.isRedirected).filter
      (·.redirectsTo source)) s₁ := by
    intro hr g hg t hst
    obtain ⟨g', hg', rfl⟩ := mem_modifyWhere.1 hg
    split at hst
    · obtain rfl : target = t := by simpa using hst
      obtain ⟨row, hrow, hid, ha⟩ := ht₁
      exact .inl ⟨row, hrow, hid, .inl (by simpa [GroupRow.isActive] using ha)⟩
    · next hq =>
      rw [if_neg hq]
      by_cases hts : t = source
      · refine .inr ⟨hts, List.mem_map_of_mem ?_⟩
        simp [hg', GroupRow.isRedirected, GroupRow.redirectsTo, hst, hts]
      · obtain ⟨row, hrow, hid, hrst⟩ := hr g' hg' t hst
        exact .inl ⟨row, mem_modifyWhere_of_not hrow (by simp [hid, hts]), hid, hrst⟩
  simp only [redirectGroup, wp_bind, wp_get, wp_ensure, wp_writes, wp_pure]
  refine ⟨fun _ => ?_, fun _ => benign_check _⟩
  refine (wp_forEach (I := fun rest s' => Memberships s' ∧ RegroupOnly s s' ∧ s'.members = s.members ∧
    s'.HasActive target ∧ (RedirectsResolve s → ResolvedBut source rest s'))
    (fun r rest s' hloop => ?_) ⟨hm₁, ⟨rfl, le_rfl⟩, rfl, ht₁, hr₁⟩).imp fun _ s' hloop => ?_
  rotate_left
  · obtain ⟨h₁, h₂, h₃, h₄, h₅⟩ := hloop
    exact ⟨h₁, h₂, h₃, h₄, fun hr g hg t hst => (h₅ hr g hg t hst).resolve_right (by simp)⟩
  obtain ⟨h₁, h₂, h₃, h₄, h₅⟩ := hloop
  simp only [repointRedirect, wp_bind, wp_get, wp_ensure, wp_writes, wp_pure]
  refine ⟨fun _ => ?_, fun _ => benign_check _⟩
  have ht' : ∃ row ∈ modifyWhere (fun g => g.id = r.id && g.isRedirected)
      (fun g => { g with status := .redirected target }) s'.groups, row.id = target ∧ row.isActive = true := by
    obtain ⟨row, hrow, hid, ha⟩ := h₄
    have hst : row.status = .active := by simpa [GroupRow.isActive] using ha
    exact ⟨row, mem_modifyWhere_of_not hrow (by simp [not_isRedirected (.inl hst)]), hid, ha⟩
  refine ⟨h₁.modifyGroups (fun _ => rfl) (fun _ => rfl) (fun g _ ha => by simp [GroupRow.isActive] at ha)
    fun m hm hc g hq hg ha => ?_, h₂.trans ⟨rfl, le_rfl⟩, h₃, ht', fun hr g hg t hst => ?_⟩
  · have hst : g.status = .active := by simpa [GroupRow.isActive] using ha
    simp [not_isRedirected (.inl hst)] at hq
  · obtain ⟨g', hg', rfl⟩ := mem_modifyWhere.1 hg
    split at hst
    · obtain rfl : target = t := by simpa using hst
      obtain ⟨row, hrow, hid, ha⟩ := ht'
      exact .inl ⟨row, hrow, hid, .inl (by simpa [GroupRow.isActive] using ha)⟩
    · next hq =>
      rw [if_neg hq]
      rcases h₅ hr g' hg' t hst with ⟨row, hrow, hid, hrst⟩ | ⟨hts, hmem⟩
      · exact .inl ⟨row, mem_modifyWhere_of_not hrow (by simp [not_isRedirected hrst]), hid, hrst⟩
      · have hred : g'.isRedirected = true := by simp [GroupRow.isRedirected, hst]
        have hne' : g'.id ≠ r.id := by simpa [hred] using hq
        exact .inr ⟨hts, by simpa [hne'] using hmem⟩

/-! ## Merge -/

/-- The member as an operator's, if it is in the group and its turn has come. -/
def claimed (rest : List MemberRow) (groupId : Nat) (m : MemberRow) : MemberRow :=
  if m.groupId = groupId ∧ m ∉ rest then { m with provenance := .operator } else m

@[simp] theorem claimed_key (rest : List MemberRow) (groupId : Nat) (m : MemberRow) :
    (claimed rest groupId m).threadCanonicalKey = m.threadCanonicalKey := by
  unfold claimed
  split <;> rfl

theorem Memberships.modifyMembers {s : Store} (h : Memberships s) {q : MemberRow → Bool} {f : MemberRow → MemberRow}
    (hkey : ∀ m, (f m).threadCanonicalKey = m.threadCanonicalKey) (hgroup : ∀ m, (f m).groupId = m.groupId)
    (hcur : ∀ m, q m = true → (f m).current = true → m.current = true) :
    Memberships { s with members := modifyWhere q f s.members } where
  current := h.current.modifyWhere fun m _ hq hc => ⟨hcur m hq hc, hkey m⟩
  groupId := h.groupId
  fresh := h.fresh
  activeKey := h.activeKey
  inActive m hm hc := by
    obtain ⟨m', hm', rfl⟩ := mem_modifyWhere.1 hm
    split at hc
    · next hq => rw [if_pos hq, hgroup]; exact h.inActive m' hm' (hcur m' hq hc)
    · next hq => rw [if_neg hq]; exact h.inActive m' hm' hc

theorem claimLoop_spec {s : Store} (h : Memberships s) (groupId : Nat) :
    wp (Tx.forEach (s.listCurrentByGroupId groupId) fun member =>
        setRoleProvenance member.threadCanonicalKey member.role .operator)
      (fun _ s' => Memberships s' ∧ RegroupOnly s s' ∧ s'.groups = s.groups ∧
        ∀ k, s'.findCurrent k = (s.findCurrent k).map (claimed [] groupId)) (fun _ => False) s := by
  refine (wp_forEach (I := fun rest s' => (∀ m ∈ rest, m ∈ s.listCurrentByGroupId groupId) ∧
    (rest.map MemberRow.threadCanonicalKey).Nodup ∧ Memberships s' ∧ RegroupOnly s s' ∧ s'.groups = s.groups ∧
    ∀ k, s'.findCurrent k = (s.findCurrent k).map (claimed rest groupId))
    (fun member rest s' ⟨hin, hnd, hs, hk, hgr, hf⟩ => ?_)
    ⟨fun m hm => hm, h.nodup_listCurrent groupId, h, refl_of _ _, rfl, fun k => ?_⟩).imp
    fun _ s' ⟨_, _, hs, hk, hgr, hf⟩ => ⟨hs, hk, hgr, hf⟩
  · rw [List.map_cons, List.nodup_cons] at hnd
    obtain ⟨hmem, hgm⟩ := h.mem_listCurrent_iff.1 (hin member (by simp))
    simp only [setRoleProvenance, wp_writes]
    refine ⟨fun m hm => hin m (by simp [hm]), hnd.2,
      hs.modifyMembers (fun _ => rfl) (fun _ => rfl) (fun m _ hc => hc), hk.trans ⟨rfl, le_rfl⟩, hgr, fun k => ?_⟩
    rw [hs.findCurrent_modify (by exact fun m _ hc => ⟨hc, rfl⟩), hf k]
    cases hm : s.findCurrent k with
    | none => rfl
    | some m =>
      obtain ⟨-, hcur, hkey⟩ := findCurrent_mem hm
      by_cases hself : m.threadCanonicalKey = member.threadCanonicalKey
      · have hmm : m = member := by
          rw [hself] at hkey
          rw [← hkey, hmem] at hm
          exact (Option.some.inj hm).symm
        subst hmm
        have hrest : m ∉ rest := fun hr => hnd.1 (List.mem_map_of_mem hr)
        have hnow : claimed (m :: rest) groupId m = m := by simp [claimed]
        rw [Option.map_some, Option.bind_some, hnow, if_pos (by simp [hcur]),
          if_pos (by exact hcur), Option.map_some]
        simp [claimed, hgm, hrest]
      · have hne : m ≠ member := fun he => hself (he ▸ rfl)
        rw [Option.map_some, Option.bind_some, if_neg (by simp [hself]), Option.map_some]
        simp [claimed, hne]
  · cases hm : s.findCurrent k with
    | none => rfl
    | some m =>
      have hmem : m.groupId = groupId → m ∈ s.listCurrentByGroupId groupId := fun hg =>
        h.mem_listCurrent_iff.2 ⟨(findCurrent_mem hm).2.2 ▸ hm, hg⟩
      simp only [Option.map_some, claimed]
      rw [if_neg fun hh => hh.2 (hmem hh.1)]

theorem hasActive_of_findGroup {s : Store} {g : Nat} (h : (s.findGroup g).any GroupRow.isActive = true) :
    s.HasActive g := by
  obtain ⟨row, hrow, ha⟩ := (Option.any_eq_true _ _).1 h
  exact ⟨row, List.mem_of_find?_eq_some hrow, by simpa using List.find?_some hrow, ha⟩

/-- No key is in two groups, so nothing a merge moves is in the target already. -/
theorem Memberships.moved_eq {s : Store} (h : Memberships s) {source target : Nat} (hne : source ≠ target) :
    (s.listCurrentByGroupId source).filter
      (·.threadCanonicalKey ∉ (s.listCurrentByGroupId target).map MemberRow.threadCanonicalKey) =
        s.listCurrentByGroupId source := by
  refine List.filter_eq_self.2 fun m hm => ?_
  simp only [decide_eq_true_eq]
  intro hkey
  obtain ⟨m', hm', hk⟩ := List.mem_map.1 hkey
  obtain ⟨hf, hg⟩ := h.mem_listCurrent_iff.1 hm
  obtain ⟨hf', hg'⟩ := h.mem_listCurrent_iff.1 hm'
  rw [hk, hf] at hf'
  obtain rfl := Option.some.inj hf'
  exact hne (hg.symm.trans hg')

theorem RedirectsResolve.setAuthority {s : Store} (h : RedirectsResolve s) (id : Nat) (authority : GroupingAuthority) :
    RedirectsResolve { s with
      groups := modifyWhere (fun g => g.id = id) (fun g => { g with groupingAuthority := authority }) s.groups } := by
  intro g hg t hst
  obtain ⟨g', hg', rfl⟩ := mem_modifyWhere.1 hg
  obtain ⟨row, hrow, hid, hrst⟩ := h g' hg' t (by split at hst <;> exact hst)
  refine ⟨_, mem_modifyWhere.2 ⟨row, hrow, rfl⟩, ?_⟩
  split <;> exact ⟨hid, hrst⟩

/-- An audit row leaves groups and members alone. -/
structure AuditOnly (s s' : Store) : Prop where
  keeps : RegroupOnly s s'
  members : s'.members = s.members
  groups : s'.groups = s.groups
  nextId : s.nextId ≤ s'.nextId

theorem appendMerge_regroups {source target : Nat} (s : Store) :
    wp (appendMerge source target) (fun _ s' => AuditOnly s s') Benign s := by
  simp only [appendMerge, generateId, wp_bind, wp_reads, wp_writes, wp_pure, wp_get, wp_ensure]
  exact ⟨fun _ => ⟨⟨rfl, Nat.le_succ _⟩, rfl, rfl, Nat.le_succ _⟩, fun _ => benign_unique (by decide)⟩

theorem mergeGroups_spec {s : Store} (h : Memberships s) {source target : Nat} :
    wp (mergeGroups source target) (fun _ s' => OperatorStep s s') Benign s := by
  simp only [mergeGroups, wp_bind, wp_ensure, wp_get]
  refine ⟨fun hne => ?_, fun _ => benign_bail _⟩
  have hne : source ≠ target := by simpa using hne
  split
  · exact .refl h
  · simp only [wp_bind, wp_ensure, wp_pure]
    refine ⟨fun _ => ⟨fun _ => ⟨fun hboth => ?_, fun _ => benign_bail _⟩, fun _ => benign_bail _⟩,
      fun _ => benign_bail _⟩
    have ht : s.HasActive target := hasActive_of_findGroup ((Bool.and_eq_true _ _ ▸ hboth).2)
    rw [h.moved_eq hne]
    have hin : ∀ m ∈ s.listCurrentByGroupId source, s.findCurrent m.threadCanonicalKey = some m ∧ m.groupId = source :=
      fun m hm => h.mem_listCurrent_iff.1 hm
    refine (leaveLoop_spec h source).mono (fun _ s₁ hout => ?_) fun _ he => he.elim
    obtain ⟨h₁, k₁, g₁, f₁⟩ := hout
    refine (joinLoop_spec h₁ (f := fun m => { m with groupId := target, provenance := .operator }) (fun _ => rfl)
      (fun m hm => (mem_listCurrentByGroupId.1 hm).2.2) (fun m hm => ?_) (fun _ _ => ht.congr g₁)
      (h.nodup_listCurrent source)).mono (fun _ s₂ hout => ?_) fun _ he => he.elim
    · obtain ⟨hm, hg⟩ := hin m hm
      simp [f₁, hm, hg]
    obtain ⟨h₂, k₂, g₂, f₂, e₂⟩ := hout
    have hmoved : ∀ k m, s.findCurrent k = some m → m.groupId = source →
        s₂.findCurrent k = some { m with groupId := target, provenance := .operator } := by
      intro k m hm hg
      obtain rfl := (findCurrent_mem hm).2.2
      exact f₂ m (h.mem_listCurrent_iff.2 ⟨hm, hg⟩)
    have hkept : ∀ k, (∀ m, s.findCurrent k = some m → m.groupId ≠ source) → s₂.findCurrent k = s.findCurrent k := by
      intro k hk
      rw [e₂ k, f₁]
      · cases hm : s.findCurrent k with
        | none => rfl
        | some m => simp [Option.filter, hk m hm]
      · intro hmem
        obtain ⟨m, hm, rfl⟩ := List.mem_map.1 hmem
        exact hk m (hin m hm).1 (hin m hm).2
    have hempty : ∀ m ∈ s₂.members, m.current = true → m.groupId ≠ source := by
      intro m hm hc hg
      have hm₂ := h₂.findCurrent_eq_some.2 ⟨hm, hc, rfl⟩
      cases hs : s.findCurrent m.threadCanonicalKey with
      | none =>
        rw [hkept _ (by simp [hs]), hs] at hm₂
        simp at hm₂
      | some m' =>
        by_cases hg' : m'.groupId = source
        · rw [hmoved _ m' hs hg'] at hm₂
          exact hne (hg.symm.trans (Option.some.inj hm₂ ▸ rfl))
        · rw [hkept _ (by simpa [hs] using hg'), hs] at hm₂
          exact hg' (Option.some.inj hm₂ ▸ hg)
    have hred := redirectSource_spec h₂ (ht.congr (g₂.trans g₁)) hne hempty
    rw [g₂, g₁, wp_bind] at hred
    refine hred.imp fun _ s₃ hloop => hloop.imp fun _ s₄ hout => ?_
    obtain ⟨h₄, k₄, m₄, ht₄, r₄⟩ := hout
    simp only [setGroupingAuthority, wp_writes, wp_get]
    set s₅ : Store := { s₄ with
      groups := modifyWhere (fun g => g.id = target) (fun g => { g with groupingAuthority := .operator }) s₄.groups }
    have h₅ : Memberships s₅ := h₄.modifyGroups (fun _ => rfl) (fun _ => rfl) (fun _ _ ha => ha)
      fun _ _ _ _ _ _ ha => ha
    have r₅ : RedirectsResolve s → RedirectsResolve s₅ := fun hr => (r₄ (hr.congr (g₂.trans g₁))).setAuthority _ _
    refine (claimLoop_spec h₅ target).mono (fun _ s₆ hout => ?_) fun _ he => he.elim
    obtain ⟨h₆, k₆, g₆, f₆⟩ := hout
    refine (appendMerge_regroups s₆).imp fun _ s₇ hout => ?_
    obtain ⟨k₇, m₇, g₇, n₇⟩ := hout
    have hview : ∀ k, s₇.findCurrent k = (s₂.findCurrent k).map (claimed [] target) := by
      intro k
      simp only [Store.findCurrent, m₇]
      refine (f₆ k).trans ?_
      simp only [Store.findCurrent, s₅, m₄]
    refine ⟨?_, h₆.congr m₇ g₇ n₇, fun hr => ((r₅ hr).congr g₆).congr g₇,
      ⟨fun g => g = source ∨ g = target, fun k m hm => ⟨fun hg => ⟨target, ?_⟩, fun hg => ?_⟩⟩, fun k m hn hm => ?_⟩
    · exact k₁.trans (k₂.trans (k₄.trans (Keeps.trans (show Keeps _ s₄ s₅ from ⟨rfl, le_rfl⟩) (k₆.trans k₇))))
    · rw [hview]
      by_cases hgs : m.groupId = source
      · simp [hmoved k m hm hgs, claimed]
      · have hgt : m.groupId = target := hg.resolve_left hgs
        rw [hkept k (by simpa [hm] using hgs), hm]
        simp [claimed, hgt]
    · rw [not_or] at hg
      rw [hview, hkept k (by simpa [hm] using hg.1), hm]
      simp [claimed, hg.2]
    · rw [hview, hkept k (by simp [hn]), hn] at hm
      simp at hm

/-! ## Attach -/

theorem attachIdentity_spec (endpoint : Option ObservedEndpoint) (s : Store) :
    wp (attachIdentity endpoint) (fun _ s' => s' = s) Benign s := by
  unfold attachIdentity
  cases endpoint with
  | none => exact rfl
  | some endpoint =>
    simp only [wp_bind, wp_pure]
    exact endpointTriple_benign

theorem attachMember_spec {s : Store} (h : Memberships s) {groupId threadId : Nat} {key : Key}
    {endpoint : Option ObservedEndpoint} :
    wp (attachMember groupId threadId key endpoint) (fun _ s' => OperatorStep s s') Benign s := by
  simp only [attachMember, wp_bind, wp_get]
  split
  · exact benign_bail _
  · next group hgroup =>
    simp only [wp_bind, wp_ensure]
    refine ⟨fun hactive => ?_, fun _ => benign_bail _⟩
    obtain ⟨hgmem, hgid⟩ := h.findGroup_eq_some.1 hgroup
    cases hm : s.findCurrent key with
    | some m => exact .refl h
    | none =>
      simp only [Option.isSome_none, Bool.false_eq_true, if_false, wp_bind]
      refine (attachIdentity_spec endpoint s).imp fun identity s₁ h₁ => ?_
      subst h₁
      simp only [insertMember, wp_bind, wp_get, wp_ensure, wp_writes, setGroupingAuthority, hm]
      refine ⟨fun _ => ?_, fun _ => benign_unique (by decide)⟩
      set row : MemberRow :=
        { groupId
          threadCanonicalKey := key
          userId := (endpoint.map SourceIdentity.userId).getD 0
          identity
          role := .member
          state := .active threadId
          provenance := .operator } with hrow
      have hjoin : Memberships (s₁.join row) := h.join hm ⟨group, hgmem, hgid, hactive⟩
      have hview : ∀ k, (s₁.join row).findCurrent k = if k = key then some row else s₁.findCurrent k :=
        findCurrent_join rfl hm
      refine ⟨⟨rfl, le_rfl⟩, hjoin.modifyGroups (fun _ => rfl) (fun _ => rfl) (fun _ _ ha => ha)
        (fun _ _ _ _ _ _ ha => ha), fun hr => RedirectsResolve.setAuthority (s := s₁.join row) hr _ _,
        ⟨fun _ => False, fun k m hk => ⟨False.elim, fun _ => ?_⟩⟩, fun k m hk hk' => ?_⟩
      · have hne : k ≠ key := fun he => by simp [he, hm] at hk
        exact ((hview k).trans (if_neg hne)).trans hk
      · by_cases he : k = key
        · obtain rfl : row = m := Option.some.inj (((hview k).trans (if_pos he)).symm.trans hk')
          rfl
        · have := ((hview k).trans (if_neg he)).symm.trans hk'
          simp [hk] at this

/-! ## Split -/

theorem assignPartition_ok {memberships : List Membership} : ∀ {keys assigned out assigned'},
    assignPartition memberships keys assigned = .ok (out, assigned') →
      out.map Membership.threadCanonicalKey = keys ∧ assigned' = keys.reverse ++ assigned ∧
        (∀ m ∈ out, m ∈ memberships) ∧ (assigned.Nodup → assigned'.Nodup)
  | [], assigned, out, assigned', h => by
    simp only [assignPartition, Except.ok.injEq, Prod.mk.injEq] at h
    obtain ⟨rfl, rfl⟩ := h
    simp
  | key :: keys, assigned, out, assigned', h => by
    simp only [assignPartition] at h
    split at h
    · simp at h
    · next hnew =>
      split at h
      · simp at h
      · next member hmember =>
        cases hrest : assignPartition memberships keys (key :: assigned) with
        | error e => simp [hrest, bind, Except.bind] at h
        | ok p =>
          obtain ⟨rest, assigned₁⟩ := p
          simp only [hrest, bind, Except.bind, Except.ok.injEq, Prod.mk.injEq] at h
          obtain ⟨rfl, rfl⟩ := h
          obtain ⟨h₁, h₂, h₃, h₄⟩ := assignPartition_ok hrest
          have hkey : member.threadCanonicalKey = key := by simpa using List.find?_some hmember
          refine ⟨by simp [hkey, h₁], by simp [h₂], fun m hm => ?_, fun hnd => h₄ (List.nodup_cons.2 ⟨hnew, hnd⟩)⟩
          rcases List.mem_cons.1 hm with rfl | hm
          · exact List.mem_of_find?_eq_some hmember
          · exact h₃ m hm

theorem assignPartitions_ok {memberships : List Membership} : ∀ {partitions assigned out assigned'},
    assignPartitions memberships partitions assigned = .ok (out, assigned') →
      assigned' = (out.flatten.map Membership.threadCanonicalKey).reverse ++ assigned ∧
        (∀ m ∈ out.flatten, m ∈ memberships) ∧ (assigned.Nodup → assigned'.Nodup)
  | [], assigned, out, assigned', h => by
    simp only [assignPartitions, Except.ok.injEq, Prod.mk.injEq] at h
    obtain ⟨rfl, rfl⟩ := h
    simp
  | partition :: partitions, assigned, out, assigned', h => by
    simp only [assignPartitions] at h
    split at h
    · simp at h
    · cases hone : assignPartition memberships partition assigned with
      | error e => simp [hone, bind, Except.bind] at h
      | ok p =>
        obtain ⟨one, assigned₁⟩ := p
        cases hrest : assignPartitions memberships partitions assigned₁ with
        | error e => simp [hone, hrest, bind, Except.bind] at h
        | ok p =>
          obtain ⟨rest, assigned₂⟩ := p
          simp only [hone, hrest, bind, Except.bind, Except.ok.injEq, Prod.mk.injEq] at h
          obtain ⟨rfl, rfl⟩ := h
          obtain ⟨h₁, h₂, h₃, h₄⟩ := assignPartition_ok hone
          obtain ⟨g₂, g₃, g₄⟩ := assignPartitions_ok hrest
          refine ⟨by simp [g₂, h₂, h₁], fun m hm => ?_, fun hnd => g₄ (h₄ hnd)⟩
          rw [List.flatten_cons, List.mem_append] at hm
          exact hm.elim (h₃ m) (g₃ m)

/-- **A split is a partition**: every member is in one successor, once. -/
theorem splitMemberships_ok {memberships : List Membership} {partitions : List (List Key)}
    {successors : List (List Membership)} (h : splitMemberships memberships partitions = .ok successors)
    (hnd : (memberships.map Membership.threadCanonicalKey).Nodup) :
    (successors.flatten.map Membership.threadCanonicalKey).Nodup ∧ (∀ m ∈ successors.flatten, m ∈ memberships) ∧
      ∀ m ∈ memberships, m ∈ successors.flatten := by
  simp only [splitMemberships] at h
  split at h
  · simp at h
  · cases hall : assignPartitions memberships partitions [] with
    | error e => simp [hall, bind, Except.bind] at h
    | ok p =>
      obtain ⟨out, assigned⟩ := p
      simp only [hall, bind, Except.bind] at h
      split at h
      · simp at h
      · next hlen =>
        obtain rfl := Except.ok.inj h
        obtain ⟨h₁, h₂, h₃⟩ := assignPartitions_ok hall
        rw [List.append_nil] at h₁
        have hnd' : (out.flatten.map Membership.threadCanonicalKey).Nodup := by
          have := h₃ List.nodup_nil
          rwa [h₁, List.nodup_reverse] at this
        refine ⟨hnd', h₂, fun m hm => ?_⟩
        have hsub : out.flatten.map Membership.threadCanonicalKey ⊆ memberships.map Membership.threadCanonicalKey :=
          List.map_subset _ h₂
        have hperm := (hnd'.subperm hsub).perm_of_length_le (by
          have : assigned.length = memberships.length := by simpa using hlen
          simp only [h₁, List.length_reverse, List.length_map] at this
          simp only [List.length_map, this, le_refl])
        obtain ⟨m', hm', hk⟩ := List.mem_map.1 (hperm.mem_iff.2 (List.mem_map_of_mem hm))
        exact List.inj_on_of_nodup_map hnd (h₂ m' hm') hm hk ▸ hm'

/-- The row of a member in a successor. -/
def successorRow (groupId : Nat) (row : MemberRow) : MemberRow := { row with groupId, provenance := .operator }

theorem insertSuccessorMembers_eq {rows : List MemberRow} (hnd : (rows.map MemberRow.threadCanonicalKey).Nodup)
    (groupId : Nat) : ∀ {rs : List MemberRow}, (∀ r ∈ rs, r ∈ rows) →
      insertSuccessorMembers rows groupId (rs.map MemberRow.membership) =
        Tx.forEach rs fun r => insertMember (successorRow groupId r)
  | [], _ => rfl
  | r :: rs, h => by
    have hr := h r (by simp)
    have hfind : rows.find? (fun row => row.threadCanonicalKey = r.membership.threadCanonicalKey) = some r := by
      have hsome : (rows.find? fun row => row.threadCanonicalKey = r.membership.threadCanonicalKey).isSome = true :=
        List.find?_isSome.2 ⟨r, hr, by simp [MemberRow.membership]⟩
      obtain ⟨r', hr'⟩ := Option.isSome_iff_exists.1 hsome
      have hfound := List.find?_some hr'
      have hk : r'.threadCanonicalKey = r.threadCanonicalKey := of_decide_eq_true hfound
      exact hr'.trans (congrArg some (List.inj_on_of_nodup_map hnd (List.mem_of_find?_eq_some hr') hr hk))
    have ih := insertSuccessorMembers_eq hnd groupId fun r' hr' => h r' (List.mem_cons_of_mem r hr')
    unfold insertSuccessorMembers at ih ⊢
    rw [List.map_cons, Tx.forEach, Tx.forEach, ih, hfind]
    rfl

/-- Memberships that stem from rows are the memberships of some of these rows. -/
theorem exists_rows {rows : List MemberRow} : ∀ {ms : List Membership}, (∀ m ∈ ms, m ∈ rows.map MemberRow.membership) →
    ∃ rs : List MemberRow, rs.map MemberRow.membership = ms ∧ ∀ r ∈ rs, r ∈ rows
  | [], _ => ⟨[], rfl, by simp⟩
  | m :: ms, h => by
    obtain ⟨r, hr, rfl⟩ := List.mem_map.1 (h m (by simp))
    obtain ⟨rs, rfl, hrs⟩ := exists_rows fun m' hm' => h m' (List.mem_cons_of_mem _ hm')
    exact ⟨r :: rs, rfl, by simpa using ⟨hr, hrs⟩⟩

/-- Half way through the successors: the rows of those still to come are out, the
others are in, in a group that is not the source, and the rest is as it was. -/
structure Splitting (s : Store) (source : Nat) (rows : List MemberRow) (rest : List (List Membership)) (s' : Store) :
    Prop where
  memberships : Memberships s'
  keeps : RegroupOnly s s'
  active : s'.HasActive source
  redirects : RedirectsResolve s → RedirectsResolve s'
  out : ∀ m ∈ rest.flatten, s'.findCurrent m.threadCanonicalKey = none
  inside : ∀ r ∈ rows, r.membership ∉ rest.flatten →
    ∃ g, g ≠ source ∧ s'.findCurrent r.threadCanonicalKey = some (successorRow g r)
  others : ∀ k, k ∉ rows.map MemberRow.threadCanonicalKey → s'.findCurrent k = s.findCurrent k

theorem appendSplit_regroups {source : Nat} {partition : List (List Key)} {successors : List Nat} (s : Store) :
    wp (appendSplit source partition successors) (fun _ s' => AuditOnly s s') Benign s := by
  simp only [appendSplit, generateId, wp_bind, wp_reads, wp_writes, wp_get, wp_ensure]
  exact ⟨fun _ => ⟨⟨rfl, Nat.le_succ _⟩, rfl, rfl, Nat.le_succ _⟩, fun _ => benign_unique (by decide)⟩

theorem RedirectsResolve.markSplit {s : Store} (h : RedirectsResolve s) (id : Nat) :
    RedirectsResolve { s with
      groups := modifyWhere (fun g => g.id = id && g.isActive) (fun g => { g with status := .split }) s.groups } := by
  intro g hg t hst
  obtain ⟨g', hg', rfl⟩ := mem_modifyWhere.1 hg
  obtain ⟨row, hrow, hid, hrst⟩ := h g' hg' t (by split at hst <;> simp_all)
  refine ⟨_, mem_modifyWhere.2 ⟨row, hrow, rfl⟩, ?_⟩
  split
  · exact ⟨hid, .inr rfl⟩
  · exact ⟨hid, hrst⟩

variable [KeyHash]

theorem createSuccessor_spec {s s' : Store} {source : GroupRow} {rows : List MemberRow}
    (hrows : ∀ r ∈ rows, r.current = true) (hnd : (rows.map MemberRow.threadCanonicalKey).Nodup)
    {successor : List Membership} {rest : List (List Membership)}
    (hfrom : ∀ m ∈ successor, m ∈ rows.map MemberRow.membership)
    (hdistinct : ((successor :: rest).flatten.map Membership.threadCanonicalKey).Nodup)
    (h : Splitting s source.id rows (successor :: rest) s') :
    wp (createSuccessor source rows successor) (fun _ s'' => Splitting s source.id rows rest s'') Benign s' := by
  obtain ⟨rs, rfl, hrs⟩ := exists_rows hfrom
  have hkeys : ∀ r : MemberRow, r.membership.threadCanonicalKey = r.threadCanonicalKey := fun _ => rfl
  rw [List.flatten_cons, List.map_append, List.nodup_append] at hdistinct
  obtain ⟨hd₁, -, hd₂⟩ := hdistinct
  have hd₁ : (rs.map MemberRow.threadCanonicalKey).Nodup := by
    rw [List.map_map] at hd₁
    exact hd₁
  simp only [createSuccessor, wp_bind, wp_createGroup, wp_pure]
  refine ⟨fun hfree => ?_, fun _ => benign_unique (by decide)⟩
  set key := splitGroupCanonicalKey source.groupCanonicalKey
    ((rs.map MemberRow.membership).map Membership.threadCanonicalKey) with hkey
  set s₁ := s'.addGroup source.userId key source.title .operator with hs₁
  have hn : s'.findActiveByCanonicalKey key = none := by simpa using hfree
  have h₁ : Memberships s₁ := h.memberships.addGroup _ _ _ hn
  have hne : s'.nextId ≠ source.id := by
    obtain ⟨row, hrow, hid, -⟩ := h.active
    have := h.memberships.fresh row hrow
    omega
  rw [insertSuccessorMembers_eq hnd _ hrs]
  have hnew : ∀ r ∈ rs, s₁.findCurrent r.threadCanonicalKey = none := fun r hr =>
    h.out r.membership (by simp only [List.flatten_cons, List.mem_append]; exact .inl (List.mem_map_of_mem hr))
  refine (joinLoop_spec h₁ (f := successorRow s'.nextId) (fun _ => rfl) (fun r hr => hrows r (hrs r hr)) hnew
    (fun _ _ => Memberships.hasActive_addGroup ..) hd₁).mono (fun _ s₂ hout => ?_) fun _ he => he.elim
  obtain ⟨h₂, k₂, g₂, f₂, e₂⟩ := hout
  have hkept : ∀ k, k ∉ rs.map MemberRow.threadCanonicalKey → s₂.findCurrent k = s'.findCurrent k := fun k hk => e₂ k hk
  refine ⟨h₂, h.keeps.trans (Keeps.trans (show Keeps _ s' s₁ from ⟨rfl, Nat.le_succ _⟩) k₂), (h.active.addGroup ..).congr g₂,
    fun hr => ((h.redirects hr).addGroup _ _ _ _).congr g₂, fun m hm => ?_, fun r hr hout => ?_, fun k hk => ?_⟩
  · have hk : m.threadCanonicalKey ∉ rs.map MemberRow.threadCanonicalKey := fun hmem => by
      refine hd₂ m.threadCanonicalKey ?_ _ (List.mem_map_of_mem hm) rfl
      rw [List.map_map]
      exact hmem
    rw [hkept _ hk]
    exact h.out m (by simp only [List.flatten_cons, List.mem_append]; exact .inr hm)
  · by_cases hin : r ∈ rs
    · exact ⟨s'.nextId, hne, f₂ r hin⟩
    · have hk : r.threadCanonicalKey ∉ rs.map MemberRow.threadCanonicalKey := fun hmem => by
        obtain ⟨r', hr', he⟩ := List.mem_map.1 hmem
        exact hin (List.inj_on_of_nodup_map hnd (hrs r' hr') hr he ▸ hr')
      rw [hkept _ hk]
      refine h.inside r hr fun hmem => ?_
      rw [List.flatten_cons, List.mem_append] at hmem
      rcases hmem with hmem | hmem
      · obtain ⟨r', hr', he⟩ := List.mem_map.1 hmem
        exact hk (List.mem_map.2 ⟨r', hr', congrArg Membership.threadCanonicalKey he⟩)
      · exact hout hmem
  · have hk' : k ∉ rs.map MemberRow.threadCanonicalKey := fun hmem => by
      obtain ⟨r', hr', he⟩ := List.mem_map.1 hmem
      exact hk (List.mem_map.2 ⟨r', hrs r' hr', he⟩)
    rw [hkept k hk', h.others k hk]

theorem splitGroup_spec {s : Store} (h : Memberships s) {source : Nat} {partitions : List (List Key)} :
    wp (splitGroup source partitions) (fun _ s' => OperatorStep s s') Benign s := by
  simp only [splitGroup, wp_bind, wp_get]
  split
  · exact benign_bail _
  · next group hgroup =>
    split
    · split
      · exact .refl h
      · exact benign_bail _
    · simp only [wp_bind, wp_ensure]
      refine ⟨fun hactive => ?_, fun _ => benign_bail _⟩
      split
      · exact benign_bail _
      · next successors hsucc =>
        obtain ⟨hgmem, hgid⟩ := h.findGroup_eq_some.1 hgroup
        have hsource : s.HasActive source := ⟨group, hgmem, hgid, hactive⟩
        set rows := s.listCurrentByGroupId source with hrowsdef
        have hnd : (rows.map MemberRow.threadCanonicalKey).Nodup := h.nodup_listCurrent source
        have hin : ∀ r ∈ rows, s.findCurrent r.threadCanonicalKey = some r ∧ r.groupId = source := fun r hr =>
          h.mem_listCurrent_iff.1 hr
        obtain ⟨hdistinct, hfrom, hall⟩ := splitMemberships_ok hsucc (by
          rw [List.map_map]
          exact hnd)
        simp only [wp_bind, wp_pure]
        refine (leaveLoop_spec h source).mono (fun _ s₁ hout => ?_) fun _ he => he.elim
        obtain ⟨h₁, k₁, g₁, f₁⟩ := hout
        have hstart : Splitting s group.id rows successors s₁ := by
          refine ⟨h₁, k₁, hgid ▸ hsource.congr g₁, fun hr => hr.congr g₁, fun m hm => ?_, fun r hr hout => ?_,
            fun k hk => ?_⟩
          · obtain ⟨r, hr, rfl⟩ := List.mem_map.1 (hfrom m hm)
            rw [f₁]
            simp only [MemberRow.membership, (hin r hr).1]
            simp [(hin r hr).2]
          · exact absurd (hall _ (List.mem_map_of_mem hr)) hout
          · rw [f₁]
            cases hm : s.findCurrent k with
            | none => rfl
            | some m =>
              have hg : m.groupId ≠ source := fun hg => hk (List.mem_map.2
                ⟨m, h.mem_listCurrent_iff.2 ⟨(findCurrent_mem hm).2.2.symm ▸ hm, hg⟩, (findCurrent_mem hm).2.2⟩)
              simp [Option.filter, hg]
        have hloop := wp_collect_all (f := createSuccessor group rows) (E := Benign)
          (I := fun rest _ s' => (rest.flatten.map Membership.threadCanonicalKey).Nodup ∧
            (∀ m ∈ rest.flatten, m ∈ rows.map MemberRow.membership) ∧ Splitting s group.id rows rest s')
          (fun successor rest _ s' hrest => by
            obtain ⟨hd, hf, hs⟩ := hrest
            have hsub : ∀ m ∈ rest.flatten, m ∈ (successor :: rest).flatten := fun m hm => by
              simp only [List.flatten_cons, List.mem_append]
              exact .inr hm
            refine (createSuccessor_spec (fun r hr => (findCurrent_mem (hin r hr).1).2.1) hnd
              (fun m hm => hf m (by simp only [List.flatten_cons, List.mem_append]; exact .inl hm)) hd hs).imp
                fun _ s'' hs'' => ⟨?_, fun m hm => hf m (hsub m hm), hs''⟩
            rw [List.flatten_cons, List.map_append, List.nodup_append] at hd
            exact hd.2.1)
          ⟨hdistinct, hfrom, hstart⟩
        refine hloop.imp fun ids s₂ hout => ?_
        obtain ⟨_, _, h₂⟩ := hout
        simp only [markSplit, wp_writes]
        set s₃ : Store := { s₂ with
          groups := modifyWhere (fun g => g.id = source && g.isActive) (fun g => { g with status := .split })
            s₂.groups } with hs₃
        have hinside : ∀ k m, s.findCurrent k = some m → m.groupId = source →
            ∃ g, g ≠ source ∧ s₂.findCurrent k = some { m with groupId := g, provenance := .operator } := by
          intro k m hm hg
          obtain rfl := (findCurrent_mem hm).2.2
          obtain ⟨g, hg', hf⟩ := h₂.inside m (h.mem_listCurrent_iff.2 ⟨hm, hg⟩) (by simp)
          exact ⟨g, fun he => hg' (he.trans hgid.symm), hf⟩
        have hother : ∀ k, (∀ m, s.findCurrent k = some m → m.groupId ≠ source) →
            s₂.findCurrent k = s.findCurrent k := by
          intro k hk
          refine h₂.others k fun hmem => ?_
          obtain ⟨r, hr, rfl⟩ := List.mem_map.1 hmem
          exact hk r (hin r hr).1 (hin r hr).2
        have h₃ : Memberships s₃ := h₂.memberships.modifyGroups (fun _ => rfl) (fun _ => rfl)
          (fun g _ ha => by simp [GroupRow.isActive] at ha) fun m hm hc g hq hg _ => by
            simp only [Bool.and_eq_true, decide_eq_true_eq] at hq
            have hms : m.groupId = source := hg.symm.trans hq.1
            have hf := h₂.memberships.findCurrent_eq_some.2 ⟨hm, hc, rfl⟩
            cases hs : s.findCurrent m.threadCanonicalKey with
            | none =>
              rw [hother _ (by simp [hs]), hs] at hf
              simp at hf
            | some m' =>
              by_cases hg' : m'.groupId = source
              · obtain ⟨g', hne, hf'⟩ := hinside _ m' hs hg'
                rw [hf] at hf'
                exact absurd (hms ▸ Option.some.inj hf' ▸ rfl) hne
              · rw [hother _ (by simpa [hs] using hg'), hs] at hf
                exact absurd (Option.some.inj hf ▸ hms) hg'
        refine (appendSplit_regroups s₃).imp fun _ s₄ hout => ?_
        obtain ⟨k₄, m₄, g₄, n₄⟩ := hout
        have hview : ∀ k, s₄.findCurrent k = s₂.findCurrent k := fun k => by
          simp only [Store.findCurrent, m₄, s₃]
        refine ⟨h₂.keeps.trans (Keeps.trans (show Keeps _ s₂ s₃ from ⟨rfl, le_rfl⟩) k₄), h₃.congr m₄ g₄ n₄,
          fun hr => RedirectsResolve.congr ((h₂.redirects hr).markSplit source) g₄,
          ⟨fun g => g = source, fun k m hm => ⟨fun hg => ?_, fun hg => ?_⟩⟩, fun k m hn hm => ?_⟩
        · obtain ⟨g, -, hf⟩ := hinside k m hm hg
          exact ⟨g, (hview k).trans hf⟩
        · rw [hview, hother k (by simpa [hm] using hg), hm]
        · rw [hview, hother k (by simp [hn]), hn] at hm
          simp at hm

end MemoryStore.ThreadGroup
