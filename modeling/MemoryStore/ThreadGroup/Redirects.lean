/-
Redirects between groups. Every operation but one keeps them resolved: each
redirect ends, in one hop, at a group that is there and active or split. The
purge of an active group that other groups are redirected to is the exception:
it refuses a split group in that position, moves the redirects of a redirected
one along, and of an active one takes the row away under them.
-/
import MemoryStore.ThreadGroup.Stability
import MemoryStore.ThreadGroup.Scenario

namespace MemoryStore.ThreadGroup

open Tx Table

section Steps

variable {s s' : Store}

theorem Batches.groups (h : Batches s s') : s'.groups = s.groups := by
  cases h with
  | maps _ h => exact h.groups
  | revives _ _ _ s₁ _ h₁ _ _ h₂ => exact h₂.groups.trans h₁.groups

theorem Deletes.groups {keyOf : Nat → Option Key} {now : Int} (h : Deletes keyOf now s s') : s'.groups = s.groups := by
  induction h with
  | done => rfl
  | next _ _ _ _ h _ ih => exact ih.trans h.groups

theorem RedirectsResolve.empty : RedirectsResolve Store.empty := by simp [RedirectsResolve, Store.empty]

theorem mem_listAllByGroupId {s : Store} {groupId : Nat} {m : MemberRow} :
    m ∈ s.listAllByGroupId groupId ↔ m ∈ s.members ∧ m.groupId = groupId := by
  rw [Store.listAllByGroupId, List.mem_insertionSort, List.mem_filter]
  simp

theorem redirects_stable [KeyHash] : Stable RedirectsResolve where
  evidence _ h he := h.congr he.groups
  mapping _ h hm := h.congr hm.groups
  ended _ h _ _ := h.congr rfl
  ensured hs h _ _ hens := (hens.reassigning hs).2.2 h
  adopted hs h _ hrow hn hno hens :=
    (hens.reassigning (hs.relate hrow.active (hrow.child ▸ hn) (hrow.child ▸ hrow.parent ▸ hno))).2.2 (h.congr rfl)
  housed _ h _ hh := by
    cases hh with
    | already => exact h
    | alone g identity s₁ _ hopen => exact (hopen.redirects h).congr rfl

end Steps

section Purge

variable [PurgeDigest]

/-- A purge that passes every check and takes an active group away that other groups are redirected to. -/
def Action.StrandsRedirects (s : Store) : Action → Prop
  | .purge groupId expectedDigest =>
    (s.findGroup groupId).any GroupRow.isActive = true ∧ s.listRedirectingTo groupId ≠ [] ∧
      (∀ m ∈ s.listAllByGroupId groupId, m.state.isActive = false) ∧ PurgeDigest.digest s groupId = expectedDigest
  | _ => False

/-- A purge on a stale preview does nothing. -/
theorem purgeGroup_stale {s : Store} {groupId : Nat} {expectedDigest : String}
    (h : PurgeDigest.digest s groupId ≠ expectedDigest) : (purgeGroup groupId expectedDigest).commit s = s := by
  have hfail : wp (purgeGroup groupId expectedDigest) (fun _ _ => False) (fun _ => True) s := by
    simp only [purgeGroup, wp_bind, wp_get]
    split
    · trivial
    · simp [h]
  rcases hfail.commit with he | ⟨_, he⟩
  · exact he
  · exact he.elim

/-- A purge of an active group that passes its checks takes its row, and no other. -/
theorem purgeGroup_active {s : Store} {groupId : Nat} {expectedDigest : String}
    (h : (Action.purge groupId expectedDigest).StrandsRedirects s) :
    wp (purgeGroup groupId expectedDigest) (fun _ s' => s'.groups = s.groups.filter fun g => g.id ≠ groupId)
      (fun _ => False) s := by
  obtain ⟨hactive, -, hlive, hdigest⟩ := h
  obtain ⟨group, hgroup, hgact⟩ := (Option.any_eq_true _ _).1 hactive
  have hst : group.status = .active := by simpa [GroupRow.isActive] using hgact
  have hany : (s.listAllByGroupId groupId).any (·.state.isActive) = false := by
    simpa [List.any_eq_false] using hlive
  simp only [purgeGroup, wp_bind, wp_get, hgroup, wp_ensure, hdigest, decide_true, hany, hst]
  refine ⟨fun _ => ⟨fun _ => ⟨fun _ => ?_, by simp⟩, by simp⟩, by simp⟩
  have hthin : Does Thins (fun _ => False) (Tx.forEach ((s.internalRelations (s.listAllByGroupId groupId)).filter
      (!·.isActive)) fun relation => deleteRelation relation.id) :=
    Does.forEach fun _ _ => Does.writes fun _ => ⟨rfl, rfl, List.filter_sublist, rfl, rfl⟩
  refine (hthin s).imp fun _ s₁ h₁ => ?_
  have haudits : Does Thins (fun _ => False) (deleteAuditsByGroupId groupId) :=
    Does.writes fun _ => ⟨rfl, rfl, List.Sublist.refl _, rfl, rfl⟩
  refine (haudits s₁).imp fun _ s₂ h₂ => ?_
  simp only [deleteMembersByGroupId, wp_writes]
  refine (purgeMarkers_thins _).imp fun _ s₄ h₄ => ?_
  have hg₄ : s₄.groups = s.groups := h₄.groups.trans (h₂.groups.trans h₁.groups)
  have hfind : (s₄.findGroup groupId).isSome = true := by
    rw [Store.findGroup, hg₄]
    exact Option.isSome_iff_exists.2 ⟨group, hgroup⟩
  simp [GroupRow.redirectTarget?, hst, deleteGroup, hfind, hg₄]

/-- The redirect under which the row is taken dangles. -/
theorem Action.StrandsRedirects.dangles {s : Store} (hs : Memberships s) {a : Action} (h : a.StrandsRedirects s)
    [KeyHash] : ¬ RedirectsResolve (a.exec s) := by
  cases a with
  | purge groupId expectedDigest =>
    obtain ⟨_, s', hrun, hgroups⟩ := (purgeGroup_active h).total
    have hexec : (Action.purge groupId expectedDigest).exec s = s' := commit_ok hrun
    obtain ⟨hactive, hinbound, -⟩ := h
    obtain ⟨g, hg⟩ := List.exists_mem_of_ne_nil _ hinbound
    obtain ⟨hmem, hto⟩ := listRedirectingTo_mem.1 hg
    have hst : g.status = .redirected groupId := by simpa [GroupRow.redirectsTo] using hto
    have hne : g.id ≠ groupId := by
      obtain ⟨group, hgroup, hgact⟩ := (Option.any_eq_true _ _).1 hactive
      obtain ⟨hgm, hgid⟩ := hs.findGroup_eq_some.1 hgroup
      rintro he
      obtain rfl := hs.groupId.eq hmem rfl hgm rfl (he.trans hgid.symm)
      simp [GroupRow.isActive, hst] at hgact
    rw [hexec]
    intro hr
    obtain ⟨t, ht, hid, -⟩ := hr g (hgroups ▸ List.mem_filter.2 ⟨hmem, by simpa using hne⟩) groupId hst
    rw [hgroups, List.mem_filter] at ht
    simp [hid] at ht
  | _ => exact h.elim

variable [KeyHash]

theorem Action.exec_redirects {s : Store} (hs : Sound s) (hr : RedirectsResolve s) {a : Action}
    (ha : ¬ a.StrandsRedirects s) : RedirectsResolve (a.exec s) := by
  rcases a.exec_cases hs with he | ho
  · exact he.symm ▸ hr
  · cases a with
    | reconcile => exact Reconciles.stable redirects_stable ho hs hr
    | late => exact Discovers.stable redirects_stable ho hs hr
    | decide => exact Decides.stable redirects_stable ho hs hr
    | createThread => exact hr.congr (MappingOnly.groups ho)
    | ensureKey => exact hr.congr (MappingOnly.groups ho)
    | batch => exact hr.congr (Batches.groups ho)
    | delete => exact hr.congr (Deletes.groups ho)
    | merge => exact OperatorStep.redirects ho hr
    | split => exact OperatorStep.redirects ho hr
    | attach => exact OperatorStep.redirects ho hr
    | purge groupId expectedDigest =>
      by_cases hd : PurgeDigest.digest s groupId = expectedDigest
      · refine Purges.redirects ho hr fun g hg hid ha' g' hg' => ?_
        by_contra hto
        refine ha ⟨?_, ?_, fun m hm => ?_, hd⟩
        · rw [hs.memberships.findGroup_eq_some.2 ⟨hg, hid⟩]
          exact ha'
        · exact List.ne_nil_of_mem (listRedirectingTo_mem.2 ⟨hg', by simpa using hto⟩)
        · exact Purges.inactive ho m (mem_listAllByGroupId.1 hm).1 (mem_listAllByGroupId.1 hm).2
      · have hexec : (Action.purge groupId expectedDigest).exec s = s := purgeGroup_stale hd
        exact hexec.symm ▸ hr

end Purge

end MemoryStore.ThreadGroup
