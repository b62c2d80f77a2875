/-
A split that is asked for again (`split_group`): the same parts, in any order and with
their keys in any order, are written alike, and only these; so a retry answers with the
groups that were made, and asking for other parts is refused.
-/
import MemoryStore.ThreadGroup.OperatorSteps
import MemoryStore.ThreadGroup.Scenario

namespace MemoryStore.ThreadGroup

open Tx Table

/-! ## The same parts -/

/-- Lists of keys are in dictionary order. -/
theorem keysBefore_iff : ∀ {a b : List Key}, keysBefore a b = true ↔ a ≤ b
  | [], b => by
    rw [← not_lt]
    simpa only [keysBefore, true_iff] using List.not_lt_nil b
  | a :: as, [] => by
    rw [← not_lt]
    simp only [keysBefore, Bool.false_eq_true, false_iff, not_not]
    exact List.nil_lt_cons a as
  | a :: as, b :: bs => by
    have hcons : (b :: bs < a :: as) ↔ b < a ∨ b = a ∧ bs < as := List.cons_lt_cons_iff
    rw [← not_lt, hcons]
    simp only [keysBefore, Bool.or_eq_true, Bool.and_eq_true, decide_eq_true_eq, keysBefore_iff, not_or, not_and,
      not_lt]
    rcases lt_trichotomy a b with hlt | rfl | hlt
    · simp [hlt, hlt.le, hlt.ne']
    · simp
    · simp [hlt.not_ge, hlt.asymm, hlt.ne']

instance : Std.Total fun a b => keysBefore a b = true where
  total a b := by
    simp only [keysBefore_iff]
    exact le_total a b

instance : IsTrans (List Key) fun a b => keysBefore a b = true where
  trans a b c := by
    simp only [keysBefore_iff]
    exact le_trans

/-- The same parts, in any order, each with its keys in any order. -/
def SameParts (partitions partitions' : List (List Key)) : Prop :=
  Multiset.ofList (partitions.map Multiset.ofList) = Multiset.ofList (partitions'.map Multiset.ofList)

/-- **Partitions are written alike exactly when they have the same parts.** -/
theorem normalizeSplitPartitions_iff (partitions partitions' : List (List Key)) :
    normalizeSplitPartitions partitions = normalizeSplitPartitions partitions' ↔ SameParts partitions partitions' := by
  let sorted (p : List (List Key)) : List (List Key) := p.map (·.insertionSort (· ≤ ·))
  have hback : ∀ p : List (List Key), (sorted p).map Multiset.ofList = p.map Multiset.ofList := by
    intro p
    rw [List.map_map]
    exact List.map_congr_left fun part _ => Quotient.sound (List.perm_insertionSort _ part)
  have hperm : ∀ p : List (List Key), (normalizeSplitPartitions p).Perm (sorted p) :=
    fun p => List.perm_insertionSort _ _
  constructor
  · intro h
    have hsorted : (sorted partitions).Perm (sorted partitions') := (hperm _).symm.trans (h ▸ hperm _)
    unfold SameParts
    rw [← hback partitions, ← hback partitions']
    exact Multiset.coe_eq_coe.2 (hsorted.map _)
  · intro h
    unfold SameParts at h
    rw [Multiset.coe_eq_coe] at h
    have hsort : ∀ p : List (List Key), sorted p = (p.map Multiset.ofList).map (·.sort (· ≤ ·)) := by
      intro p
      rw [List.map_map]
      refine List.map_congr_left fun part _ => ?_
      rw [Function.comp_apply, Multiset.coe_sort]
      exact (List.mergeSort_eq_insertionSort (· ≤ ·) part).symm
    have hsorted : (sorted partitions).Perm (sorted partitions') := by
      rw [hsort, hsort]
      exact h.map _
    refine ((hperm _).trans (hsorted.trans (hperm _).symm)).eq_of_pairwise
      (fun a b _ _ hab hba => le_antisymm (keysBefore_iff.1 hab) (keysBefore_iff.1 hba)) ?_ ?_
    · exact List.pairwise_insertionSort _ _
    · exact List.pairwise_insertionSort _ _

/-! ## The record of a split -/

/-- A split that is not recorded is none of the audits. -/
theorem findSplit_none {s : Store} {source : Nat} (h : (s.findSplitBySource source).bind AuditRow.splitOf? = none) :
    s.findSplitBySource source = none := by
  cases hfind : s.findSplitBySource source with
  | none => rfl
  | some a =>
    rw [hfind] at h
    unfold Store.findSplitBySource at hfind
    have hkind := List.find?_some hfind
    unfold AuditRow.isMerge at hkind
    unfold AuditRow.splitOf? at h
    rw [Option.bind_some] at h
    split at h
    · cases h
    next hmerge => simp [hmerge] at hkind

/-- A split is recorded once. -/
theorem appendSplit_recorded {s : Store} {source : Nat} (hnone : s.findSplitBySource source = none)
    (partition : List (List Key)) (ids : List Nat) :
    wp (appendSplit source partition ids)
      (fun _ s' => s'.groups = s.groups ∧
        (s'.findSplitBySource source).bind AuditRow.splitOf? = some (partition, ids)) (fun _ => False) s := by
  simp only [appendSplit, generateId, wp_bind, wp_reads, wp_writes, wp_get, wp_ensure]
  refine ⟨fun _ => ⟨rfl, ?_⟩, fun hsome => ?_⟩
  · have hfind : s.audits.find? (fun a => a.sourceGroupId = source && !a.isMerge) = none := hnone
    have hrow : (s.audits ++ [(⟨s.nextId, source, .split partition ids⟩ : AuditRow)]).find? (fun a =>
        a.sourceGroupId = source && !a.isMerge) = some ⟨s.nextId, source, .split partition ids⟩ := by
      rw [List.find?_append, hfind]
      simp [AuditRow.isMerge]
    unfold Store.findSplitBySource
    rw [hrow]
    rfl
  · have hfind : ({ s with nextId := s.nextId + 1 } : Store).findSplitBySource source = none := hnone
    rw [hfind] at hsome
    cases hsome

/-- No audit was added and no group is gone. -/
structure KeepsGroups (s s' : Store) : Prop where
  audits : s'.audits = s.audits
  groups : ∀ g ∈ s.groups, ∃ g' ∈ s'.groups, g'.id = g.id

theorem KeepsGroups.of_eq {s s' : Store} (ha : s'.audits = s.audits) (hg : s'.groups = s.groups) : KeepsGroups s s' :=
  ⟨ha, fun g hmem => ⟨g, hg ▸ hmem, rfl⟩⟩

instance : Std.Refl KeepsGroups := ⟨fun _ => .of_eq rfl rfl⟩

instance : IsTrans Store KeepsGroups where
  trans s s' s'' h h' := by
    refine ⟨h'.audits.trans h.audits, fun g hg => ?_⟩
    obtain ⟨g', hg', hid⟩ := h.groups g hg
    obtain ⟨g'', hg'', hid'⟩ := h'.groups g' hg'
    exact ⟨g'', hg'', hid'.trans hid⟩

theorem leaveLoop_keeps (rows : List MemberRow) (groupId : Nat) :
    Does KeepsGroups (fun _ => True) (Tx.forEach rows fun member => (do
      let _ ← redirectCurrent member.threadCanonicalKey groupId
      pure () : StoreTx Unit)) := by
  refine Does.forEach fun member _ => Does.bind ?_ fun _ => Does.pure ()
  exact Does.bind Does.get fun _ => Does.bind (Does.writes fun _ => .of_eq rfl rfl) fun _ => Does.pure _

theorem insertMember_keeps (row : MemberRow) : Does KeepsGroups (fun _ => True) (insertMember row) :=
  Does.bind Does.get fun _ => Does.bind (Does.ensure trivial) fun _ => Does.writes fun _ => .of_eq rfl rfl

section

variable [KeyHash]

theorem createSuccessor_keeps (group : GroupRow) (rows : List MemberRow) (part : List Membership) :
    Does KeepsGroups (fun _ => True) (createSuccessor group rows part) := by
  refine Does.bind (fun s => ?_) fun id => Does.bind ?_ fun _ => Does.pure id
  · rw [wp_createGroup]
    exact ⟨fun _ => ⟨rfl, fun g hg => ⟨g, List.mem_append_left _ hg, rfl⟩⟩, fun _ => trivial⟩
  · refine Does.forEach fun membership _ => ?_
    split
    · exact Does.fail trivial
    · exact insertMember_keeps _

/-- **A split is recorded** under its group, which stays. -/
theorem splitGroup_recorded (s : Store) (sourceGroupId : Nat) (partitions : List (List Key)) :
    wp (splitGroup sourceGroupId partitions)
      (fun ids s' => (∃ g ∈ s'.groups, g.id = sourceGroupId) ∧
        (s'.findSplitBySource sourceGroupId).bind AuditRow.splitOf? = some (normalizeSplitPartitions partitions, ids))
      (fun _ => True) s := by
  cases hgroup : s.findGroup sourceGroupId with
  | none =>
    simp only [splitGroup, wp_bind, wp_get, hgroup]
    trivial
  | some group =>
    have hmem : group ∈ s.groups ∧ group.id = sourceGroupId := by
      unfold Store.findGroup at hgroup
      exact ⟨List.mem_of_find?_eq_some hgroup, by simpa using List.find?_some hgroup⟩
    cases hnew : (s.findSplitBySource sourceGroupId).bind AuditRow.splitOf? with
    | some recorded =>
      obtain ⟨recorded, ids⟩ := recorded
      simp only [splitGroup, wp_bind, wp_get, hgroup, hnew]
      split
      · next heq =>
        rw [wp_pure]
        exact ⟨⟨group, hmem⟩, heq ▸ hnew⟩
      · trivial
    | none =>
      simp only [splitGroup, wp_bind, wp_get, hgroup, hnew, wp_ensure]
      refine ⟨fun _ => ?_, fun _ => trivial⟩
      split
      · trivial
      · simp only [wp_bind, wp_pure]
        refine (leaveLoop_keeps _ sourceGroupId s).imp fun _ s₁ h₁ => ?_
        refine (Does.collect (fun part _ => createSuccessor_keeps group _ part) s₁).imp fun ids s₂ h₂ => ?_
        simp only [markSplit, wp_writes]
        have hkeeps : KeepsGroups s s₂ := trans_of KeepsGroups h₁ h₂
        have hfresh : s₂.findSplitBySource sourceGroupId = none := by
          have hnone := findSplit_none hnew
          unfold Store.findSplitBySource at hnone ⊢
          rw [hkeeps.audits]
          exact hnone
        have happend := appendSplit_recorded (s := { s₂ with
          groups := modifyWhere (fun g => g.id = sourceGroupId && g.isActive) (fun g => { g with status := .split })
            s₂.groups }) hfresh (normalizeSplitPartitions partitions) ids
        refine happend.mono (fun _ s₃ hout => ?_) fun _ he => he.elim
        obtain ⟨hgroups, hrecord⟩ := hout
        obtain ⟨g, hg, hid⟩ := hkeeps.groups group hmem.1
        have hmarked : (if (decide (g.id = sourceGroupId) && g.isActive) = true then { g with status := .split }
            else g) ∈ s₃.groups := by
          rw [hgroups]
          exact mem_modifyWhere.2 ⟨g, hg, rfl⟩
        refine ⟨⟨_, hmarked, ?_⟩, hrecord⟩
        split
        · exact hid.trans hmem.2
        · exact hid.trans hmem.2

/-- What is asked of a group that was split. -/
theorem splitGroup_answers {s : Store} {sourceGroupId : Nat} (hkept : ∃ g ∈ s.groups, g.id = sourceGroupId)
    {recorded : List (List Key)} {ids : List Nat}
    (hrecord : (s.findSplitBySource sourceGroupId).bind AuditRow.splitOf? = some (recorded, ids))
    (partitions : List (List Key)) :
    (recorded = normalizeSplitPartitions partitions → splitGroup sourceGroupId partitions s = .ok (ids, s)) ∧
      (recorded ≠ normalizeSplitPartitions partitions → ∃ e, splitGroup sourceGroupId partitions s = .error e) := by
  obtain ⟨g, hg, hid⟩ := hkept
  have hsome : (s.findGroup sourceGroupId).isSome := by
    unfold Store.findGroup
    rw [List.find?_isSome]
    exact ⟨g, hg, by simpa using hid⟩
  obtain ⟨source, hsource⟩ := Option.isSome_iff_exists.1 hsome
  unfold splitGroup
  simp only [Tx.get_bind, hsource, hrecord]
  constructor
  · intro heq
    rw [if_pos heq]
    rfl
  · intro hne
    rw [if_neg hne]
    exact ⟨_, rfl⟩

end

theorem sameParts_swap (part part' : List Key) : SameParts [part, part'] [part', part] :=
  Multiset.coe_eq_coe.2 (.swap _ _ _)

end MemoryStore.ThreadGroup
