/-
The scope of a RETRACT. The decision is recorded on a candidate association, but
the relation it ends is the active relation of the association's subject,
provided an operator decision selected it, whichever association that decision
was on. So a retraction of one association undoes the later confirmation of
another one of the same child.
-/
import MemoryStore.ThreadGroup.OperatorRelations

namespace MemoryStore.ThreadGroup

open Tx Table

/-- The association has a decision that selected the relation. -/
def Store.SelectedBy (s : Store) (candidateAssociationId : Nat) (r : RelationRow) : Prop :=
  ∃ d ∈ s.decisions, d.candidateAssociationId = candidateAssociationId ∧ r.selection = .operatorConfirmation d.id

instance Store.decidableSelectedBy (s : Store) (candidateAssociationId : Nat) (r : RelationRow) :
    Decidable (s.SelectedBy candidateAssociationId r) := by
  unfold Store.SelectedBy
  infer_instance

/-- The child a RETRACT on an association is applied to: the association's subject, if the decision is neither refused
nor a replay of the latest one. -/
def Store.retractsFrom (s : Store) (candidateAssociationId : Nat) (reason : String) : Option Key :=
  match s.findCandidate candidateAssociationId with
  | none => none
  | some candidate =>
    match s.resolveCandidateSubject candidate with
    | none => none
    | some (threadId, key) =>
      if isBlank reason = false ∧ candidate.subjectThreadId = some threadId ∧
          s.decidedAlready candidateAssociationId .retract reason = false then some key
      else none

/-- The relation it ends: the child's active relation, if an operator decision selected it. -/
def Store.retractTarget (s : Store) (candidateAssociationId : Nat) (reason : String) : Option RelationRow :=
  (s.retractsFrom candidateAssociationId reason).bind fun key =>
    (s.findActiveByChild key).filter fun r => r.selection.byOperator

/-- The relations once a RETRACT was recorded. -/
def Store.retractedRelations (s : Store) (candidateAssociationId : Nat) (reason : String) : List RelationRow :=
  match s.retractTarget candidateAssociationId reason with
  | none => s.relations
  | some existing => (s.endRelation existing.id .retracted).relations

section Retract

variable [KeyHash] {s : Store} {candidateAssociationId : Nat} {reason : String} {now : Int}

/-- **What a RETRACT does to relations**; one that fails had nothing to end. -/
theorem retract_spec (s : Store) : wp (recordOperatorDecision candidateAssociationId .retract reason now)
    (fun _ s' => s'.relations = s.retractedRelations candidateAssociationId reason)
    (fun _ => s.retractTarget candidateAssociationId reason = none) s := by
  have hnone : s.retractsFrom candidateAssociationId reason = none → s.retractTarget candidateAssociationId reason = none :=
    fun h => by simp [Store.retractTarget, h]
  simp only [recordOperatorDecision, wp_bind, wp_ensure, wp_get]
  refine ⟨fun hreason => ?_, fun hreason => hnone ?_⟩
  · have hreason : isBlank reason = false := by simpa using hreason
    cases hcandidate : s.findCandidate candidateAssociationId with
    | none => exact hnone (by simp [Store.retractsFrom, hcandidate])
    | some candidate =>
      simp only [checkDecisionSubject, wp_bind, wp_ensure]
      refine ⟨fun _ => ?_, fun hscope => hnone ?_⟩
      · cases hsubject : s.resolveCandidateSubject candidate with
        | none => exact hnone (by simp [Store.retractsFrom, hcandidate, hsubject])
        | some subject =>
          obtain ⟨threadId, key⟩ := subject
          simp only [wp_ensure, decide_eq_true_eq]
          refine ⟨fun hthread => ?_, fun hthread => hnone ?_⟩
          swap
          · have hthread : candidate.subjectThreadId ≠ some threadId := by simpa using hthread
            simp [Store.retractsFrom, hcandidate, hsubject, hthread]
          cases hlatest : (s.findLatestDecision candidateAssociationId).filter
              fun latest => latest.decision = .retract && latest.reason = reason with
          | some latest =>
            have hdone : s.decidedAlready candidateAssociationId .retract reason = true := by
              obtain ⟨hl, hd⟩ := Option.filter_eq_some_iff.1 hlatest
              simpa [Store.decidedAlready, hl] using hd
            simp [Store.retractedRelations, Store.retractTarget, Store.retractsFrom, hcandidate, hsubject, hdone]
          | none =>
            have hdone : s.decidedAlready candidateAssociationId .retract reason = false := by
              unfold Store.decidedAlready
              cases hl : s.findLatestDecision candidateAssociationId with
              | none => rfl
              | some latest => simpa [hl, Option.filter] using hlatest
            have hfrom : s.retractsFrom candidateAssociationId reason = some key := by
              simp [Store.retractsFrom, hcandidate, hsubject, hreason, hthread, hdone]
            simp only [wp_bind, wp_pure, insertDecision, generateId, wp_reads, wp_writes, applyDecision, retractDecision,
              wp_get, updateSelection]
            have hfind : Store.findActiveByChild { s with
                nextId := s.nextId + 1
                decisions := s.decisions ++ [⟨s.nextId, candidateAssociationId, .retract, reason, now⟩] } key =
                s.findActiveByChild key := rfl
            simp only [hfind]
            cases hex : s.findActiveByChild key with
            | none => simp [Store.retractedRelations, Store.retractTarget, hfrom, hex]
            | some existing =>
              by_cases hby : existing.selection.byOperator = true
              · have htarget : s.retractTarget candidateAssociationId reason = some existing := by
                  simp [Store.retractTarget, hfrom, hex, Option.filter, hby]
                simp [Store.retractedRelations, htarget, hby, setRelationState, Store.endRelation]
              · have htarget : s.retractTarget candidateAssociationId reason = none := by
                  simp [Store.retractTarget, hfrom, hex, Option.filter, hby]
                simp [Store.retractedRelations, htarget, hby]
      · have hk : candidate.subject.key? = none := by simpa using hscope
        simp [Store.retractsFrom, hcandidate, Store.resolveCandidateSubject, hk]
  · have hreason : isBlank reason = true := by simpa using hreason
    simp only [Store.retractsFrom, hreason]
    split
    · rfl
    · split
      · rfl
      · simp

variable [PurgeDigest]

theorem retract_exec (s : Store) : ((Action.decide candidateAssociationId .retract reason now).exec s).relations =
    s.retractedRelations candidateAssociationId reason := by
  have hspec : wp (Action.decide candidateAssociationId .retract reason now).tx.2
      (fun _ s' => s'.relations = s.retractedRelations candidateAssociationId reason)
      (fun _ => s.retractTarget candidateAssociationId reason = none) s := retract_spec s
  cases hrun : (Action.decide candidateAssociationId .retract reason now).tx.2 s with
  | ok p =>
    obtain ⟨out, s'⟩ := p
    rw [Action.exec, commit_ok hrun]
    exact hspec.ok hrun
  | error e =>
    have hexec : (Action.decide candidateAssociationId .retract reason now).exec s = s := by
      simp only [Action.exec, Tx.commit, hrun]
    rw [hexec, Store.retractedRelations, hspec.error hrun]

/-- An active relation that a RETRACT changed is the one it ends. -/
theorem retract_changes (h : RelationIds s) {r : RelationRow} (hr : r ∈ s.relations) (ha : r.isActive = true) :
    r ∉ ((Action.decide candidateAssociationId .retract reason now).exec s).relations ↔
      s.retractTarget candidateAssociationId reason = some r := by
  rw [retract_exec, Store.retractedRelations]
  cases htarget : s.retractTarget candidateAssociationId reason with
  | none => simpa using hr
  | some existing =>
    obtain ⟨key, -, hfilter⟩ := Option.bind_eq_some_iff.1 htarget
    obtain ⟨hfind, -⟩ := Option.filter_eq_some_iff.1 hfilter
    obtain ⟨hmem, hact, -⟩ := findActiveByChild_mem hfind
    simp only [Store.endRelation, Option.some.injEq]
    constructor
    · intro hnot
      by_contra hne
      refine hnot (mem_modifyWhere.2 ⟨r, hr, if_neg ?_⟩)
      simp only [Bool.and_eq_true, decide_eq_true_eq, not_and]
      exact fun hid => absurd (h.unique.eq hmem rfl hr rfl hid.symm) hne
    · rintro rfl hin
      obtain ⟨r', hr', he⟩ := mem_modifyWhere.1 hin
      split at he
      · subst he
        simp [RelationRow.isActive] at ha
      · next hq =>
        subst he
        simp [ha] at hq

end Retract

section Scenarios

open Scenario

/-- Two parents tie for a child; the operator confirms the first and then the second. -/
def confirmedTwice : List Action := confirmed ++ [.decide 8 .confirm "the author corrected it" 3]

end Scenarios

end MemoryStore.ThreadGroup
