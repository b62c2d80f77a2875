/-
Pure ThreadGroup values and selection rules (`app/src/app/thread_group/domain.rs`):
choosing the parent among candidates, and partitioning a group.
-/
import MemoryStore.ThreadGroup.Rows

namespace MemoryStore.ThreadGroup

/-- `CandidateEvidence`. -/
inductive CandidateEvidence where
  | source (confidence : SourceConfidence)
  | operatorConfirmation
  deriving DecidableEq, Repr

structure Candidate where
  parentKey : Key
  relationType : RelationType
  evidence : CandidateEvidence
  deriving DecidableEq, Repr

inductive CandidateSelection where
  | selected (winner : Candidate)
  | conflict (winners : List Candidate)
  | noSelection
  deriving DecidableEq, Repr

/-- `candidate_rank`. -/
def candidateRank (candidate : Candidate) : Option Nat :=
  match candidate.evidence with
  | .source .exact => some 3
  | .operatorConfirmation => some 2
  | .source .strong => some 1
  | .source .heuristic | .source .unsupported => none

/-- The key candidates compete under. -/
def Candidate.pair (c : Candidate) : Key × RelationType := (c.parentKey, c.relationType)

def RelationType.ordinal : RelationType → Nat
  | .delegated => 0
  | .fork => 1
  | .continuation => 2

/-- The key order of `best_by_parent`. -/
def pairBefore (a b : Key × RelationType) : Bool :=
  a.1 < b.1 || (a.1 = b.1 && a.2.ordinal < b.2.ordinal)

/-- One insert into `best_by_parent`, kept as its values in key order: a pair
keeps its first candidate of the highest rank. -/
def keepBest (candidate : Candidate) (rank : Nat) : List Candidate → List Candidate
  | [] => [candidate]
  | existing :: rest =>
    if existing.pair = candidate.pair then
      if (candidateRank existing).any (rank ≤ ·) then existing :: rest else candidate :: rest
    else if pairBefore candidate.pair existing.pair then candidate :: existing :: rest
    else existing :: keepBest candidate rank rest

/-- One pass of the loop over the candidates: one without a rank is passed over. -/
def keepCandidate (best : List Candidate) (candidate : Candidate) : List Candidate :=
  match candidateRank candidate with
  | none => best
  | some rank => keepBest candidate rank best

/-- `best_by_parent` after the loop. -/
def bestByParent (candidates : List Candidate) : List Candidate := candidates.foldl keepCandidate []

/-- `select_parent_candidate`. -/
def selectParentCandidate (candidates : List Candidate) : CandidateSelection :=
  let best := bestByParent candidates
  match (best.filterMap candidateRank).max? with
  | none => .noSelection
  | some highest =>
    match best.filter fun c => candidateRank c = some highest with
    | [winner] => .selected winner
    | winners => .conflict winners

/-! ## What is selected was offered -/

theorem mem_keepBest {candidate c : Candidate} {rank : Nat} : ∀ {best : List Candidate},
    c ∈ keepBest candidate rank best → c = candidate ∨ c ∈ best
  | [], h => by simpa [keepBest] using h
  | existing :: rest, h => by
    simp only [keepBest] at h
    split at h
    · split at h
      · exact .inr h
      · rcases List.mem_cons.1 h with rfl | h
        · exact .inl rfl
        · exact .inr (List.mem_cons_of_mem _ h)
    · split at h
      · rcases List.mem_cons.1 h with rfl | h
        · exact .inl rfl
        · exact .inr h
      · rcases List.mem_cons.1 h with rfl | h
        · exact .inr List.mem_cons_self
        · exact (mem_keepBest h).imp_right (List.mem_cons_of_mem _)

theorem mem_foldl_keepCandidate {c : Candidate} : ∀ {candidates best : List Candidate},
    c ∈ candidates.foldl keepCandidate best → c ∈ candidates ∨ c ∈ best
  | [], _, h => .inr h
  | x :: candidates, best, h => by
    rw [List.foldl_cons] at h
    have h : c ∈ candidates ∨ c ∈ keepCandidate best x := mem_foldl_keepCandidate h
    rcases h with h | h
    · exact .inl (List.mem_cons_of_mem x h)
    · unfold keepCandidate at h
      split at h
      · exact .inr h
      · rcases mem_keepBest h with rfl | h
        · exact .inl List.mem_cons_self
        · exact .inr h

theorem mem_bestByParent {candidates : List Candidate} {c : Candidate} (h : c ∈ bestByParent candidates) :
    c ∈ candidates := (mem_foldl_keepCandidate h).resolve_right (by simp)

theorem mem_of_selected {candidates : List Candidate} {winner : Candidate}
    (h : selectParentCandidate candidates = .selected winner) : winner ∈ candidates := by
  simp only [selectParentCandidate] at h
  split at h
  · simp at h
  · next highest _ =>
    split at h
    · next w hw =>
      obtain rfl := CandidateSelection.selected.inj h
      have hmem : w ∈ (bestByParent candidates).filter fun c => candidateRank c = some highest := by simp [hw]
      exact mem_bestByParent (List.mem_filter.1 hmem).1
    · simp at h

theorem mem_of_conflict {candidates winners : List Candidate}
    (h : selectParentCandidate candidates = .conflict winners) {c : Candidate} (hc : c ∈ winners) :
    c ∈ candidates := by
  simp only [selectParentCandidate] at h
  split at h
  · simp at h
  · split at h
    · simp at h
    · obtain rfl := CandidateSelection.conflict.inj h
      exact mem_bestByParent (List.mem_filter.1 hc).1

/-! ## Partitioning a group -/

/-- `Membership`: the member columns a split carries over. -/
structure Membership where
  threadCanonicalKey : Key
  role : MemberRole
  state : MemberState
  deriving DecidableEq, Repr

/-- `GroupError`. -/
inductive GroupError where
  | tooFewPartitions
  | emptyPartition
  | duplicateMember (key : Key)
  | membershipMismatch
  deriving DecidableEq, Repr

/-- One partition: every key is new and names a member. -/
def assignPartition (memberships : List Membership) : List Key → List Key →
    Except GroupError (List Membership × List Key)
  | [], assigned => .ok ([], assigned)
  | key :: keys, assigned =>
    if key ∈ assigned then .error (.duplicateMember key)
    else match memberships.find? (fun m => m.threadCanonicalKey = key) with
      | none => .error .membershipMismatch
      | some member => do
        let (rest, assigned) ← assignPartition memberships keys (key :: assigned)
        .ok (member :: rest, assigned)

/-- The partitions, left to right, with the keys assigned so far. -/
def assignPartitions (memberships : List Membership) : List (List Key) → List Key →
    Except GroupError (List (List Membership) × List Key)
  | [], assigned => .ok ([], assigned)
  | partition :: partitions, assigned =>
    if partition.isEmpty then .error .emptyPartition
    else do
      let (successor, assigned) ← assignPartition memberships partition assigned
      let (successors, assigned) ← assignPartitions memberships partitions assigned
      .ok (successor :: successors, assigned)

/-- `split_group` of an active group: the successors' members, partition by partition. -/
def splitMemberships (memberships : List Membership) (partitions : List (List Key)) :
    Except GroupError (List (List Membership)) :=
  if partitions.length < 2 then .error .tooFewPartitions
  else do
    let (successors, assigned) ← assignPartitions memberships partitions []
    if assigned.length ≠ memberships.length then .error .membershipMismatch else .ok successors

end MemoryStore.ThreadGroup
