/-
`resolve_ancestor_closure` (`app/src/app/thread.rs`): from a memory back along
the parents that are attached to its thread, one level after the other.

Hydrating the thread ids of the answer is left out.
-/
import MemoryStore.Conversation.Wiring
import MemoryStore.Lib.Closure

namespace MemoryStore.Conversation

/-- `DEFAULT_ANCESTOR_MAX_DEPTH` -/
def defaultAncestorMaxDepth : Nat := 1024

/-- `HARD_ANCESTOR_MAX_DEPTH` -/
def hardAncestorMaxDepth : Nat := 4096

/-- `find_by_ids_with_position_tx`: the memories attached to the thread, by position. -/
def Store.findByIdsWithPosition (s : Store) (threadId : Nat) (ids : List Nat) : List (MemoryRow × Nat) :=
  ((s.memories.filter (·.id ∈ ids)).filterMap fun row =>
    (s.findAttachment threadId row.id).map fun a => (row, a.position)).insertionSort fun a b => a.2 ≤ b.2

/-- The ids collected, and the ids to look up next. -/
structure AncestorLevel where
  visited : List Nat
  frontier : List Nat
  deriving DecidableEq, Repr

/-- One row of a level: it is collected, and those of its parents that are not. -/
def visitRow (level : AncestorLevel) (row : MemoryRow × Nat) : AncestorLevel :=
  if row.1.id = 0 then level
  else
    { visited := level.visited ++ [row.1.id]
      frontier := level.frontier ++ row.1.data.parentIds.filter (· ∉ level.visited ++ [row.1.id]) }

/-- The error of a walk that is too deep. -/
def tooDeep (depthLimit : Nat) : AppError :=
  .invalidArgument s!"parent_ids traversal exceeded max_depth={depthLimit}: possible cycle"

/-- The loop, with the levels it may still look up: `depth` of them are done. -/
def expandAncestors (s : Store) (threadId startMemoryId depthLimit : Nat) :
    Nat → AncestorLevel → Except AppError (List Nat)
  | _, ⟨visited, []⟩ => .ok visited
  | 0, ⟨_, _ :: _⟩ => .error (tooDeep depthLimit)
  | left + 1, ⟨visited, frontier⟩ =>
    let chunk := frontier.filter (· ∉ visited)
    if chunk.isEmpty then .ok visited
    else
      let rows := s.findByIdsWithPosition threadId chunk
      if left = depthLimit ∧ startMemoryId ∉ rows.map (·.1.id) then
        .error (.notFound s!"start memory {startMemoryId} is not attached to thread {threadId}")
      else expandAncestors s threadId startMemoryId depthLimit left (rows.foldl visitRow ⟨visited, []⟩)

/-- `AncestorClosure` -/
structure AncestorClosure where
  orderedMemories : List (MemoryRow × Nat)
  systemMemory : Option (MemoryRow × Nat)
  deriving DecidableEq, Repr

/-- `max_by_key`: of several rows at the largest position, the last. -/
def maxByPosition (rows : List (MemoryRow × Nat)) : Option (MemoryRow × Nat) :=
  rows.foldl (fun best row => match best with
    | none => some row
    | some b => if b.2 ≤ row.2 then some row else some b) none

/-- The depth limit of a request. -/
def ancestorDepthLimit : Option Nat → Except AppError Nat
  | none => .ok defaultAncestorMaxDepth
  | some 0 => .error (.invalidArgument "max_depth must be at least 1")
  | some (n + 1) =>
    if hardAncestorMaxDepth < n + 1 then
      .error (.invalidArgument s!"max_depth {n + 1} exceeds server hard limit {hardAncestorMaxDepth}")
    else .ok (n + 1)

/-- `resolve_ancestor_closure` -/
def resolveAncestorClosure (s : Store) (threadId startMemoryId : Nat) (maxDepth : Option Nat) :
    Except AppError AncestorClosure :=
  (ancestorDepthLimit maxDepth).bind fun depthLimit =>
    (expandAncestors s threadId startMemoryId depthLimit (depthLimit + 1) ⟨[], [startMemoryId]⟩).map fun visited =>
      let ordered := s.findByIdsWithPosition threadId visited
      ⟨ordered, maxByPosition (ordered.filter fun row => row.1.data.role = roleSystem)⟩

end MemoryStore.Conversation

/-!
What `resolve_ancestor_closure` finds: the memories reachable through parents
attached to the thread, or an error if one of them is too far away. It gives the
error for one more reason: at the last level it may still have parents to look
up that lead no further.
-/

namespace MemoryStore.Conversation

open Hops (Distance)

variable {s : Store} {threadId start limit : Nat}

/-- The keys and unique indexes of memories and the junction. -/
structure Store.Keyed (s : Store) : Prop where
  memoryIds : (s.memories.map MemoryRow.id).Nodup
  memoryId_ne : ∀ row ∈ s.memories, row.id ≠ 0
  attachments : (s.threadMemories.map fun a => (a.threadId, a.memoryId)).Nodup
  positions : (s.threadMemories.map fun a => (a.threadId, a.position)).Nodup

/-- A memory of the thread, and its position. -/
def Store.Placed (s : Store) (threadId : Nat) (row : MemoryRow) (position : Nat) : Prop :=
  row ∈ s.memories ∧ ∃ a ∈ s.threadMemories, a.threadId = threadId ∧ a.memoryId = row.id ∧ a.position = position

/-- The memory is there and attached to the thread. -/
def Store.Member (s : Store) (threadId id : Nat) : Prop := ∃ row position, s.Placed threadId row position ∧ row.id = id

/-- The first memory names the second as a parent, and the second is attached. -/
def Store.ParentHop (s : Store) (threadId a b : Nat) : Prop :=
  (∃ row ∈ s.memories, row.id = a ∧ b ∈ row.data.parentIds) ∧ s.Member threadId b

/-! ## Rows of a level -/

theorem mem_findByIdsWithPosition (hs : s.Keyed) {ids : List Nat} {row : MemoryRow} {position : Nat} :
    (row, position) ∈ s.findByIdsWithPosition threadId ids ↔ row.id ∈ ids ∧ s.Placed threadId row position := by
  unfold Store.findByIdsWithPosition Store.Placed Store.findAttachment
  rw [List.mem_insertionSort, List.mem_filterMap]
  constructor
  · rintro ⟨m, hm, he⟩
    obtain ⟨hmem, hid⟩ := List.mem_filter.1 hm
    obtain ⟨a, ha, hpair⟩ := Option.map_eq_some_iff.1 he
    obtain ⟨rfl, rfl⟩ := Prod.mk.inj hpair
    obtain ⟨hrow, hkey⟩ := (Table.find?_eq_some_of_nodup hs.attachments).1 ha
    exact ⟨by simpa using hid, hmem, a, hrow, (Prod.mk.inj hkey).1, (Prod.mk.inj hkey).2, rfl⟩
  · rintro ⟨hid, hmem, a, ha, rfl, ham, rfl⟩
    refine ⟨row, List.mem_filter.2 ⟨hmem, by simpa using hid⟩, Option.map_eq_some_iff.2 ⟨a, ?_, rfl⟩⟩
    exact (Table.find?_eq_some_of_nodup hs.attachments).2 ⟨ha, by rw [ham]⟩

theorem Store.Keyed.placed_unique (hs : s.Keyed) {row row' : MemoryRow} {p p' : Nat} (h : s.Placed threadId row p)
    (h' : s.Placed threadId row' p') (hid : row.id = row'.id) : row = row' ∧ p = p' := by
  obtain ⟨hmem, a, ha, hat, ham, rfl⟩ := h
  obtain ⟨hmem', a', ha', hat', ham', rfl⟩ := h'
  have hrow : row = row' := List.inj_on_of_nodup_map hs.memoryIds hmem hmem' hid
  have hatt : a = a' := List.inj_on_of_nodup_map hs.attachments ha ha' (by rw [hat, hat', ham, ham', hid])
  exact ⟨hrow, by rw [hatt]⟩

theorem Store.Keyed.row_of_position (hs : s.Keyed) {row row' : MemoryRow} {p : Nat} (h : s.Placed threadId row p)
    (h' : s.Placed threadId row' p) : row = row' := by
  obtain ⟨hmem, a, ha, hat, ham, rfl⟩ := h
  obtain ⟨hmem', a', ha', hat', ham', hp⟩ := h'
  have hatt : a = a' := List.inj_on_of_nodup_map hs.positions ha ha' (by rw [hat, hat', hp])
  exact List.inj_on_of_nodup_map hs.memoryIds hmem hmem' (by rw [← ham, ← ham', hatt])

/-- The rows come by position, each position once. -/
theorem Store.Keyed.sorted (hs : s.Keyed) (ids : List Nat) :
    (s.findByIdsWithPosition threadId ids).Pairwise fun a b => a.2 < b.2 := by
  have hnodup : (s.findByIdsWithPosition threadId ids).Nodup := by
    unfold Store.findByIdsWithPosition
    refine (List.perm_insertionSort _ _).nodup_iff.2 (List.Nodup.filterMap (fun m m' pair hm hm' => ?_) ((hs.memoryIds.of_map _).filter _))
    obtain ⟨a, -, ha⟩ := Option.map_eq_some_iff.1 hm
    obtain ⟨a', -, ha'⟩ := Option.map_eq_some_iff.1 hm'
    exact (Prod.mk.inj (ha.trans ha'.symm)).1
  have hle : (s.findByIdsWithPosition threadId ids).Pairwise fun a b => a.2 ≤ b.2 :=
    List.pairwise_insertionSort (fun a b : MemoryRow × Nat => a.2 ≤ b.2) _
  refine (hle.and hnodup).imp_of_mem fun {a b} ha hb hab => ?_
  refine Nat.lt_of_le_of_ne hab.1 fun he => hab.2 ?_
  obtain ⟨row, position⟩ := a
  obtain ⟨row', position'⟩ := b
  obtain rfl : position = position' := he
  have hrow := hs.row_of_position ((mem_findByIdsWithPosition hs).1 ha).2 ((mem_findByIdsWithPosition hs).1 hb).2
  rw [hrow]

/-! ## One level -/

/-- A parent named by a row of the level, before which it was not collected. -/
def Fresh (visited : List Nat) (rows : List (MemoryRow × Nat)) (parent : Nat) : Prop :=
  ∃ before row after, rows = before ++ row :: after ∧ parent ∈ row.1.data.parentIds ∧ parent ∉ visited ∧
    parent ∉ before.map (·.1.id) ∧ parent ≠ row.1.id

theorem foldl_visitRow : ∀ {rows : List (MemoryRow × Nat)} {level : AncestorLevel}, (∀ row ∈ rows, row.1.id ≠ 0) →
    (rows.foldl visitRow level).visited = level.visited ++ rows.map (·.1.id) ∧
      ∀ parent, parent ∈ (rows.foldl visitRow level).frontier ↔ parent ∈ level.frontier ∨ Fresh level.visited rows parent
  | [], level, _ => by
    refine ⟨(List.append_nil _).symm, fun parent => ⟨.inl, ?_⟩⟩
    rintro (h | ⟨before, row, after, he, -⟩)
    · exact h
    · simp at he
  | row :: rows, level, h => by
    have hne := h row List.mem_cons_self
    have hstep : visitRow level row = ⟨level.visited ++ [row.1.id],
        level.frontier ++ row.1.data.parentIds.filter (· ∉ level.visited ++ [row.1.id])⟩ := if_neg hne
    obtain ⟨hvisited, hfrontier⟩ :=
      @foldl_visitRow rows (visitRow level row) fun r hr => h r (List.mem_cons_of_mem _ hr)
    rw [List.foldl_cons]
    refine ⟨by rw [hvisited, hstep, List.append_assoc]; rfl, fun parent => ?_⟩
    rw [hfrontier, hstep, List.mem_append, List.mem_filter, or_assoc]
    refine or_congr_right ⟨?_, ?_⟩
    · rintro (⟨hp, hn⟩ | ⟨before, r, after, rfl, hp, hv, hb, hr⟩)
      · simp only [List.mem_append, List.mem_singleton, decide_eq_true_eq, not_or] at hn
        exact ⟨[], row, rows, rfl, hp, hn.1, List.not_mem_nil, hn.2⟩
      · simp only [List.mem_append, List.mem_singleton, not_or] at hv
        exact ⟨row :: before, r, after, rfl, hp, hv.1, by simpa [hb] using hv.2, hr⟩
    · rintro ⟨before, r, after, he, hp, hv, hb, hr⟩
      cases before with
      | nil =>
        obtain ⟨rfl, rfl⟩ := List.cons.inj he
        exact .inl ⟨hp, by simp [hv, hr]⟩
      | cons b before =>
        obtain ⟨rfl, rfl⟩ := List.cons.inj he
        simp only [List.map_cons, List.mem_cons, not_or] at hb
        exact .inr ⟨before, r, after, rfl, hp, by simp [hv, hb.1], hb.2, hr⟩

/-! ## Levels are distances -/

/-- A memory at that distance from the start. -/
def Store.At (s : Store) (threadId start k id : Nat) : Prop := Distance (s.ParentHop threadId) start k id

/-- The position of a memory in the thread. -/
def Store.PositionIs (s : Store) (threadId id position : Nat) : Prop :=
  ∃ row, s.Placed threadId row position ∧ row.id = id

/-- What the walk has yet to look up after a level: parents that were not collected when they were named. -/
def Store.Ahead (s : Store) (threadId start : Nat) : Nat → Nat → Prop
  | 0, id => id = start
  | k + 1, id => ∃ x, s.At threadId start k x ∧ (∃ row ∈ s.memories, row.id = x ∧ id ∈ row.data.parentIds) ∧
      (∀ j, j < k → ¬s.At threadId start j id) ∧
      (s.At threadId start k id → ∃ p p', s.PositionIs threadId x p ∧ s.PositionIs threadId id p' ∧ p < p')

theorem Store.At.member {k id : Nat} (hstart : s.Member threadId start) (h : s.At threadId start k id) :
    s.Member threadId id := by
  cases k with
  | zero => exact Hops.distance_zero.1 h ▸ hstart
  | succ k =>
    obtain ⟨x, -, hop⟩ := h.pred
    exact hop.2

theorem Store.Ahead.of_at {k id : Nat} (h : s.At threadId start k id) : s.Ahead threadId start k id := by
  cases k with
  | zero => exact Hops.distance_zero.1 h
  | succ k =>
    obtain ⟨x, hx, hop⟩ := h.pred
    refine ⟨x, hx, hop.1, fun j hj hat => ?_, fun hat => ?_⟩
    · have := hat.unique h
      omega
    · have := hat.unique h
      omega

/-- What is ahead and in the thread is no further than the level. -/
theorem Store.Ahead.at_of_member {k id : Nat} (h : s.Ahead threadId start k id) (hm : s.Member threadId id) :
    ∃ j, j ≤ k ∧ s.At threadId start j id := by
  cases k with
  | zero => exact ⟨0, Nat.le_refl 0, Hops.distance_zero.2 h⟩
  | succ k =>
    obtain ⟨x, hx, hnames, -⟩ := h
    exact hx.next ⟨hnames, hm⟩

/-- The walk before a level. -/
structure Store.Level (s : Store) (threadId start k : Nat) (level : AncestorLevel) : Prop where
  visited : ∀ id, id ∈ level.visited ↔ ∃ j, j < k ∧ s.At threadId start j id
  frontier : ∀ id, id ∈ level.frontier ↔ s.Ahead threadId start k id

theorem Store.level_start : s.Level threadId start 0 ⟨[], [start]⟩ where
  visited _ := ⟨fun h => absurd h List.not_mem_nil, fun ⟨_, hj, _⟩ => absurd hj (Nat.not_lt_zero _)⟩
  frontier _ := List.mem_singleton

/-- The rows of a level are the memories at its distance. -/
theorem Store.Level.rows {k : Nat} {level : AncestorLevel} (h : s.Level threadId start k level) (hs : s.Keyed)
    {row : MemoryRow} {position : Nat} :
    (row, position) ∈ s.findByIdsWithPosition threadId (level.frontier.filter (· ∉ level.visited)) ↔
      s.At threadId start k row.id ∧ s.Placed threadId row position := by
  rw [mem_findByIdsWithPosition hs, List.mem_filter, h.frontier]
  simp only [decide_eq_true_eq, h.visited]
  constructor
  · rintro ⟨⟨hahead, hnew⟩, hplaced⟩
    refine ⟨?_, hplaced⟩
    obtain ⟨j, hj, hat⟩ := hahead.at_of_member ⟨row, position, hplaced, rfl⟩
    rcases Nat.lt_or_eq_of_le hj with hlt | rfl
    · exact absurd ⟨j, hlt, hat⟩ hnew
    · exact hat
  · rintro ⟨hat, hplaced⟩
    refine ⟨⟨.of_at hat, ?_⟩, hplaced⟩
    rintro ⟨j, hj, hat'⟩
    have := hat.unique hat'
    omega

theorem Store.Level.row_ids {k : Nat} {level : AncestorLevel} (h : s.Level threadId start k level) (hs : s.Keyed)
    (hstart : s.Member threadId start) {id : Nat} :
    id ∈ (s.findByIdsWithPosition threadId (level.frontier.filter (· ∉ level.visited))).map (·.1.id) ↔
      s.At threadId start k id := by
  rw [List.mem_map]
  constructor
  · rintro ⟨⟨row, position⟩, hrow, rfl⟩
    exact ((h.rows hs).1 hrow).1
  · intro hat
    obtain ⟨row, position, hplaced, rfl⟩ := Store.At.member hstart hat
    exact ⟨(row, position), (h.rows hs).2 ⟨hat, hplaced⟩, rfl⟩

/-- What is named first in a level is what is ahead of it. -/
theorem Store.Level.fresh_iff {k : Nat} {level : AncestorLevel} (h : s.Level threadId start k level) (hs : s.Keyed)
    (hstart : s.Member threadId start) {id : Nat} :
    Fresh level.visited (s.findByIdsWithPosition threadId (level.frontier.filter (· ∉ level.visited))) id ↔
      s.Ahead threadId start (k + 1) id := by
  have hsorted := @Store.Keyed.sorted s threadId hs (level.frontier.filter (· ∉ level.visited))
  constructor
  · rintro ⟨before, ⟨row, position⟩, after, he, hp, hv, hb, hne⟩
    obtain ⟨hat, hplaced⟩ := (h.rows hs).1 (he ▸ List.mem_append_right _ List.mem_cons_self)
    refine ⟨row.id, hat, ⟨row, hplaced.1, rfl, hp⟩, fun j hj hat' => hv ((h.visited id).2 ⟨j, hj, hat'⟩), fun hat' => ?_⟩
    -- A parent of the same level that is not before the row is after it.
    have hid := (h.row_ids hs hstart).2 hat'
    rw [he, List.map_append, List.map_cons, List.mem_append, List.mem_cons] at hid
    obtain ⟨⟨row', position'⟩, hrow', rfl⟩ := List.mem_map.1 ((hid.resolve_left hb).resolve_left hne)
    rw [he] at hsorted
    have hlt := (List.pairwise_cons.1 (List.pairwise_append.1 hsorted).2.1).1 _ hrow'
    have hplaced' := ((h.rows hs).1 (he ▸ List.mem_append_right _ (List.mem_cons_of_mem _ hrow'))).2
    exact ⟨position, position', ⟨row, hplaced, rfl⟩, ⟨row', hplaced', rfl⟩, hlt⟩
  · rintro ⟨x, hat, ⟨row, hrow, rfl, hp⟩, hv, hlater⟩
    obtain ⟨row', position, hplaced, hid⟩ := Store.At.member hstart hat
    obtain rfl : row' = row := List.inj_on_of_nodup_map hs.memoryIds hplaced.1 hrow hid
    obtain ⟨before, after, he⟩ := List.append_of_mem ((h.rows hs).2 ⟨hat, hplaced⟩)
    have hposition : s.At threadId start k id → ∃ p', s.PositionIs threadId id p' ∧ position < p' := by
      intro hat'
      obtain ⟨p, p', ⟨r, hr, hrid⟩, hp', hlt⟩ := hlater hat'
      obtain ⟨-, rfl⟩ := hs.placed_unique hr hplaced hrid
      exact ⟨p', hp', hlt⟩
    refine ⟨before, (row', position), after, he, hp, fun hmem => ?_, fun hmem => ?_, ?_⟩
    · obtain ⟨j, hj, hat'⟩ := (h.visited id).1 hmem
      exact hv j hj hat'
    · obtain ⟨⟨r, q⟩, hr, rfl⟩ := List.mem_map.1 hmem
      obtain ⟨hat', hq⟩ := (h.rows hs).1 (he ▸ List.mem_append_left _ hr)
      obtain ⟨p', ⟨r', hp', hrid⟩, hlt⟩ := hposition hat'
      obtain ⟨-, rfl⟩ := hs.placed_unique hp' hq hrid
      rw [he] at hsorted
      have := (List.pairwise_append.1 hsorted).2.2 _ hr _ List.mem_cons_self
      omega
    · rintro rfl
      obtain ⟨p', ⟨r', hp', hrid⟩, hlt⟩ := hposition hat
      obtain ⟨-, rfl⟩ := hs.placed_unique hp' hplaced hrid
      omega

theorem Store.Level.step {k : Nat} {level : AncestorLevel} (h : s.Level threadId start k level) (hs : s.Keyed)
    (hstart : s.Member threadId start) :
    s.Level threadId start (k + 1)
      ((s.findByIdsWithPosition threadId (level.frontier.filter (· ∉ level.visited))).foldl visitRow ⟨level.visited, []⟩) := by
  obtain ⟨hvisited, hfrontier⟩ :=
    @foldl_visitRow (s.findByIdsWithPosition threadId (level.frontier.filter (· ∉ level.visited)))
      ⟨level.visited, []⟩ fun row hrow => hs.memoryId_ne _ ((mem_findByIdsWithPosition hs).1 (show (row.1, row.2) ∈ _ from hrow)).2.1
  refine ⟨fun id => ?_, fun id => ?_⟩
  · rw [hvisited, List.mem_append, h.visited, h.row_ids hs hstart]
    constructor
    · rintro (⟨j, hj, hat⟩ | hat)
      · exact ⟨j, by omega, hat⟩
      · exact ⟨k, by omega, hat⟩
    · rintro ⟨j, hj, hat⟩
      rcases Nat.lt_or_eq_of_le (Nat.le_of_lt_succ hj) with hlt | rfl
      · exact .inl ⟨j, hlt, hat⟩
      · exact .inr hat
  · rw [hfrontier]
    exact (or_iff_right List.not_mem_nil).trans (h.fresh_iff hs hstart)

/-! ## The whole walk -/

/-- What the loop answers: an error if something is ahead of the last level, or all that is reachable. -/
structure Store.Expands (s : Store) (threadId start limit : Nat) (answer : Except AppError (List Nat)) : Prop where
  tooDeep : (∃ id, s.Ahead threadId start (limit + 1) id) → answer = .error (tooDeep limit)
  found : (¬∃ id, s.Ahead threadId start (limit + 1) id) →
    ∃ visited, answer = .ok visited ∧ ∀ id, id ∈ visited ↔ ∃ k, s.At threadId start k id

/-- Nothing lies at a level's distance: the walk is done. -/
theorem Store.Level.done {k : Nat} {level : AncestorLevel} (h : s.Level threadId start k level)
    (hk : k ≤ limit + 1) (hnone : ∀ id, ¬s.At threadId start k id) (hlast : k = limit + 1 → level.frontier = []) :
    s.Expands threadId start limit (.ok level.visited) where
  tooDeep hahead := by
    obtain ⟨id, hid⟩ := hahead
    rcases Nat.lt_or_eq_of_le hk with hlt | rfl
    · obtain ⟨x, hx, -⟩ := hid
      obtain ⟨y, hy⟩ := Hops.Distance.below hx (Nat.le_of_lt_succ hlt)
      exact absurd hy (hnone y)
    · have hmem := (h.frontier id).2 hid
      rw [hlast rfl] at hmem
      exact absurd hmem List.not_mem_nil
  found _ := by
    refine ⟨level.visited, rfl, fun id => (h.visited id).trans ⟨fun ⟨j, _, hat⟩ => ⟨j, hat⟩, ?_⟩⟩
    rintro ⟨j, hat⟩
    refine ⟨j, Nat.lt_of_not_le fun hle => ?_, hat⟩
    obtain ⟨y, hy⟩ := Hops.Distance.below hat hle
    exact hnone y hy

theorem expandAncestors_spec (hs : s.Keyed) (hstart : s.Member threadId start) :
    ∀ {left k : Nat} {level : AncestorLevel}, k + left = limit + 1 → s.Level threadId start k level →
      s.Expands threadId start limit (expandAncestors s threadId start limit left level)
  | left, k, ⟨visited, []⟩, hk, h => by
    have hanswer : expandAncestors s threadId start limit left ⟨visited, []⟩ = .ok visited := by
      cases left <;> rfl
    rw [hanswer]
    exact h.done (by omega) (fun id hat => absurd ((h.frontier id).2 (.of_at hat)) List.not_mem_nil) fun _ => rfl
  | 0, k, ⟨visited, id :: rest⟩, hk, h => by
    obtain rfl : k = limit + 1 := hk
    have hahead : s.Ahead threadId start (limit + 1) id := (h.frontier id).1 List.mem_cons_self
    exact ⟨fun _ => rfl, fun hnone => absurd ⟨id, hahead⟩ hnone⟩
  | left + 1, k, ⟨visited, id :: rest⟩, hk, h => by
    have hchunk : ∀ x, s.At threadId start k x → x ∈ (id :: rest).filter (· ∉ visited) := by
      intro x hat
      refine List.mem_filter.2 ⟨(h.frontier x).2 (.of_at hat), ?_⟩
      rw [decide_eq_true_eq, h.visited]
      rintro ⟨j, hj, hat'⟩
      have := hat.unique hat'
      omega
    unfold expandAncestors
    dsimp only
    split
    · next hempty =>
      refine h.done (by omega) (fun x hat => ?_) fun he => by omega
      have hmem := hchunk x hat
      rw [List.isEmpty_iff.1 hempty] at hmem
      exact absurd hmem List.not_mem_nil
    · rw [if_neg]
      · exact expandAncestors_spec hs hstart (by omega) (h.step hs hstart)
      · rintro ⟨rfl, hmissing⟩
        obtain rfl : k = 0 := by omega
        exact hmissing ((h.row_ids hs hstart).2 (Hops.distance_zero.2 rfl))

/-! ## The answer -/

/-- Some memory of the thread is further than the limit. -/
def Store.Beyond (s : Store) (threadId start limit : Nat) : Prop := ∃ k id, limit < k ∧ s.At threadId start k id

/-- A memory at the limit names a parent that is not in the thread, or that is at
the limit too but at a later position. -/
def Store.Overshoots (s : Store) (threadId start limit : Nat) : Prop :=
  ∃ x id, s.At threadId start limit x ∧ (∃ row ∈ s.memories, row.id = x ∧ id ∈ row.data.parentIds) ∧
    (¬s.Member threadId id ∨
      s.At threadId start limit id ∧ ∃ p p', s.PositionIs threadId x p ∧ s.PositionIs threadId id p' ∧ p < p')

theorem Store.ahead_iff (hstart : s.Member threadId start) :
    (∃ id, s.Ahead threadId start (limit + 1) id) ↔
      s.Beyond threadId start limit ∨ s.Overshoots threadId start limit := by
  constructor
  · rintro ⟨id, hahead⟩
    obtain ⟨x, hx, hnames, hnew, hlater⟩ := hahead
    by_cases hm : s.Member threadId id
    · obtain ⟨j, hj, hat⟩ := hx.next (show s.ParentHop threadId x id from ⟨hnames, hm⟩)
      rcases Nat.lt_trichotomy j limit with hlt | rfl | hgt
      · exact absurd hat (hnew j hlt)
      · exact .inr ⟨x, id, hx, hnames, .inr ⟨hat, hlater hat⟩⟩
      · exact .inl ⟨j, id, hgt, hat⟩
    · exact .inr ⟨x, id, hx, hnames, .inl hm⟩
  · rintro (⟨k, id, hk, hat⟩ | ⟨x, id, hx, hnames, hover⟩)
    · obtain ⟨y, hy⟩ := Hops.Distance.below hat hk
      exact ⟨y, .of_at hy⟩
    · refine ⟨id, x, hx, hnames, fun j hj hat => ?_, fun hat => ?_⟩
      · rcases hover with hm | ⟨hat', -⟩
        · exact hm (Store.At.member hstart hat)
        · have := hat.unique hat'
          omega
      · rcases hover with hm | ⟨-, hlater⟩
        · exact absurd (Store.At.member hstart hat) hm
        · exact hlater

/-- The memories reachable through the thread, by position, and the last system memory of them. -/
structure AncestorClosure.Exact (c : AncestorClosure) (s : Store) (threadId start : Nat) : Prop where
  rows : ∀ row position, (row, position) ∈ c.orderedMemories ↔
    Relation.ReflTransGen (s.ParentHop threadId) start row.id ∧ s.Placed threadId row position
  sorted : c.orderedMemories.Pairwise fun a b => a.2 < b.2
  system : ∀ found, c.systemMemory = some found ↔ (found ∈ c.orderedMemories ∧ found.1.data.role = roleSystem) ∧
    ∀ row ∈ c.orderedMemories, row.1.data.role = roleSystem → row.2 ≤ found.2
  noSystem : c.systemMemory = none ↔ ∀ row ∈ c.orderedMemories, row.1.data.role ≠ roleSystem

theorem foldl_maxByPosition : ∀ {rows : List (MemoryRow × Nat)} {best : MemoryRow × Nat},
    (best :: rows).Pairwise (fun a b => a.2 < b.2) →
    ∃ row, rows.foldl (fun best row => match best with
        | none => some row
        | some b => if b.2 ≤ row.2 then some row else some b) (some best) = some row ∧
      row ∈ best :: rows ∧ ∀ r ∈ best :: rows, r.2 ≤ row.2
  | [], best, _ => ⟨best, rfl, List.mem_cons_self, fun r hr => by rw [List.mem_singleton.1 hr]⟩
  | next :: rows, best, h => by
    obtain ⟨hbest, hrest⟩ := List.pairwise_cons.1 h
    have hlt := hbest next List.mem_cons_self
    obtain ⟨row, hrow, hmem, hmax⟩ := foldl_maxByPosition hrest
    refine ⟨row, ?_, List.mem_cons_of_mem _ hmem, fun r hr => ?_⟩
    · rw [List.foldl_cons]
      dsimp only
      rw [if_pos (Nat.le_of_lt hlt)]
      exact hrow
    · rcases List.mem_cons.1 hr with rfl | hr
      · exact Nat.le_of_lt (Nat.lt_of_lt_of_le hlt (hmax next List.mem_cons_self))
      · exact hmax r hr

/-- At different positions, there is one row at the largest. -/
theorem maxByPosition_eq_some {rows : List (MemoryRow × Nat)} (h : rows.Pairwise fun a b => a.2 < b.2)
    {found : MemoryRow × Nat} : maxByPosition rows = some found ↔ found ∈ rows ∧ ∀ row ∈ rows, row.2 ≤ found.2 := by
  have hnodup : (rows.map Prod.snd).Nodup := List.pairwise_map.2 (h.imp fun hlt => Nat.ne_of_lt hlt)
  have hunique : ∀ a ∈ rows, ∀ b ∈ rows, a.2 = b.2 → a = b := fun a ha b hb he =>
    List.inj_on_of_nodup_map hnodup ha hb he
  cases rows with
  | nil => simp [maxByPosition]
  | cons first rest =>
    obtain ⟨row, hrow, hmem, hmax⟩ := foldl_maxByPosition h
    have hanswer : maxByPosition (first :: rest) = some row := hrow
    rw [hanswer]
    constructor
    · intro he
      obtain rfl := Option.some.inj he
      exact ⟨hmem, hmax⟩
    · rintro ⟨hf, hfmax⟩
      rw [hunique row hmem found hf (Nat.le_antisymm (hfmax row hmem) (hmax found hf))]

theorem maxByPosition_eq_none {rows : List (MemoryRow × Nat)} (h : rows.Pairwise fun a b => a.2 < b.2) :
    maxByPosition rows = none ↔ rows = [] := by
  cases rows with
  | nil => simp [maxByPosition]
  | cons first rest =>
    obtain ⟨row, hrow, -⟩ := foldl_maxByPosition h
    have hanswer : maxByPosition (first :: rest) = some row := hrow
    simp [hanswer]

theorem closure_exact (hs : s.Keyed) {visited : List Nat} (hvisited : ∀ id, id ∈ visited ↔ ∃ k, s.At threadId start k id) :
    AncestorClosure.Exact ⟨s.findByIdsWithPosition threadId visited,
      maxByPosition ((s.findByIdsWithPosition threadId visited).filter fun row => row.1.data.role = roleSystem)⟩
      s threadId start := by
  have hsorted := @Store.Keyed.sorted s threadId hs visited
  have hsystem : ∀ found, found ∈ (s.findByIdsWithPosition threadId visited).filter
      (fun row => row.1.data.role = roleSystem) ↔
      found ∈ s.findByIdsWithPosition threadId visited ∧ found.1.data.role = roleSystem := fun found => by
    rw [List.mem_filter, decide_eq_true_eq]
  refine ⟨fun row position => ?_, hsorted, fun found => ?_, ?_⟩
  · rw [mem_findByIdsWithPosition hs, hvisited, Hops.reached_iff]
    rfl
  · rw [maxByPosition_eq_some (hsorted.filter _), hsystem]
    refine and_congr_right fun _ => ⟨fun h row hrow hrole => h row ((hsystem row).2 ⟨hrow, hrole⟩), fun h row hrow => ?_⟩
    obtain ⟨hmem, hrole⟩ := (hsystem row).1 hrow
    exact h row hmem hrole
  · rw [maxByPosition_eq_none (hsorted.filter _), List.filter_eq_nil_iff]
    simp only [decide_eq_true_eq, ne_eq]

/-- The error of the depth, exactly if a memory of the thread is too far, and else the closure. -/
structure Store.ClosureExact (s : Store) (threadId start limit : Nat) (answer : Except AppError AncestorClosure) :
    Prop where
  depth : answer = .error (tooDeep limit) ↔ s.Beyond threadId start limit
  found : ¬s.Beyond threadId start limit → ∃ c, answer = .ok c ∧ c.Exact s threadId start

/-- **The ancestor closure is exact** unless the walk overshoots with nothing beyond the limit. -/
theorem ancestorClosure_exact_iff (hs : s.Keyed) (hstart : s.Member threadId start)
    (hlimit : 1 ≤ limit ∧ limit ≤ hardAncestorMaxDepth) :
    s.ClosureExact threadId start limit (resolveAncestorClosure s threadId start (some limit)) ↔
      s.Beyond threadId start limit ∨ ¬s.Overshoots threadId start limit := by
  have hdepth : ancestorDepthLimit (some limit) = .ok limit := by
    cases limit with
    | zero => exact absurd hlimit.1 (by decide)
    | succ n => exact if_neg (Nat.not_lt.2 hlimit.2)
  have hspec := expandAncestors_spec hs hstart (Nat.zero_add (limit + 1)) (Store.level_start (s := s))
  have hahead := @Store.ahead_iff s threadId start limit hstart
  generalize hanswer : expandAncestors s threadId start limit (limit + 1) ⟨[], [start]⟩ = answer at hspec
  have hresolve : resolveAncestorClosure s threadId start (some limit) = answer.map fun visited =>
      ⟨s.findByIdsWithPosition threadId visited, maxByPosition
        ((s.findByIdsWithPosition threadId visited).filter fun row => row.1.data.role = roleSystem)⟩ := by
    unfold resolveAncestorClosure
    rw [hdepth, ← hanswer]
    rfl
  rw [hresolve]
  by_cases hany : ∃ id, s.Ahead threadId start (limit + 1) id
  · rw [hspec.tooDeep hany]
    constructor
    · exact fun h => .inl (h.depth.1 rfl)
    · intro h
      have hbeyond := h.elim id fun hn => (hahead.1 hany).resolve_right hn
      exact ⟨⟨fun _ => hbeyond, fun _ => rfl⟩, fun hn => absurd hbeyond hn⟩
  · obtain ⟨visited, rfl, hvisited⟩ := hspec.found hany
    have hneither := not_or.1 fun h => hany (hahead.2 h)
    refine ⟨fun _ => .inr hneither.2, fun _ => ⟨⟨(nomatch ·), fun h => absurd h hneither.1⟩, fun _ => ?_⟩⟩
    exact ⟨_, rfl, closure_exact hs hvisited⟩

/-! ## A short thread -/

/-- A message with its parents. -/
def message (id : Nat) (parentIds : List Nat) : MemoryRow :=
  ⟨id, ⟨parentIds, none, "", 0, none, none, 0, 0, 1, none, none, 1⟩⟩

/-- Two messages of thread 1, the second with the first as its parent. -/
def twoMessages (parents : List Nat) : Store :=
  { Store.empty with
      nextId := 10, memories := [message 2 parents, message 3 [2]]
      threadMemories := [⟨1, 2, 0, 0⟩, ⟨1, 3, 1, 0⟩] }

theorem twoMessages_keyed (parents : List Nat) : (twoMessages parents).Keyed where
  memoryIds := show [2, 3].Nodup by decide
  memoryId_ne row hrow := by
    rcases List.mem_cons.1 hrow with rfl | hrow
    · exact (by decide : (2 : Nat) ≠ 0)
    · rw [List.mem_singleton.1 hrow]
      exact (by decide : (3 : Nat) ≠ 0)
  attachments := show [(1, 2), (1, 3)].Nodup by decide
  positions := show [(1, 0), (1, 1)].Nodup by decide

theorem twoMessages_member (parents : List Nat) : (twoMessages parents).Member 1 3 :=
  have hattached : ⟨1, 3, 1, 0⟩ ∈ (twoMessages parents).threadMemories :=
    List.mem_cons_of_mem _ List.mem_cons_self
  ⟨message 3 [2], 1, ⟨List.mem_cons_of_mem _ List.mem_cons_self, _, hattached, rfl, rfl, rfl⟩, rfl⟩

/-- One hop is allowed, and one hop leads to the first message, which has no parents. -/
theorem firstMessage_found :
    (twoMessages []).ClosureExact 1 3 1 (resolveAncestorClosure (twoMessages []) 1 3 (some 1)) := by
  refine (ancestorClosure_exact_iff (twoMessages_keyed []) (twoMessages_member []) (by decide)).2 (.inr ?_)
  rintro ⟨x, id, hx, ⟨row, hrow, rfl, hid⟩, -⟩
  rcases List.mem_cons.1 hrow with rfl | hrow
  · exact absurd hid List.not_mem_nil
  · obtain rfl := List.mem_singleton.1 hrow
    have := hx.unique (Hops.distance_zero.2 rfl)
    omega

/-- The first message names a parent that is gone: the walk fails, though nothing
of the thread is further than one hop. -/
theorem goneParent_tooDeep :
    ¬(twoMessages [9]).ClosureExact 1 3 1 (resolveAncestorClosure (twoMessages [9]) 1 3 (some 1)) := by
  intro h
  have herror : resolveAncestorClosure (twoMessages [9]) 1 3 (some 1) = .error (tooDeep 1) := by decide +kernel
  obtain ⟨k, id, hk, hat⟩ := h.depth.1 herror
  obtain ⟨y, hy⟩ := Hops.Distance.below hat hk
  obtain ⟨x, hx, ⟨row, hrow, rfl, hname⟩, ⟨row', p, ⟨hrow', -⟩, rfl⟩⟩ := hy.pred
  rcases List.mem_cons.1 hrow with rfl | hrow
  · obtain he : row'.id = 9 := List.mem_singleton.1 hname
    rcases List.mem_cons.1 hrow' with rfl | hrow'
    · exact absurd he (by decide)
    · rw [List.mem_singleton.1 hrow'] at he
      exact absurd he (by decide)
  · obtain rfl := List.mem_singleton.1 hrow
    have := hx.unique (Hops.distance_zero.2 rfl)
    omega

end MemoryStore.Conversation
