/-
Browsing thread groups by a thread filter (`app/src/app/thread_group/read_search.rs`):
a group is kept when one of its member threads passes the filter, which is tested on
the rows instead of in SQL.
-/
import MemoryStore.ThreadFilter.Resolve

namespace MemoryStore.ThreadFilter

/-! ## Rows as messages -/

/-- What browsing reads of `ThreadData`. -/
structure ThreadData where
  userId : Option Int
  channel : Option String
  createdAt : Int
  updatedAt : Int
  firstMessageAt : Option Int
  lastMessageAt : Option Int
  memoryKind : Int

/-- `ThreadRow::to_proto` -/
def ThreadRow.toProto (t : ThreadRow) : ThreadData where
  userId := if t.userId = 0 then none else some t.userId
  channel := t.channel
  createdAt := t.createdAt
  updatedAt := t.updatedAt
  firstMessageAt := t.firstMessageAt
  lastMessageAt := t.lastMessageAt
  memoryKind := t.memoryKind.getD 0

/-- `IN_LIST_CHUNK_SIZE` -/
def inListChunkSize : Nat := 500

/-- `ThreadRepository::find_by_ids` -/
def findByIds (db : Database) (ids : List Int) : List (Int × ThreadData) :=
  (ids.toChunks inListChunkSize).flatMap fun chunk =>
    ((db.threads.filter fun t => chunk.contains t.id).insertionSort fun a b => recentFirst a b).map fun t =>
      (t.id, t.toProto)

/-- `find_labels_by_thread_ids` -/
def findLabelsByThreadIds (db : Database) (threadIds : List Int) : List ThreadLabelRow :=
  (threadIds.toChunks inListChunkSize).flatMap fun chunk => db.labels.filter fun l => chunk.contains l.threadId

/-- `list_current_by_group_id` -/
def listCurrentByGroupId (db : Database) (groupId : Int) : List ThreadGroupMemberRow :=
  (db.members.filter fun m => m.groupId = groupId && m.isCurrent).insertionSort fun a b =>
    ¬ b.threadCanonicalKey < a.threadCanonicalKey

/-! ## The filter on a row -/

/-- The conditions that exclude a thread by itself. -/
def isExcluded (f : ThreadSearchFilter) (id : Int) (data : ThreadData) : Bool :=
  f.userId.any (fun value => data.userId ≠ some value) || f.channel.any (fun value => data.channel ≠ some value) ||
    f.threadId.any (fun value => id ≠ value) || f.threadCreatedAfter.any (fun value => data.createdAt ≤ value) ||
    f.threadCreatedBefore.any (fun value => value ≤ data.createdAt) ||
    f.threadUpdatedAfter.any (fun value => data.updatedAt ≤ value) ||
    f.threadUpdatedBefore.any (fun value => value ≤ data.updatedAt) ||
    f.firstMessageAfter.any (fun value => data.firstMessageAt.getD i64Min ≤ value) ||
    f.firstMessageBefore.any (fun value => value ≤ data.firstMessageAt.getD i64Max) ||
    f.lastMessageAfter.any (fun value => data.lastMessageAt.getD i64Min ≤ value) ||
    f.lastMessageBefore.any (fun value => value ≤ data.lastMessageAt.getD i64Max)

/-- The kind is not among those asked for. -/
def kindExcluded (memoryKinds : List Int) (memoryKind : Int) : Bool :=
  !memoryKinds.isEmpty && !memoryKinds.contains memoryKind && !(memoryKinds.contains rawKind && memoryKind = 0)

/-- The labels a thread must have. -/
def labelsMatch (f : ThreadSearchFilter) (labels : List ThreadLabelRow) (id : Int) : Bool :=
  let hasLabel := fun label => labels.any fun l => l.threadId = id && l.label = label
  f.labels.isEmpty || match f.labelMatchMode with
    | .labelAll => f.labels.all hasLabel
    | .labelAny => f.labels.any hasLabel

/-- `group_matches_filter` -/
def groupMatchesFilter (db : Database) (groupId : Int) (members : List ThreadGroupMemberRow) (f : ThreadSearchFilter) :
    Bool :=
  if f.threadGroupId.any fun value => value ≠ groupId then false
  else
    let threadIds := members.filterMap ThreadGroupMemberRow.threadId
    let threads := findByIds db threadIds
    let labels := findLabelsByThreadIds db threadIds
    threads.any fun (id, data) =>
      !isExcluded f id data && !kindExcluded f.memoryKinds data.memoryKind && labelsMatch f labels id

/-! ## What a row passes -/

theorem not_any_iff {α : Type} {bound : Option α} {p : α → Bool} : bound.any p = false ↔ ∀ v ∈ bound, p v = false := by
  cases bound <;> simp

/-- A missing message time is later than no bound. -/
theorem getD_after_iff {bound column : Option Int} (h : ∀ v, bound = some v → i64Min ≤ v) :
    (∀ v ∈ bound, v < column.getD i64Min) ↔ ∀ v ∈ bound, ∃ c ∈ column, v < c := by
  refine forall₂_congr fun v hv => ?_
  cases column with
  | none =>
    have := h v hv
    simp only [Option.getD_none, Option.mem_def, reduceCtorEq, false_and, exists_false, iff_false]
    omega
  | some c => simp

/-- Nor is it earlier than one. -/
theorem getD_before_iff {bound column : Option Int} (h : ∀ v, bound = some v → v ≤ i64Max) :
    (∀ v ∈ bound, column.getD i64Max < v) ↔ ∀ v ∈ bound, ∃ c ∈ column, c < v := by
  refine forall₂_congr fun v hv => ?_
  cases column with
  | none =>
    have := h v hv
    simp only [Option.getD_none, Option.mem_def, reduceCtorEq, false_and, exists_false, iff_false]
    omega
  | some c => simp

/-- The filter without its kinds. -/
abbrev withoutKinds (f : ThreadSearchFilter) : ThreadSearchFilter := { f with memoryKinds := [] }

theorem isExcluded_eq_false_iff {f : ThreadSearchFilter} {t : ThreadRow} :
    isExcluded f t.id t.toProto = false ↔
      (f.userId = some 0 → False) ∧ (∀ v ∈ f.threadId, t.id = v) ∧ MeetsColumns (withoutKinds f) t := by
  have huser : (∀ v ∈ f.userId, (if t.userId = 0 then none else some t.userId) = some v) ↔
      (f.userId = some 0 → False) ∧ ∀ v ∈ f.userId, t.userId = v := by
    cases f.userId with
    | none => simp
    | some v =>
      simp only [Option.mem_def, Option.some.injEq, forall_eq']
      split
      next hzero =>
        simp only [reduceCtorEq, false_iff]
        rintro ⟨hne, rfl⟩
        exact hne hzero
      next hne =>
        rw [Option.some.injEq]
        constructor
        · rintro rfl
          exact ⟨hne, rfl⟩
        · exact And.right
  unfold isExcluded ThreadRow.toProto
  simp only [Bool.or_eq_false_iff, not_any_iff, decide_eq_false_iff_not, not_le, ne_eq, not_not]
  rw [getD_after_iff fun v hv => f.after_ge v (.inl hv), getD_before_iff fun v hv => f.before_le v (.inl hv),
    getD_after_iff fun v hv => f.after_ge v (.inr hv), getD_before_iff fun v hv => f.before_le v (.inr hv), huser]
  constructor
  · rintro ⟨⟨⟨⟨⟨⟨⟨⟨⟨⟨⟨h0, h1⟩, h2⟩, h3⟩, h4⟩, h5⟩, h6⟩, h7⟩, h8⟩, h9⟩, h10⟩, h11⟩
    exact ⟨h0, h3, h1, h2, h4, h5, h6, h7, h8, h9, h10, h11, fun hne => absurd rfl hne⟩
  · rintro ⟨h0, h3, h1, h2, h4, h5, h6, h7, h8, h9, h10, h11, -⟩
    exact ⟨⟨⟨⟨⟨⟨⟨⟨⟨⟨⟨h0, h1⟩, h2⟩, h3⟩, h4⟩, h5⟩, h6⟩, h7⟩, h8⟩, h9⟩, h10⟩, h11⟩

/-- Asked for UNSPECIFIED and not for RAW, browsing takes a row without a kind and SQL does not. -/
theorem kindExcluded_eq_false_iff {f : ThreadSearchFilter} {kind : Option Int} :
    kindExcluded f.memoryKinds (kind.getD 0) = false ↔
      (f.memoryKinds ≠ [] → KindListed f kind ∨ 0 ∈ f.memoryKinds ∧ kind = none) := by
  unfold kindExcluded KindListed
  by_cases hkinds : f.memoryKinds = []
  · simp [hkinds]
  · cases kind with
    | none =>
      simp only [hkinds, Bool.and_eq_false_iff, Bool.not_eq_false', List.isEmpty_iff, List.contains_iff_mem,
        Bool.and_eq_true, decide_eq_true_eq, Option.getD_none, ne_eq, not_false_eq_true, true_imp_iff, Option.mem_def,
        reduceCtorEq, false_and, exists_false, false_or, or_false, and_true]
      exact or_comm
    | some k =>
      simp only [hkinds, Bool.and_eq_false_iff, Bool.not_eq_false', List.isEmpty_iff, List.contains_iff_mem,
        Bool.and_eq_true, decide_eq_true_eq, Option.getD_some, ne_eq, not_false_eq_true, true_imp_iff, Option.mem_def,
        Option.some.injEq, exists_eq_left', reduceCtorEq, false_or, or_false, and_false]

theorem mem_findByIds {db : Database} {ids : List Int} {x : Int × ThreadData} :
    x ∈ findByIds db ids ↔ ∃ t ∈ db.threads, t.id ∈ ids ∧ x = (t.id, t.toProto) := by
  unfold findByIds
  have hids : ∀ id, id ∈ ids ↔ ∃ chunk ∈ ids.toChunks inListChunkSize, id ∈ chunk := fun id => by
    rw [← List.mem_flatten, List.flatten_toChunks]
  simp only [List.mem_flatMap, List.mem_map, List.mem_insertionSort, List.mem_filter, List.contains_iff_mem, hids]
  constructor
  · rintro ⟨chunk, hchunk, t, ⟨ht, hid⟩, rfl⟩
    exact ⟨t, ht, ⟨chunk, hchunk, hid⟩, rfl⟩
  · rintro ⟨t, ht, ⟨chunk, hchunk, hid⟩, rfl⟩
    exact ⟨chunk, hchunk, t, ⟨ht, hid⟩, rfl⟩

theorem mem_findLabelsByThreadIds {db : Database} {ids : List Int} {l : ThreadLabelRow} :
    l ∈ findLabelsByThreadIds db ids ↔ l ∈ db.labels ∧ l.threadId ∈ ids := by
  unfold findLabelsByThreadIds
  have hids : ∀ id, id ∈ ids ↔ ∃ chunk ∈ ids.toChunks inListChunkSize, id ∈ chunk := fun id => by
    rw [← List.mem_flatten, List.flatten_toChunks]
  simp only [List.mem_flatMap, List.mem_filter, List.contains_iff_mem, hids]
  constructor
  · rintro ⟨chunk, hchunk, hl, hid⟩
    exact ⟨hl, chunk, hchunk, hid⟩
  · rintro ⟨hl, chunk, hchunk, hid⟩
    exact ⟨chunk, hchunk, hl, hid⟩

theorem labelsMatch_iff {db : Database} {f : ThreadSearchFilter} {ids : List Int} {id : Int} (hid : id ∈ ids) :
    labelsMatch f (findLabelsByThreadIds db ids) id = true ↔ (f.labels ≠ [] → HasLabels db f id) := by
  have hlabel : ∀ label, ((findLabelsByThreadIds db ids).any fun l => l.threadId = id && l.label = label) = true ↔
      ⟨id, label⟩ ∈ db.labels := by
    intro label
    simp only [List.any_eq_true, mem_findLabelsByThreadIds, Bool.and_eq_true, decide_eq_true_eq]
    constructor
    · rintro ⟨l, ⟨hl, -⟩, rfl, rfl⟩
      exact hl
    · intro hl
      exact ⟨_, ⟨hl, hid⟩, rfl, rfl⟩
  unfold labelsMatch HasLabels
  rw [Bool.or_eq_true, List.isEmpty_iff, ← or_iff_not_imp_left]
  cases f.labelMatchMode <;> simp only [List.all_eq_true, List.any_eq_true, hlabel]

/-! ## Members -/

/-- A database as the schema and the writes of the groups keep it: a deleted member
has no thread and an active one a live one, a thread has one canonical key, and a key
one current membership. -/
structure GroupDatabase extends Database where
  deleted_none : ∀ m ∈ members, m.state = .deleted → m.threadId = none
  active_live : ∀ m ∈ members, m.state = .active → ∃ t ∈ threads, m.threadId = some t.id
  thread_key : ∀ m ∈ members, ∀ m' ∈ members, m.isCurrent = true → m'.isCurrent = true → m.threadId ≠ none →
    m.threadId = m'.threadId → m.threadCanonicalKey = m'.threadCanonicalKey
  current_key : ∀ m ∈ members, ∀ m' ∈ members, m.isCurrent = true → m'.isCurrent = true →
    m.threadCanonicalKey = m'.threadCanonicalKey → m = m'

/-- The thread is a current member of the group. -/
def IsMember (db : Database) (groupId threadId : Int) : Prop :=
  ∃ m ∈ listCurrentByGroupId db groupId, m.threadId = some threadId

theorem isMember_iff {db : Database} {groupId threadId : Int} :
    IsMember db groupId threadId ↔
      ∃ m ∈ db.members, m.groupId = groupId ∧ m.isCurrent = true ∧ m.threadId = some threadId := by
  unfold IsMember listCurrentByGroupId
  simp only [List.mem_insertionSort, List.mem_filter, Bool.and_eq_true, decide_eq_true_eq, and_assoc]

/-- A member thread exists, and is a member of no other group. -/
theorem IsMember.live {db : GroupDatabase} {groupId threadId : Int} (h : IsMember db.toDatabase groupId threadId) :
    ∃ t ∈ db.threads, t.id = threadId := by
  obtain ⟨m, hm, -, hcurrent, hthread⟩ := isMember_iff.1 h
  cases hstate : m.state with
  | active =>
    obtain ⟨t, ht, hid⟩ := db.active_live m hm hstate
    exact ⟨t, ht, Option.some.inj (hid.symm.trans hthread)⟩
  | deleted =>
    rw [db.deleted_none m hm hstate] at hthread
    cases hthread
  | redirected =>
    unfold ThreadGroupMemberRow.isCurrent at hcurrent
    rw [hstate] at hcurrent
    cases hcurrent

theorem IsMember.unique {db : GroupDatabase} {groupId groupId' threadId : Int}
    (h : IsMember db.toDatabase groupId threadId) (h' : IsMember db.toDatabase groupId' threadId) :
    groupId = groupId' := by
  obtain ⟨m, hm, rfl, hcurrent, hthread⟩ := isMember_iff.1 h
  obtain ⟨m', hm', rfl, hcurrent', hthread'⟩ := isMember_iff.1 h'
  have hkey := db.thread_key m hm m' hm' hcurrent hcurrent' (by rw [hthread]; simp) (hthread.trans hthread'.symm)
  rw [db.current_key m hm m' hm' hcurrent hcurrent' hkey]

/-! ## Agreement -/

/-- UNSPECIFIED is asked for and RAW is not, and the thread, stored without a kind,
meets the other conditions. -/
def WithoutKind (db : Database) (f : ThreadSearchFilter) (threadId : Int) : Prop :=
  0 ∈ f.memoryKinds ∧ rawKind ∉ f.memoryKinds ∧ Selects db (withoutKinds f) threadId ∧
    ∃ t ∈ db.threads, t.id = threadId ∧ t.memoryKind = none

theorem row_unique {db : Database} {t t' : ThreadRow} (ht : t ∈ db.threads) (ht' : t' ∈ db.threads) (h : t.id = t'.id) :
    t = t' :=
  List.inj_on_of_nodup_map db.threads_nodup ht ht' h

theorem meetsColumns_iff_withoutKinds {f : ThreadSearchFilter} {t : ThreadRow} :
    MeetsColumns f t ↔ MeetsColumns (withoutKinds f) t ∧ (f.memoryKinds ≠ [] → KindListed f t.memoryKind) :=
  ⟨fun h => ⟨⟨h.1, h.2, h.3, h.4, h.5, h.6, h.7, h.8, h.9, h.10, fun hne => absurd rfl hne⟩, h.11⟩,
    fun ⟨h, hkinds⟩ => ⟨h.1, h.2, h.3, h.4, h.5, h.6, h.7, h.8, h.9, h.10, hkinds⟩⟩

/-- Without conditions on the columns every row meets them. -/
theorem meetsColumns_of_none {f : ThreadSearchFilter} (h : hasNonLabelFilters f = false) (t : ThreadRow) :
    MeetsColumns f t := by
  unfold hasNonLabelFilters at h
  rw [Bool.or_eq_false_iff, Option.isSome_eq_false_iff, Option.isNone_iff_eq_none] at h
  refine meetsColumns_of_user h.2 fun v hv => ?_
  rw [h.1] at hv
  cases hv

/-- A filter selects a thread that exists by its row. -/
theorem selects_iff {db : Database} {f : ThreadSearchFilter} {t : ThreadRow} (ht : t ∈ db.threads) :
    Selects db f t.id ↔ MeetsColumns f t ∧ (f.labels ≠ [] → HasLabels db f t.id) ∧ (∀ v ∈ f.threadId, t.id = v) ∧
      ∀ g ∈ f.threadGroupId, IsMember db g t.id := by
  constructor
  · intro h
    refine ⟨?_, h.labels, h.threadId, fun g hg => isMember_iff.2 (h.threadGroupId g hg)⟩
    by_cases hrow : f.labels ≠ [] ∨ hasNonLabelFilters f = true
    · obtain ⟨t', ht', hid, hmeets⟩ := h.row hrow
      rwa [row_unique ht' ht hid] at hmeets
    · exact meetsColumns_of_none (Bool.not_eq_true _ ▸ (not_or.1 hrow).2) t
  · rintro ⟨hmeets, hlabels, hthread, hgroup⟩
    exact ⟨fun _ => ⟨t, ht, rfl, hmeets⟩, hlabels, hthread, fun g hg => isMember_iff.1 (hgroup g hg)⟩

/-- **What browsing accepts**: unless the user is 0, a group with a member thread that
the filter selects, or would but for its missing kind. -/
theorem groupMatchesFilter_iff {db : GroupDatabase} {f : ThreadSearchFilter} {groupId : Int} :
    groupMatchesFilter db.toDatabase groupId (listCurrentByGroupId db.toDatabase groupId) f = true ↔
      f.userId ≠ some 0 ∧ ∃ id, IsMember db.toDatabase groupId id ∧
        (Selects db.toDatabase f id ∨ WithoutKind db.toDatabase f id) := by
  have hids : ∀ id, id ∈ (listCurrentByGroupId db.toDatabase groupId).filterMap ThreadGroupMemberRow.threadId ↔
      IsMember db.toDatabase groupId id := fun id => by
    unfold IsMember
    rw [List.mem_filterMap]
  have hkinds : ∀ {t}, t ∈ db.threads → (MeetsColumns (withoutKinds f) t ∧ (f.memoryKinds ≠ [] →
      KindListed f t.memoryKind ∨ 0 ∈ f.memoryKinds ∧ t.memoryKind = none) ↔
      MeetsColumns f t ∨ 0 ∈ f.memoryKinds ∧ rawKind ∉ f.memoryKinds ∧ MeetsColumns (withoutKinds f) t ∧
        t.memoryKind = none) := by
    intro t _
    rw [meetsColumns_iff_withoutKinds (f := f)]
    constructor
    · rintro ⟨hmeets, hk⟩
      by_cases hlisted : f.memoryKinds ≠ [] → KindListed f t.memoryKind
      · exact .inl ⟨hmeets, hlisted⟩
      · obtain ⟨hne, hno⟩ := Classical.not_imp.1 hlisted
        obtain ⟨hzero, hnone⟩ := (hk hne).resolve_left hno
        exact .inr ⟨hzero, fun hraw => hno (.inr ⟨hraw, .inl hnone⟩), hmeets, hnone⟩
    · rintro (⟨hmeets, hk⟩ | ⟨hzero, -, hmeets, hnone⟩)
      · exact ⟨hmeets, fun hne => .inl (hk hne)⟩
      · exact ⟨hmeets, fun _ => .inr ⟨hzero, hnone⟩⟩
  have hgroup : ∀ {id}, IsMember db.toDatabase groupId id →
      ((∀ g ∈ f.threadGroupId, IsMember db.toDatabase g id) ↔ ∀ g ∈ f.threadGroupId, g = groupId) := by
    intro id hmember
    refine forall₂_congr fun g _ => ⟨fun hg => hg.unique hmember, fun hg => ?_⟩
    rw [hg]
    exact hmember
  unfold groupMatchesFilter
  split
  next hother =>
    refine ⟨fun h => (nomatch h), fun ⟨_, id, hmember, hsel⟩ => ?_⟩
    obtain ⟨g, hg, hne⟩ := Option.any_eq_true _ _ |>.1 hother
    obtain ⟨t, ht, rfl⟩ := hmember.live
    have hall : ∀ g ∈ f.threadGroupId, IsMember db.toDatabase g t.id := by
      rcases hsel with hsel | hsel
      · exact ((selects_iff ht).1 hsel).2.2.2
      · exact ((selects_iff ht).1 hsel.2.2.1).2.2.2
    exact absurd ((hgroup hmember).1 hall g hg) (of_decide_eq_true hne)
  next hother =>
    have hown : ∀ g ∈ f.threadGroupId, g = groupId := by
      intro g hg
      by_contra hne
      exact hother (Option.any_eq_true _ _ |>.2 ⟨g, hg, decide_eq_true hne⟩)
    dsimp only
    rw [List.any_eq_true]
    constructor
    · rintro ⟨x, hx, hpass⟩
      obtain ⟨t, ht, hid, rfl⟩ := mem_findByIds.1 hx
      dsimp only at hpass
      rw [Bool.and_eq_true, Bool.and_eq_true, Bool.not_eq_true', Bool.not_eq_true', isExcluded_eq_false_iff,
        labelsMatch_iff hid] at hpass
      obtain ⟨⟨⟨huser, hthread, hmeets⟩, hkind⟩, hlabels⟩ := hpass
      have hkind := kindExcluded_eq_false_iff.1 hkind
      have hmember := (hids _).1 hid
      refine ⟨huser, t.id, hmember, ?_⟩
      rcases (hkinds ht).1 ⟨hmeets, hkind⟩ with hmeets | ⟨hzero, hraw, hmeets, hnone⟩
      · exact .inl ((selects_iff ht).2 ⟨hmeets, hlabels, hthread, (hgroup hmember).2 hown⟩)
      · exact .inr ⟨hzero, hraw, (selects_iff ht).2 ⟨hmeets, hlabels, hthread, (hgroup hmember).2 hown⟩,
          t, ht, rfl, hnone⟩
    · rintro ⟨huser, id, hmember, hsel⟩
      obtain ⟨t, ht, rfl⟩ := hmember.live
      have hpass : (MeetsColumns f t ∨ 0 ∈ f.memoryKinds ∧ rawKind ∉ f.memoryKinds ∧
          MeetsColumns (withoutKinds f) t ∧ t.memoryKind = none) ∧ (f.labels ≠ [] → HasLabels db.toDatabase f t.id) ∧
          ∀ v ∈ f.threadId, t.id = v := by
        rcases hsel with hsel | ⟨hzero, hraw, hsel, t', ht', hid, hnone⟩
        · obtain ⟨h1, h2, h3, -⟩ := (selects_iff ht).1 hsel
          exact ⟨.inl h1, h2, h3⟩
        · obtain ⟨h1, h2, h3, -⟩ := (selects_iff ht).1 hsel
          rw [row_unique ht' ht hid] at hnone
          exact ⟨.inr ⟨hzero, hraw, h1, hnone⟩, h2, h3⟩
      obtain ⟨hmeets, hlabels, hthread⟩ := hpass
      obtain ⟨hmeets, hkind⟩ := (hkinds ht).2 hmeets
      refine ⟨(t.id, t.toProto), mem_findByIds.2 ⟨t, ht, (hids _).2 hmember, rfl⟩, ?_⟩
      dsimp only
      rw [Bool.and_eq_true, Bool.and_eq_true, Bool.not_eq_true', Bool.not_eq_true', isExcluded_eq_false_iff,
        labelsMatch_iff ((hids _).2 hmember)]
      exact ⟨⟨⟨huser, hthread, hmeets⟩, kindExcluded_eq_false_iff.2 hkind⟩, hlabels⟩

/-- **Where the two readings of a filter agree** on a group. For user 0, which rows have
that belong to nobody, no member thread is selected. For any other filter, a member
thread that is selected, or would be but for its missing kind, comes with a selected
member thread that the label query reaches. -/
def ReadAlike (cfg : ThreadFilterConfig) (db : Database) (f : ThreadSearchFilter) (groupId : Int) : Prop :=
  if f.userId = some 0 then ∀ id, IsMember db groupId id → Selects db f id → ¬Reached cfg db f id
  else ∀ id, IsMember db groupId id → Selects db f id ∨ WithoutKind db f id →
    ∃ id', IsMember db groupId id' ∧ Selects db f id' ∧ Reached cfg db f id'

/-- One group, and its one thread, which a migration left without a kind. -/
def kindlessMember : GroupDatabase where
  threads := [⟨1, 5, none, 0, 0, none, none, none⟩]
  labels := []
  members := [⟨7, some 1, "key", .active⟩]
  threadMemories := []
  threads_nodup := by decide
  deleted_none := by decide
  active_live := by decide
  thread_key := by decide
  current_key := by decide

def defaultLimits : ThreadFilterConfig := ⟨1000000, 100000, 50000, by decide, by decide, wrappedLimit.maxTotal_lt⟩

end MemoryStore.ThreadFilter
