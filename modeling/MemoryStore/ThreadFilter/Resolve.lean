/-
`app/src/app/thread_filter_resolver.rs`: the memories of the threads that a thread
filter selects, under the limits of the environment.
-/
import MemoryStore.Lib.Fallible
import MemoryStore.MemorySearch.Fusion
import MemoryStore.MemorySearch.PerMemory
import MemoryStore.ThreadFilter.Rows

namespace MemoryStore.ThreadFilter

open MemorySearch (HashOrder)

/-- The limits of `ThreadFilterConfig` that resolution reads, in the range of their types. -/
structure ThreadFilterConfig where
  intermediateHardLimit : Int
  maxThreadIds : Int
  ftsMaxTotalIds : Nat
  hardLimit_ge : -2 ^ 63 ≤ intermediateHardLimit
  hardLimit_lt : intermediateHardLimit < 2 ^ 63
  maxTotal_lt : ftsMaxTotalIds < 2 ^ 64

/-- Whether a condition other than the user, the labels and the ids is set. -/
def otherThanUserId (f : ThreadSearchFilter) : Bool :=
  f.channel.isSome || f.threadCreatedAfter.isSome || f.threadCreatedBefore.isSome || f.threadUpdatedAfter.isSome ||
    f.threadUpdatedBefore.isSome || f.firstMessageAfter.isSome || f.firstMessageBefore.isSome ||
    f.lastMessageAfter.isSome || f.lastMessageBefore.isSome || !f.memoryKinds.isEmpty

/-- `has_non_label_filters` -/
def hasNonLabelFilters (f : ThreadSearchFilter) : Bool := f.userId.isSome || otherThanUserId f

/-- `needs_other_route` -/
def needsOtherRoute (f : ThreadSearchFilter) : Bool :=
  if !f.labels.isEmpty then otherThanUserId f else hasNonLabelFilters f

/-- `(cfg.intermediate_hard_limit as i32).saturating_add(1)` -/
def labelLimit (cfg : ThreadFilterConfig) : Int := min (cfg.intermediateHardLimit.bmod (2 ^ 32) + 1) (2 ^ 31 - 1)

/-- The ids of a route, as a set, unless there are more than `limit`. -/
def withinLimit (limit : Int) (error : FilterError) (ids : List Int) : Except FilterError (Option (List Int)) :=
  if limit < ids.length then .error error else .ok (some (SortedSet.ofList ids))

section Routes

variable (backend : Backend) (cfg : ThreadFilterConfig) (db : Database) (f : ThreadSearchFilter)

/-- Route 1: labels. -/
def labelsSet : Except FilterError (Option (List Int)) :=
  if f.labels.isEmpty then .ok none
  else do
    let matchAll := f.labelMatchMode = .labelAll
    let ids ← findThreadIdsByLabels backend db f.labels matchAll f.userId (labelLimit cfg)
    withinLimit cfg.intermediateHardLimit (.labels cfg.intermediateHardLimit) ids

/-- Route 2: the non-label conditions. -/
def otherSet : Except FilterError (Option (List Int)) :=
  if needsOtherRoute f then do
    let ids ← findThreadIdsByFilter backend db f cfg.intermediateHardLimit
    withinLimit cfg.intermediateHardLimit (.nonLabel cfg.intermediateHardLimit) ids
  else .ok none

/-- Route 3: an explicit thread. -/
def threadSet : Option (List Int) := f.threadId.map fun threadId => [threadId]

/-- Route 3: the members of a group; the sum wraps. -/
def groupSet : Except FilterError (Option (List Int)) :=
  match f.threadGroupId with
  | none => .ok none
  | some groupId => do
    let ids ← findThreadIdsByGroupId backend db groupId ((cfg.intermediateHardLimit + 1).bmod (2 ^ 64))
    withinLimit cfg.intermediateHardLimit (.group groupId cfg.intermediateHardLimit) ids

/-- One populated route more. -/
def intersect (resolved : Option (List Int)) (set : List Int) : Option (List Int) :=
  some (match resolved with
    | some acc => acc.filter fun id => set.contains id
    | none => set)

/-- The threads that the routes select together, unless no route is populated. -/
def resolveThreads : Except FilterError (Option (List Int)) := do
  let labels ← labelsSet backend cfg db f
  let other ← otherSet backend cfg db f
  let group ← groupSet backend cfg db f
  pure ([labels, other, threadSet f, group].reduceOption.foldl intersect none)

variable (order : HashOrder)

/-- The memories of the resolved threads. -/
def resolvedMemoryIds (resolved : List Int) : Except FilterError (List Int) :=
  if cfg.maxThreadIds < resolved.length then .error (.threads resolved.length cfg.maxThreadIds)
  else if resolved.isEmpty then .ok []
  else do
    let memoryIds ← findMemoryIdsByThreadIds backend db (order.arrange resolved) cfg.ftsMaxTotalIds
    if cfg.ftsMaxTotalIds < memoryIds.length then .error (.memories cfg.ftsMaxTotalIds)
    else pure (SortedSet.ofList (order.arrange memoryIds))

/-- `resolve_memory_ids_from_thread_filter` -/
def resolveMemoryIdsFromThreadFilter : Except FilterError (Option (List Int)) := do
  match ← resolveThreads backend cfg db f with
  | none => pure none
  | some resolved => some <$> resolvedMemoryIds backend cfg db order resolved

end Routes

end MemoryStore.ThreadFilter

/-!
What a resolved thread filter returns. Every route but one notices when it was cut
short: the limit of the label route goes through `i32`, where a large limit turns
into a small one, and the cap on memories through `i64`, where the largest turns
into zero.
-/

namespace MemoryStore.ThreadFilter

open MemorySearch (HashOrder)

/-! ## The threads a filter is about -/

/-- The thread has the labels, or one of them. -/
def HasLabels (db : Database) (f : ThreadSearchFilter) (threadId : Int) : Prop :=
  match f.labelMatchMode with
  | .labelAll => ∀ l ∈ f.labels, ⟨threadId, l⟩ ∈ db.labels
  | .labelAny => ∃ l ∈ f.labels, ⟨threadId, l⟩ ∈ db.labels

/-- The kind is listed; with RAW so are the rows that have none. -/
def KindListed (f : ThreadSearchFilter) (kind : Option Int) : Prop :=
  (∃ k ∈ kind, k ∈ f.memoryKinds) ∨ rawKind ∈ f.memoryKinds ∧ (kind = none ∨ kind = some 0)

/-- The thread's row meets the conditions on its columns. -/
structure MeetsColumns (f : ThreadSearchFilter) (t : ThreadRow) : Prop where
  userId : ∀ v ∈ f.userId, t.userId = v
  channel : ∀ v ∈ f.channel, t.channel = some v
  createdAfter : ∀ v ∈ f.threadCreatedAfter, v < t.createdAt
  createdBefore : ∀ v ∈ f.threadCreatedBefore, t.createdAt < v
  updatedAfter : ∀ v ∈ f.threadUpdatedAfter, v < t.updatedAt
  updatedBefore : ∀ v ∈ f.threadUpdatedBefore, t.updatedAt < v
  firstMessageAfter : ∀ v ∈ f.firstMessageAfter, ∃ c ∈ t.firstMessageAt, v < c
  firstMessageBefore : ∀ v ∈ f.firstMessageBefore, ∃ c ∈ t.firstMessageAt, c < v
  lastMessageAfter : ∀ v ∈ f.lastMessageAfter, ∃ c ∈ t.lastMessageAt, v < c
  lastMessageBefore : ∀ v ∈ f.lastMessageBefore, ∃ c ∈ t.lastMessageAt, c < v
  memoryKinds : f.memoryKinds ≠ [] → KindListed f t.memoryKind

/-- **The thread meets every condition that is set.** Labels and columns are read of
a thread that exists. -/
structure Selects (db : Database) (f : ThreadSearchFilter) (id : Int) : Prop where
  row : f.labels ≠ [] ∨ hasNonLabelFilters f = true → ∃ t ∈ db.threads, t.id = id ∧ MeetsColumns f t
  labels : f.labels ≠ [] → HasLabels db f id
  threadId : ∀ v ∈ f.threadId, id = v
  threadGroupId : ∀ g ∈ f.threadGroupId, ∃ m ∈ db.members, m.groupId = g ∧ m.isCurrent = true ∧ m.threadId = some id

/-- No condition is set. -/
def NoCondition (f : ThreadSearchFilter) : Prop := f = { labelMatchMode := f.labelMatchMode }

/-! ## Queries -/

theorem isAfter_iff {bound column : Option Int} : isAfter bound column = true ↔ ∀ v ∈ bound, ∃ c ∈ column, v < c := by
  unfold isAfter
  simp only [Option.all_eq_true, Option.any_eq_true, decide_eq_true_eq, Option.mem_def]

theorem isBefore_iff {bound column : Option Int} : isBefore bound column = true ↔ ∀ v ∈ bound, ∃ c ∈ column, c < v := by
  unfold isBefore
  simp only [Option.all_eq_true, Option.any_eq_true, decide_eq_true_eq, Option.mem_def]

theorem exists_mem_some {a : Int} {p : Int → Prop} : (∃ c ∈ some a, p c) ↔ p a := by simp

theorem kindSelected_iff {f : ThreadSearchFilter} {kind : Option Int} :
    kindSelected f.memoryKinds kind = true ↔ (f.memoryKinds ≠ [] → KindListed f kind) := by
  unfold kindSelected KindListed
  by_cases hkinds : f.memoryKinds = []
  · simp [hkinds]
  · simp only [hkinds, List.isEmpty_iff, Bool.or_eq_true, Bool.and_eq_true, Option.any_eq_true, List.contains_iff_mem,
      decide_eq_true_eq, ne_eq, not_false_eq_true, true_imp_iff, false_or, Option.mem_def]

theorem filterSelects_iff {f : ThreadSearchFilter} {t : ThreadRow} : filterSelects f t = true ↔ MeetsColumns f t := by
  unfold filterSelects
  simp only [Bool.and_eq_true, isAfter_iff, isBefore_iff, exists_mem_some, kindSelected_iff, Option.all_eq_true,
    decide_eq_true_eq]
  constructor
  · rintro ⟨⟨⟨⟨⟨⟨⟨⟨⟨⟨h1, h2⟩, h3⟩, h4⟩, h5⟩, h6⟩, h7⟩, h8⟩, h9⟩, h10⟩, h11⟩
    exact ⟨h1, h2, h3, h4, h5, h6, h7, h8, h9, h10, h11⟩
  · rintro ⟨h1, h2, h3, h4, h5, h6, h7, h8, h9, h10, h11⟩
    exact ⟨⟨⟨⟨⟨⟨⟨⟨⟨⟨h1, h2⟩, h3⟩, h4⟩, h5⟩, h6⟩, h7⟩, h8⟩, h9⟩, h10⟩, h11⟩

theorem mem_labelsOf {db : Database} {labels : List String} {threadId : Int} {l : String} :
    l ∈ labelsOf db labels threadId ↔ l ∈ labels ∧ ⟨threadId, l⟩ ∈ db.labels := by
  unfold labelsOf
  simp only [List.mem_dedup, List.mem_map, List.mem_filter, Bool.and_eq_true, decide_eq_true_eq, List.contains_iff_mem]
  constructor
  · rintro ⟨row, ⟨hrow, rfl, hl⟩, rfl⟩
    exact ⟨hl, hrow⟩
  · rintro ⟨hl, hrow⟩
    exact ⟨_, ⟨hrow, rfl, hl⟩, rfl⟩

/-- Counting the distinct labels found tells whether all were. -/
theorem labelsOf_length_iff {db : Database} {labels : List String} {threadId : Int} :
    (labelsOf db labels.dedup threadId).length = labels.dedup.length ↔ ∀ l ∈ labels, ⟨threadId, l⟩ ∈ db.labels := by
  have hnodup : (labelsOf db labels.dedup threadId).Nodup := List.nodup_dedup _
  have hsub : labelsOf db labels.dedup threadId ⊆ labels.dedup := fun l hl => (mem_labelsOf.1 hl).1
  constructor
  · intro hlen l hl
    have hperm := (List.subperm_of_subset hnodup hsub).perm_of_length_le hlen.ge
    exact (mem_labelsOf.1 (hperm.mem_iff.2 (List.mem_dedup.2 hl))).2
  · intro hall
    have hback : labels.dedup ⊆ labelsOf db labels.dedup threadId := fun l hl =>
      mem_labelsOf.2 ⟨hl, hall l (List.mem_dedup.1 hl)⟩
    exact Nat.le_antisymm (List.subperm_of_subset hnodup hsub).length_le
      (List.subperm_of_subset (List.nodup_dedup _) hback).length_le

/-- The rows of the label query of a filter, before its limit. -/
def labelRowsOf (db : Database) (f : ThreadSearchFilter) : List Int :=
  labelRows db f.labels (f.labelMatchMode = .labelAll) f.userId []

theorem mem_labelRowsOf {db : Database} {f : ThreadSearchFilter} {threadId : Int} :
    threadId ∈ labelRowsOf db f ↔
      HasLabels db f threadId ∧ ∃ t ∈ db.threads, t.id = threadId ∧ ∀ v ∈ f.userId, t.userId = v := by
  have hfound : ∀ id, (if f.labelMatchMode = .labelAll then
        decide ((labelsOf db f.labels.dedup id).length = f.labels.dedup.length)
      else !(labelsOf db f.labels.dedup id).isEmpty) = true ↔ HasLabels db f id := by
    intro id
    unfold HasLabels
    cases f.labelMatchMode with
    | labelAll =>
      rw [if_pos rfl, decide_eq_true_eq]
      exact labelsOf_length_iff
    | labelAny =>
      rw [if_neg (by decide), Bool.not_eq_true', List.isEmpty_eq_false_iff_exists_mem]
      simp only [mem_labelsOf, List.mem_dedup]
  unfold labelRowsOf labelRows
  simp only [List.mem_map, List.mem_insertionSort, List.mem_filter, Bool.and_eq_true, decide_eq_true_eq, hfound,
    Option.all_eq_true, kindSelected, List.isEmpty_nil, Bool.true_or, and_true]
  constructor
  · rintro ⟨t, ⟨ht, huser, hlabels⟩, rfl⟩
    exact ⟨hlabels, t, ht, rfl, huser⟩
  · rintro ⟨hlabels, t, ht, rfl, huser⟩
    exact ⟨t, ⟨ht, huser, hlabels⟩, rfl⟩

/-! ## Limits -/

theorem fetchLimit_ok {backend : Backend} {limit : Int} {rows ids : List Int}
    (h : fetchLimit backend limit rows = .ok ids) :
    ids = (if limit < 0 then rows else rows.take limit.toNat) ∧ ids.length ≤ maxVecLen := by
  unfold fetchLimit at h
  split at h
  · cases h
  · dsimp only at h
    generalize (if limit < 0 then rows else rows.take limit.toNat) = fetched at h ⊢
    split at h
    · cases h
    next hlen =>
      obtain rfl := Except.ok.inj h
      exact ⟨rfl, Nat.not_lt.1 hlen⟩

/-- **A fetch that did not reach its limit read every row.** -/
theorem fetchLimit_all {backend : Backend} {limit : Int} {rows ids : List Int}
    (h : fetchLimit backend limit rows = .ok ids) (hroom : limit < 0 ∨ (ids.length : Int) < limit) : ids = rows := by
  obtain ⟨hids, -⟩ := fetchLimit_ok h
  split at hids
  · exact hids
  next hneg =>
    have hlt := hroom.resolve_left hneg
    rw [hids, List.length_take] at hlt
    rw [hids, List.take_of_length_le (by omega)]

theorem withinLimit_ok {limit : Int} {error : FilterError} {ids : List Int} {r : Option (List Int)}
    (h : withinLimit limit error ids = .ok r) : (ids.length : Int) ≤ limit ∧ r = some (SortedSet.ofList ids) := by
  unfold withinLimit at h
  split at h
  · cases h
  next hlimit => exact ⟨Int.not_lt.1 hlimit, (Except.ok.inj h).symm⟩

/-! ## Routes -/

/-- What a route contributes: the threads it selects, when it is populated. -/
inductive Route (populated : Prop) (P : Int → Prop) : Option (List Int) → Prop
  | skipped (h : ¬populated) : Route populated P none
  | taken (h : populated) {ids : List Int} (hnodup : ids.Nodup) (hmem : ∀ t, t ∈ ids ↔ P t) :
      Route populated P (some ids)

theorem Route.ofList {populated : Prop} {P : Int → Prop} {ids : List Int} (h : populated) (hmem : ∀ t, t ∈ ids ↔ P t) :
    Route populated P (some (SortedSet.ofList ids)) :=
  .taken h (SortedSet.nodup_ofList ids) fun t => by rw [SortedSet.mem_ofList, hmem]

/-- An unpopulated route takes no part. -/
theorem Route.mem_iff {populated : Prop} {P : Int → Prop} {r : Option (List Int)} (h : Route populated P r) (t : Int) :
    (∀ set, r = some set → t ∈ set) ↔ (populated → P t) := by
  cases h with
  | skipped h => exact ⟨fun _ hp => absurd hp h, fun _ set hset => nomatch hset⟩
  | taken h _ hmem =>
    refine ⟨fun hall _ => (hmem t).1 (hall _ rfl), fun hp set hset => ?_⟩
    rw [← Option.some.inj hset]
    exact (hmem t).2 (hp h)

theorem Route.eq_none_iff {populated : Prop} {P : Int → Prop} {r : Option (List Int)} (h : Route populated P r) :
    r = none ↔ ¬populated := by
  cases h with
  | skipped h => exact ⟨fun _ => h, fun _ => rfl⟩
  | taken h _ _ => exact ⟨fun hnone => (nomatch hnone), fun hn => absurd h hn⟩

theorem Route.nodup {populated : Prop} {P : Int → Prop} {set : List Int} (h : Route populated P (some set)) :
    set.Nodup := by
  cases h
  assumption

section Routes

variable {backend : Backend} {cfg : ThreadFilterConfig} {db : Database} {f : ThreadSearchFilter}

/-- The thread is among those that the label query may return. -/
def Reached (cfg : ThreadFilterConfig) (db : Database) (f : ThreadSearchFilter) (threadId : Int) : Prop :=
  f.labels = [] ∨ labelLimit cfg < 0 ∨ threadId ∈ (labelRowsOf db f).take (labelLimit cfg).toNat

theorem labelsSet_spec {r : Option (List Int)} (h : labelsSet backend cfg db f = .ok r) :
    Route (f.labels ≠ []) (fun t => t ∈ labelRowsOf db f ∧ Reached cfg db f t) r := by
  unfold labelsSet at h
  split at h
  next hempty =>
    obtain rfl := Except.ok.inj h
    exact .skipped fun hne => hne (List.isEmpty_iff.1 hempty)
  next hempty =>
    have hne : f.labels ≠ [] := fun hnil => hempty (List.isEmpty_iff.2 hnil)
    dsimp only at h
    obtain ⟨ids, hids, h⟩ := Except.bind_eq_ok.1 h
    obtain ⟨-, rfl⟩ := withinLimit_ok h
    unfold findThreadIdsByLabels at hids
    rw [if_neg hempty] at hids
    obtain ⟨rfl, -⟩ := fetchLimit_ok hids
    refine .ofList hne fun t => ?_
    unfold Reached
    split
    next hneg => exact ⟨fun ht => ⟨ht, .inr (.inl hneg)⟩, And.left⟩
    next hneg =>
      refine ⟨fun ht => ⟨List.mem_of_mem_take ht, .inr (.inr ht)⟩, fun ht => ?_⟩
      rcases ht.2 with hnil | hlimit | hmem
      · exact absurd hnil hne
      · exact absurd hlimit hneg
      · exact hmem

theorem otherSet_spec {r : Option (List Int)} (h : otherSet backend cfg db f = .ok r) :
    Route (needsOtherRoute f = true) (fun id => ∃ t ∈ db.threads, t.id = id ∧ MeetsColumns f t) r := by
  unfold otherSet at h
  split at h
  next hneeds =>
    obtain ⟨ids, hids, h⟩ := Except.bind_eq_ok.1 h
    obtain ⟨hlen, rfl⟩ := withinLimit_ok h
    unfold findThreadIdsByFilter at hids
    obtain ⟨-, hvec⟩ := fetchLimit_ok hids
    have hall := fetchLimit_all hids (.inr (by
      have : maxVecLen < 2 ^ 63 - 1 := by decide
      unfold saturatingSucc
      omega))
    refine .ofList hneeds fun id => ?_
    rw [hall]
    simp only [List.mem_map, List.mem_filter, filterSelects_iff]
    exact ⟨fun ⟨t, ⟨ht, hmeets⟩, hid⟩ => ⟨t, ht, hid, hmeets⟩, fun ⟨t, ht, hid, hmeets⟩ => ⟨t, ⟨ht, hmeets⟩, hid⟩⟩
  next hneeds =>
    obtain rfl := Except.ok.inj h
    exact .skipped hneeds

theorem threadSet_spec : Route (f.threadId ≠ none) (fun t => ∀ v ∈ f.threadId, t = v) (threadSet f) := by
  unfold threadSet
  cases hid : f.threadId with
  | none => exact .skipped fun h => h rfl
  | some id => exact .taken (by simp) (List.nodup_singleton id) fun t => by simp

theorem groupSet_spec {r : Option (List Int)} (h : groupSet backend cfg db f = .ok r) :
    Route (f.threadGroupId ≠ none) (fun t => ∀ g ∈ f.threadGroupId,
      ∃ m ∈ db.members, m.groupId = g ∧ m.isCurrent = true ∧ m.threadId = some t) r := by
  unfold groupSet at h
  split at h
  next hnone =>
    obtain rfl := Except.ok.inj h
    exact .skipped fun hne => hne hnone
  next groupId hgroup =>
    obtain ⟨ids, hids, h⟩ := Except.bind_eq_ok.1 h
    obtain ⟨hlen, rfl⟩ := withinLimit_ok h
    unfold findThreadIdsByGroupId at hids
    have hge := cfg.hardLimit_ge
    have hlt := cfg.hardLimit_lt
    -- The sum wraps for the largest limit alone, and then it is no limit at all.
    have hroom : (cfg.intermediateHardLimit + 1).bmod (2 ^ 64) < 0 ∨
        (ids.length : Int) < (cfg.intermediateHardLimit + 1).bmod (2 ^ 64) := by
      by_cases hmax : cfg.intermediateHardLimit = 2 ^ 63 - 1
      · left
        rw [hmax]
        decide
      · right
        rw [Int.bmod_eq_of_le (by omega) (by omega)]
        omega
    have hall := fetchLimit_all hids hroom
    refine .ofList (by rw [hgroup]; simp) fun t => ?_
    rw [hall, hgroup]
    simp only [List.mem_insertionSort, List.mem_filterMap, List.mem_filter, Bool.and_eq_true, decide_eq_true_eq,
      Option.mem_def, Option.some.injEq, forall_eq']
    exact ⟨fun ⟨m, ⟨hm, hg, hcur⟩, ht⟩ => ⟨m, hm, hg, hcur, ht⟩, fun ⟨m, hm, hg, hcur, ht⟩ => ⟨m, ⟨hm, hg, hcur⟩, ht⟩⟩

end Routes

/-! ## The intersection -/

theorem foldl_intersect_some : ∀ (sets : List (List Int)) (acc : List Int), acc.Nodup →
    ∃ ids, sets.foldl intersect (some acc) = some ids ∧ ids.Nodup ∧
      ∀ t, t ∈ ids ↔ t ∈ acc ∧ ∀ set ∈ sets, t ∈ set
  | [], acc, h => ⟨acc, rfl, h, fun t => by simp⟩
  | set :: sets, acc, h => by
    obtain ⟨ids, hfold, hnodup, hmem⟩ := foldl_intersect_some sets (acc.filter fun id => set.contains id) (h.filter _)
    refine ⟨ids, hfold, hnodup, fun t => ?_⟩
    rw [hmem, List.mem_filter, List.contains_iff_mem, List.forall_mem_cons, and_assoc]

/-- Nothing is resolved when no route is populated, else what all of them select. -/
theorem foldl_intersect (sets : List (List Int)) (h : ∀ set ∈ sets, set.Nodup) :
    (sets.foldl intersect none = none ↔ sets = []) ∧ ∀ ids, sets.foldl intersect none = some ids →
      ids.Nodup ∧ ∀ t, t ∈ ids ↔ ∀ set ∈ sets, t ∈ set := by
  match sets with
  | [] => exact ⟨⟨fun _ => rfl, fun _ => rfl⟩, fun ids hids => nomatch hids⟩
  | set :: sets =>
    obtain ⟨ids, hfold, hnodup, hmem⟩ := foldl_intersect_some sets set (h set List.mem_cons_self)
    have hfold : (set :: sets).foldl intersect none = some ids := hfold
    rw [hfold]
    refine ⟨⟨fun h => (nomatch h), fun h => (nomatch h)⟩, fun ids' hids' => ?_⟩
    obtain rfl := Option.some.inj hids'
    exact ⟨hnodup, fun t => by rw [hmem, List.forall_mem_cons]⟩

section Resolution

variable {backend : Backend} {cfg : ThreadFilterConfig} {db : Database} {f : ThreadSearchFilter} {order : HashOrder}

theorem otherThanUserId_eq_false_iff : otherThanUserId f = false ↔ f.channel = none ∧ f.threadCreatedAfter = none ∧
    f.threadCreatedBefore = none ∧ f.threadUpdatedAfter = none ∧ f.threadUpdatedBefore = none ∧
    f.firstMessageAfter = none ∧ f.firstMessageBefore = none ∧ f.lastMessageAfter = none ∧
    f.lastMessageBefore = none ∧ f.memoryKinds = [] := by
  unfold otherThanUserId
  simp only [Bool.or_eq_false_iff, Option.isSome_eq_false_iff, Option.isNone_iff_eq_none, Bool.not_eq_false',
    List.isEmpty_iff, and_assoc]

/-- Without other conditions, the columns are about the user. -/
theorem meetsColumns_of_user {t : ThreadRow} (h : otherThanUserId f = false) (huser : ∀ v ∈ f.userId, t.userId = v) :
    MeetsColumns f t := by
  obtain ⟨h1, h2, h3, h4, h5, h6, h7, h8, h9, h10⟩ := otherThanUserId_eq_false_iff.1 h
  refine ⟨huser, ?_, ?_, ?_, ?_, ?_, ?_, ?_, ?_, ?_, fun hne => absurd h10 hne⟩
  all_goals
    intro v hv
    simp_all

theorem noCondition_iff : NoCondition f ↔
    f.labels = [] ∧ hasNonLabelFilters f = false ∧ f.threadId = none ∧ f.threadGroupId = none := by
  unfold NoCondition hasNonLabelFilters
  rw [Bool.or_eq_false_iff, Option.isSome_eq_false_iff, Option.isNone_iff_eq_none, otherThanUserId_eq_false_iff]
  constructor
  · intro h
    rw [h]
    simp
  · rintro ⟨h1, ⟨h2, h3, h4, h5, h6, h7, h8, h9, h10, h11, h12⟩, h13, h14⟩
    cases f
    simp_all

/-- **The threads of a resolution**: none when no condition is set, else the selected
threads that the label query reaches. -/
theorem resolveThreads_spec {r : Option (List Int)} (h : resolveThreads backend cfg db f = .ok r) :
    (r = none ↔ NoCondition f) ∧
      ∀ ids, r = some ids → ids.Nodup ∧ ∀ t, t ∈ ids ↔ Selects db f t ∧ Reached cfg db f t := by
  unfold resolveThreads at h
  obtain ⟨labels, hlabels, h⟩ := Except.bind_eq_ok.1 h
  obtain ⟨other, hother, h⟩ := Except.bind_eq_ok.1 h
  obtain ⟨group, hgroup, h⟩ := Except.bind_eq_ok.1 h
  obtain rfl := Except.ok.inj h
  have hlabels := labelsSet_spec hlabels
  have hother := otherSet_spec hother
  have hgroup := groupSet_spec hgroup
  have hthread := threadSet_spec (f := f)
  generalize threadSet f = thread at hthread
  have hnodup : ∀ set ∈ [labels, other, thread, group].reduceOption, set.Nodup := by
    intro set hset
    rw [List.reduceOption_mem_iff] at hset
    simp only [List.mem_cons, List.not_mem_nil, or_false] at hset
    rcases hset with rfl | rfl | rfl | rfl
    · exact hlabels.nodup
    · exact hother.nodup
    · exact hthread.nodup
    · exact hgroup.nodup
  obtain ⟨hnone, hsome⟩ := foldl_intersect _ hnodup
  refine ⟨?_, fun ids hids => ?_⟩
  · rw [hnone, noCondition_iff]
    have hempty : [labels, other, thread, group].reduceOption = [] ↔
        labels = none ∧ other = none ∧ thread = none ∧ group = none := by
      cases labels <;> cases other <;> cases thread <;> cases group <;> simp [List.reduceOption]
    rw [hempty, hlabels.eq_none_iff, hother.eq_none_iff, hthread.eq_none_iff, hgroup.eq_none_iff, not_not, not_not,
      not_not, Bool.not_eq_true]
    refine ⟨fun ⟨h1, h2, h3, h4⟩ => ⟨h1, ?_, h3, h4⟩, fun ⟨h1, h2, h3, h4⟩ => ⟨h1, ?_, h3, h4⟩⟩
    · unfold needsOtherRoute at h2
      rw [h1] at h2
      exact h2
    · unfold needsOtherRoute
      rw [h1]
      exact h2
  · obtain ⟨hids, hmem⟩ := hsome ids hids
    refine ⟨hids, fun t => ?_⟩
    have hsets : (∀ set ∈ [labels, other, thread, group].reduceOption, t ∈ set) ↔
        ((∀ set, labels = some set → t ∈ set) ∧ (∀ set, other = some set → t ∈ set) ∧
          (∀ set, thread = some set → t ∈ set) ∧ ∀ set, group = some set → t ∈ set) := by
      simp only [List.reduceOption_mem_iff, List.mem_cons, List.not_mem_nil, or_false, or_imp, forall_and,
        eq_comm (a := some _)]
    rw [hmem, hsets, hlabels.mem_iff, hother.mem_iff, hthread.mem_iff, hgroup.mem_iff]
    constructor
    · rintro ⟨h1, h2, h3, h4⟩
      refine ⟨⟨fun hrow => ?_, fun hne => (mem_labelRowsOf.1 (h1 hne).1).1, fun v hv => h3 (by rw [hv]; simp) v hv,
        fun g hg => h4 (by rw [hg]; simp) g hg⟩, ?_⟩
      · by_cases hneeds : needsOtherRoute f = true
        · exact h2 hneeds
        · have hne : f.labels ≠ [] := by
            intro hnil
            unfold needsOtherRoute at hneeds
            rw [hnil] at hneeds hrow
            rcases hrow with hrow | hrow
            · exact hrow rfl
            · exact hneeds hrow
          have hother : otherThanUserId f = false := by
            unfold needsOtherRoute at hneeds
            rw [if_pos (by simpa using hne)] at hneeds
            exact Bool.not_eq_true _ ▸ hneeds
          obtain ⟨-, row, hrow, hid, huser⟩ := mem_labelRowsOf.1 (h1 hne).1
          exact ⟨row, hrow, hid, meetsColumns_of_user hother huser⟩
      · by_cases hnil : f.labels = []
        · exact .inl hnil
        · exact (h1 hnil).2
    · rintro ⟨hsel, hreached⟩
      refine ⟨fun hne => ⟨?_, hreached⟩, fun hneeds => hsel.row ?_, fun _ => hsel.threadId, fun _ => hsel.threadGroupId⟩
      · obtain ⟨row, hrow, hid, hmeets⟩ := hsel.row (.inl hne)
        exact mem_labelRowsOf.2 ⟨hsel.labels hne, row, hrow, hid, hmeets.userId⟩
      · by_cases hnil : f.labels = []
        · unfold needsOtherRoute at hneeds
          rw [hnil] at hneeds
          exact .inr hneeds
        · exact .inl hnil

/-! ## The memories -/

theorem mem_memoryIdRows {threadIds : List Int} {m : Int} :
    m ∈ memoryIdRows db threadIds ↔ ∃ t ∈ threadIds, ⟨t, m⟩ ∈ db.threadMemories := by
  unfold memoryIdRows
  simp only [List.mem_dedup, List.mem_map, List.mem_filter, List.contains_iff_mem]
  constructor
  · rintro ⟨row, ⟨hrow, ht⟩, rfl⟩
    exact ⟨row.threadId, ht, hrow⟩
  · rintro ⟨t, ht, hrow⟩
    exact ⟨_, ⟨hrow, ht⟩, rfl⟩

/-- The loop reads every chunk whole, or ends with more than `max` memories. -/
theorem collectMemoryIds_all {limit : Int} {max : Nat}
    (hlimit : limit < 0 ∨ ∀ n : Nat, n ≤ max → n ≤ maxVecLen → (n : Int) < limit) :
    ∀ {chunks : List (List Int)} {seen ids : List Int}, collectMemoryIds backend db limit max chunks seen = .ok ids →
      ids.length ≤ max → ∀ m, m ∈ ids ↔ m ∈ seen ∨ ∃ chunk ∈ chunks, m ∈ memoryIdRows db chunk
  | [], seen, ids, h, _, m => by
    obtain rfl := Except.ok.inj h
    simp
  | chunk :: chunks, seen, ids, h, hlen, m => by
    unfold collectMemoryIds at h
    obtain ⟨rows, hrows, h⟩ := Except.bind_eq_ok.1 h
    dsimp only at h
    split at h
    next hover =>
      obtain rfl := Except.ok.inj h
      omega
    next hwithin =>
      obtain ⟨htake, hvec⟩ := fetchLimit_ok hrows
      have hnodup : rows.Nodup := by
        have hdistinct : (memoryIdRows db chunk).Nodup := List.nodup_dedup _
        rw [htake]
        split
        · exact hdistinct
        · exact hdistinct.sublist (List.take_sublist _ _)
      have hsub : rows ⊆ SortedSet.ofList (seen ++ rows) := fun x hx =>
        SortedSet.mem_ofList.2 (List.mem_append_right _ hx)
      have hle := (List.subperm_of_subset hnodup hsub).length_le
      obtain rfl := fetchLimit_all hrows (hlimit.imp_right fun h => h _ (by omega) hvec)
      rw [collectMemoryIds_all hlimit h hlen, SortedSet.mem_ofList, List.mem_append, List.exists_mem_cons_iff, or_assoc]

theorem collectMemoryIds_none {max : Nat} : ∀ {chunks : List (List Int)} {seen ids : List Int},
    collectMemoryIds backend db 0 max chunks seen = .ok ids → ∀ m, m ∈ ids ↔ m ∈ seen
  | [], seen, ids, h, m => by
    obtain rfl := Except.ok.inj h
    rfl
  | chunk :: chunks, seen, ids, h, m => by
    unfold collectMemoryIds at h
    obtain ⟨rows, hrows, h⟩ := Except.bind_eq_ok.1 h
    have hnil : rows = [] := (fetchLimit_ok hrows).1
    subst hnil
    have hsame : m ∈ SortedSet.ofList (seen ++ []) ↔ m ∈ seen := by rw [SortedSet.mem_ofList, List.append_nil]
    dsimp only at h
    split at h
    · obtain rfl := Except.ok.inj h
      exact hsame
    · rw [collectMemoryIds_none h, hsame]

/-- `usize::MAX` -/
def usizeMax : Nat := 2 ^ 64 - 1

/-- The limit on one chunk is one more than the cap, or none, or else zero. -/
theorem perChunkLimit_cases {max : Nat} (h : max < 2 ^ 64) :
    max = usizeMax ∧ saturatingSucc (asI64 max) = 0 ∨
      max ≠ usizeMax ∧ (saturatingSucc (asI64 max) < 0 ∨
        ∀ n : Nat, n ≤ max → n ≤ maxVecLen → (n : Int) < saturatingSucc (asI64 max)) := by
  by_cases hmax : max = usizeMax
  · left
    subst hmax
    exact ⟨rfl, by decide⟩
  · refine .inr ⟨hmax, ?_⟩
    have hvec : maxVecLen < 2 ^ 63 - 1 := by decide
    unfold usizeMax at hmax
    by_cases hbig : max < 2 ^ 63
    · right
      intro n hn hlen
      unfold saturatingSucc asI64
      rw [Int.bmod_eq_of_le (by omega) (by omega)]
      omega
    · left
      unfold saturatingSucc asI64
      have hwrap : ((max : Int)).bmod (2 ^ 64) = max - 2 ^ 64 := by
        rw [← Int.sub_bmod_right, Int.bmod_eq_of_le (by omega) (by omega)]
        norm_num
      rw [hwrap]
      omega

/-- The memory is attached to the thread. -/
def Attached (db : Database) (threadId memoryId : Int) : Prop := ⟨threadId, memoryId⟩ ∈ db.threadMemories

theorem resolvedMemoryIds_spec {resolved ids : List Int}
    (h : resolvedMemoryIds backend cfg db order resolved = .ok ids) :
    ids.Nodup ∧ ∀ m, m ∈ ids ↔ cfg.ftsMaxTotalIds ≠ usizeMax ∧ ∃ t ∈ resolved, Attached db t m := by
  unfold resolvedMemoryIds at h
  split at h
  · cases h
  · split at h
    next hempty =>
      obtain rfl := Except.ok.inj h
      rw [List.isEmpty_iff.1 hempty]
      exact ⟨.nil, fun m => by simp⟩
    · obtain ⟨memoryIds, hmem, h⟩ := Except.bind_eq_ok.1 h
      split at h
      · cases h
      next hcap =>
        obtain rfl := Except.ok.inj h
        refine ⟨SortedSet.nodup_ofList _, fun m => ?_⟩
        rw [SortedSet.mem_ofList, order.mem_arrange]
        unfold findMemoryIdsByThreadIds at hmem
        split at hmem
        next hempty =>
          obtain rfl := Except.ok.inj hmem
          refine ⟨fun hm => absurd hm List.not_mem_nil, fun ⟨_, t, ht, _⟩ => ?_⟩
          rw [← order.mem_arrange, List.isEmpty_iff.1 hempty] at ht
          exact absurd ht List.not_mem_nil
        · rcases perChunkLimit_cases cfg.maxTotal_lt with ⟨hmax, hzero⟩ | ⟨hmax, hlimit⟩
          · rw [hzero] at hmem
            rw [collectMemoryIds_none hmem]
            simp [hmax]
          · rw [collectMemoryIds_all hlimit hmem (Nat.not_lt.1 hcap)]
            have hchunks : (∃ chunk ∈ (order.arrange resolved).toChunks threadIdInChunkSize,
                m ∈ memoryIdRows db chunk) ↔ ∃ t ∈ resolved, Attached db t m := by
              simp only [mem_memoryIdRows]
              constructor
              · rintro ⟨chunk, hchunk, t, ht, hrow⟩
                refine ⟨t, order.mem_arrange.1 ?_, hrow⟩
                rw [← List.flatten_toChunks threadIdInChunkSize (order.arrange resolved)]
                exact List.mem_flatten.2 ⟨chunk, hchunk, ht⟩
              · rintro ⟨t, ht, hrow⟩
                have ht := order.mem_arrange.2 ht
                rw [← List.flatten_toChunks threadIdInChunkSize (order.arrange resolved)] at ht
                obtain ⟨chunk, hchunk, ht⟩ := List.mem_flatten.1 ht
                exact ⟨chunk, hchunk, t, ht, hrow⟩
            rw [hchunks, and_iff_right hmax]
            simp only [List.not_mem_nil, false_or]

/-! ## Resolution -/

/-- The memories of the selected threads, each once. -/
structure ExactMemories (db : Database) (f : ThreadSearchFilter) (ids : List Int) : Prop where
  nodup : ids.Nodup
  mem : ∀ m, m ∈ ids ↔ ∃ t, Selects db f t ∧ Attached db t m

/-- **No limit loses a memory**: the cap on memories is not `usize::MAX`, and each
memory is attached to a selected thread that the label query reaches. -/
def NothingLost (cfg : ThreadFilterConfig) (db : Database) (f : ThreadSearchFilter) : Prop :=
  ∀ t m, Selects db f t → Attached db t m →
    cfg.ftsMaxTotalIds ≠ usizeMax ∧ ∃ t', Selects db f t' ∧ Reached cfg db f t' ∧ Attached db t' m

theorem resolve_some {ids : List Int} (h : resolveMemoryIdsFromThreadFilter backend cfg db f order = .ok (some ids)) :
    ∃ resolved, resolveThreads backend cfg db f = .ok (some resolved) ∧
      resolvedMemoryIds backend cfg db order resolved = .ok ids := by
  unfold resolveMemoryIdsFromThreadFilter at h
  obtain ⟨r, hr, h⟩ := Except.bind_eq_ok.1 h
  cases r with
  | none => cases h
  | some resolved =>
    refine ⟨resolved, hr, ?_⟩
    dsimp only at h
    cases hids : resolvedMemoryIds backend cfg db order resolved with
    | error e =>
      rw [hids] at h
      cases h
    | ok ids' =>
      rw [hids] at h
      obtain rfl := Option.some.inj (Except.ok.inj h)
      rfl

/-- Without a condition no query runs. -/
theorem resolve_none (h : NoCondition f) : resolveMemoryIdsFromThreadFilter backend cfg db f order = .ok none := by
  obtain ⟨hlabels, hother, hthread, hgroup⟩ := noCondition_iff.1 h
  have h1 : labelsSet backend cfg db f = .ok none := by
    unfold labelsSet
    rw [hlabels]
    rfl
  have h2 : otherSet backend cfg db f = .ok none := by
    unfold otherSet needsOtherRoute
    rw [hlabels, hother]
    rfl
  have h3 : groupSet backend cfg db f = .ok none := by
    unfold groupSet
    rw [hgroup]
  have h4 : threadSet f = none := by
    unfold threadSet
    rw [hthread]
    rfl
  unfold resolveMemoryIdsFromThreadFilter resolveThreads
  rw [h1, h2, h3, h4]
  rfl

end Resolution

/-- **A resolved filter is exact unless a limit loses a memory.** -/
theorem resolution_exact_iff (backend : Backend) (cfg : ThreadFilterConfig) (db : Database) (f : ThreadSearchFilter)
    (order : HashOrder) :
    (resolveMemoryIdsFromThreadFilter backend cfg db f order = .ok none ↔ NoCondition f) ∧
      ∀ ids, resolveMemoryIdsFromThreadFilter backend cfg db f order = .ok (some ids) →
        (ExactMemories db f ids ↔ NothingLost cfg db f) := by
  refine ⟨⟨fun h => ?_, resolve_none⟩, fun ids h => ?_⟩
  · unfold resolveMemoryIdsFromThreadFilter at h
    obtain ⟨r, hr, h⟩ := Except.bind_eq_ok.1 h
    cases r with
    | none => exact (resolveThreads_spec hr).1.1 rfl
    | some resolved =>
      dsimp only at h
      cases hids : resolvedMemoryIds backend cfg db order resolved with
      | error e =>
        rw [hids] at h
        cases h
      | ok ids =>
        rw [hids] at h
        cases h
  · obtain ⟨resolved, hresolved, hids⟩ := resolve_some h
    obtain ⟨-, hthreads⟩ := (resolveThreads_spec hresolved).2 resolved rfl
    obtain ⟨hnodup, hmem⟩ := resolvedMemoryIds_spec hids
    constructor
    · intro hexact t m hsel hatt
      obtain ⟨hmax, t', ht', hatt'⟩ := (hmem m).1 ((hexact.mem m).2 ⟨t, hsel, hatt⟩)
      obtain ⟨hsel', hreached⟩ := (hthreads t').1 ht'
      exact ⟨hmax, t', hsel', hreached, hatt'⟩
    · intro hlost
      refine ⟨hnodup, fun m => (hmem m).trans ⟨?_, ?_⟩⟩
      · rintro ⟨-, t, ht, hatt⟩
        exact ⟨t, ((hthreads t).1 ht).1, hatt⟩
      · rintro ⟨t, hsel, hatt⟩
        obtain ⟨hmax, t', hsel', hreached, hatt'⟩ := hlost t m hsel hatt
        exact ⟨hmax, t', (hthreads t').2 ⟨hsel', hreached⟩, hatt'⟩

/-! ## A limit that wraps -/

/-- Two threads under one label, each with a memory. -/
def labelledTwice : Database where
  threads := [⟨1, 5, none, 0, 0, some 10, some 10, none⟩, ⟨2, 5, none, 0, 0, some 20, some 20, none⟩]
  labels := [⟨1, "work"⟩, ⟨2, "work"⟩]
  members := []
  threadMemories := [⟨1, 11⟩, ⟨2, 22⟩]
  threads_nodup := by decide

/-- A limit of 2^32 is a limit of one row in the label query. -/
def wrappedLimit : ThreadFilterConfig := ⟨2 ^ 32, 100000, 50000, by decide, by decide, by decide⟩

/-- The older thread's memory is left out. -/
theorem wrapped_limit_hides_memory :
    resolveMemoryIdsFromThreadFilter .sqlite wrappedLimit labelledTwice { labels := ["work"] } MemorySearch.ascending =
        .ok (some [22]) ∧
      ¬ExactMemories labelledTwice { labels := ["work"] } [22] := by
  refine ⟨by decide +kernel, fun h => ?_⟩
  have hsel : Selects labelledTwice { labels := ["work"] } 1 := by
    refine ⟨fun _ => ⟨⟨1, 5, none, 0, 0, some 10, some 10, none⟩, by decide, rfl, ?_⟩, fun _ => ?_, nofun, nofun⟩
    · exact meetsColumns_of_user rfl nofun
    · exact ⟨"work", by decide, by decide⟩
  have hmem := (h.mem 11).2 ⟨1, hsel, by unfold Attached; decide⟩
  revert hmem
  decide

end MemoryStore.ThreadFilter
