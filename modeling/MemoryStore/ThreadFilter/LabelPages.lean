/-
Searching threads by labels (`find_threads_by_labels` of `app/src/app/thread.rs`).
Without a filter and in the default order the query cuts the page; otherwise the
candidates are fetched up to a cap, and filtered, sorted and cut in process. The
two ways agree on a page of a given size, but without a limit the query cuts after
100 rows and the process does not cut at all.
-/
import MemoryStore.Lib.Fallible
import MemoryStore.ThreadFilter.Browse

namespace MemoryStore.ThreadFilter

/-! ## Threads and options -/

/-- `Thread`, with its labels. -/
structure Thread where
  id : Int
  data : ThreadData
  labels : List String

inductive ThreadSort where
  | lastMessageDesc | updatedDesc | updatedAsc | createdDesc | createdAsc | idDesc
  deriving DecidableEq, Repr

structure ThreadListOptions where
  createdAfter : Option Int := none
  createdBefore : Option Int := none
  updatedAfter : Option Int := none
  updatedBefore : Option Int := none
  firstMessageAfter : Option Int := none
  firstMessageBefore : Option Int := none
  lastMessageAfter : Option Int := none
  lastMessageBefore : Option Int := none
  sort : ThreadSort := .lastMessageDesc
  memoryKinds : List Int := []

namespace ThreadListOptions

/-- `has_time_filter` -/
def hasTimeFilter (opts : ThreadListOptions) : Bool :=
  opts.createdAfter.isSome || opts.createdBefore.isSome || opts.updatedAfter.isSome || opts.updatedBefore.isSome ||
    opts.firstMessageAfter.isSome || opts.firstMessageBefore.isSome || opts.lastMessageAfter.isSome ||
    opts.lastMessageBefore.isSome

/-- `has_memory_kind_filter` -/
def hasMemoryKindFilter (opts : ThreadListOptions) : Bool := !opts.memoryKinds.isEmpty

/-- `matches_memory_kind` -/
def matchesMemoryKind (opts : ThreadListOptions) (thread : Thread) : Bool :=
  if !opts.hasMemoryKindFilter then true
  else
    let effectiveKind := if thread.data.memoryKind = 0 then rawKind else thread.data.memoryKind
    opts.memoryKinds.contains effectiveKind

/-- `matches_time_range` -/
def matchesTimeRange (opts : ThreadListOptions) (thread : Thread) : Bool :=
  let d := thread.data
  !(opts.createdAfter.any (fun after => d.createdAt ≤ after) ||
    opts.firstMessageAfter.any (fun after => d.firstMessageAt.all fun value => value ≤ after) ||
    opts.firstMessageBefore.any (fun before => d.firstMessageAt.all fun value => before < value) ||
    opts.lastMessageAfter.any (fun after => d.lastMessageAt.all fun value => value ≤ after) ||
    opts.lastMessageBefore.any (fun before => d.lastMessageAt.all fun value => before < value) ||
    opts.createdBefore.any (fun before => before < d.createdAt) ||
    opts.updatedAfter.any (fun after => d.updatedAt ≤ after) ||
    opts.updatedBefore.any (fun before => before < d.updatedAt))

end ThreadListOptions

/-- The order of `sort_threads_in_place`: by a time, then by id. -/
def sortsBefore (sort : ThreadSort) (a b : Thread) : Bool :=
  match sort with
  | .lastMessageDesc =>
    match a.data.lastMessageAt, b.data.lastMessageAt with
    | some x, some y => y < x || x = y && b.id ≤ a.id
    | some _, none => true
    | none, some _ => false
    | none, none => b.id ≤ a.id
  | .updatedDesc => b.data.updatedAt < a.data.updatedAt || a.data.updatedAt = b.data.updatedAt && b.id ≤ a.id
  | .updatedAsc => a.data.updatedAt < b.data.updatedAt || a.data.updatedAt = b.data.updatedAt && a.id ≤ b.id
  | .createdDesc => b.data.createdAt < a.data.createdAt || a.data.createdAt = b.data.createdAt && b.id ≤ a.id
  | .createdAsc => a.data.createdAt < b.data.createdAt || a.data.createdAt = b.data.createdAt && a.id ≤ b.id
  | .idDesc => b.id ≤ a.id

/-- `sort_threads_in_place` -/
def sortThreadsInPlace (threads : List Thread) (sort : ThreadSort) : List Thread :=
  threads.insertionSort fun a b => sortsBefore sort a b

/-! ## Queries -/

inductive LabelSearchError where
  | candidatesExceeded (cap : Int)
  | negativeLimit
  | negativeOffset
  deriving DecidableEq, Repr

/-- The text of the `FailedPrecondition`, or of the failing query. -/
def LabelSearchError.message : LabelSearchError → String
  | .candidatesExceeded cap => "find_threads_by_labels candidate set exceeded " ++
      s!"MEMORY_THREAD_FILTER_INTERMEDIATE_HARD_LIMIT ({cap}). " ++
      "Tighten the label set or remove the time-range / sort options to use the SQL fast path."
  | .negativeLimit => "LIMIT must not be negative"
  | .negativeOffset => "OFFSET must not be negative"

/-- `LIMIT limit OFFSET offset`: SQLite reads a negative limit as none and a negative offset as 0. -/
def fetchPage (backend : Backend) (limit offset : Int) (rows : List Int) : Except LabelSearchError (List Int) :=
  if limit < 0 ∧ backend = .postgres then .error .negativeLimit
  else if offset < 0 ∧ backend = .postgres then .error .negativeOffset
  else
    let rows := rows.drop offset.toNat
    .ok (if limit < 0 then rows else rows.take limit.toNat)

/-- `find_thread_ids_by_labels_and_memory_kinds` -/
def findThreadIdsByLabelsAndMemoryKinds (backend : Backend) (db : Database) (labels : List String) (matchAll : Bool)
    (userId : Option Int) (memoryKinds : List Int) (limit offset : Option Int) : Except LabelSearchError (List Int) :=
  if labels.isEmpty then .ok []
  else fetchPage backend (limit.getD 100) (offset.getD 0) (labelRows db labels matchAll userId memoryKinds)

/-- The labels of a thread among the rows of `find_labels_by_thread_ids`, which come by thread and label. -/
def labelsAmong (rows : List ThreadLabelRow) (id : Int) : List String :=
  ((rows.filter fun row => row.threadId = id).map ThreadLabelRow.label).insertionSort (· ≤ ·)

/-- The threads of a list of ids, in its order, with their labels. -/
def readThreads (db : Database) (ids : List Int) : List Thread :=
  let threads := findByIds db ids
  let labelRows := findLabelsByThreadIds db ids
  ids.filterMap fun id => (threads.lookup id).map fun data => ⟨id, data, labelsAmong labelRows id⟩

/-- The final window of the threads. -/
def window (limit offset : Option Int) (result : List Thread) : List Thread :=
  let start := (offset.getD 0).toNat
  if result.length ≤ start then []
  else
    let stop := match limit with
      | some l => min (start + l.toNat) result.length
      | none => result.length
    (result.take stop).drop start

/-- `i32::MAX` -/
def i32Max : Int := 2 ^ 31 - 1

/-- `find_threads_by_labels` -/
def findThreadsByLabels (backend : Backend) (cfg : ThreadFilterConfig) (db : Database) (labels : List String)
    (matchAll : Bool) (userId : Option Int) (limit offset : Option Int) (opts : ThreadListOptions) :
    Except LabelSearchError (List Thread) :=
  let needsPostProcessing := opts.hasTimeFilter || opts.hasMemoryKindFilter || opts.sort ≠ .lastMessageDesc
  if needsPostProcessing then do
    let cap := cfg.intermediateHardLimit
    let fetchLimit := (min (saturatingSucc cap) i32Max).bmod (2 ^ 32)
    let ids ← findThreadIdsByLabelsAndMemoryKinds backend db labels matchAll userId opts.memoryKinds (some fetchLimit) none
    if cap < ids.length then throw (.candidatesExceeded cap)
    let result := readThreads db ids
    let result := if opts.hasTimeFilter then result.filter opts.matchesTimeRange else result
    let result := if opts.hasMemoryKindFilter then result.filter opts.matchesMemoryKind else result
    pure (window limit offset (sortThreadsInPlace result opts.sort))
  else do
    let ids ← findThreadIdsByLabelsAndMemoryKinds backend db labels matchAll userId [] limit offset
    pure (readThreads db ids)

/-! ## Orders -/

theorem sortsBefore_total (sort : ThreadSort) (a b : Thread) :
    sortsBefore sort a b = true ∨ sortsBefore sort b a = true := by
  cases sort with
  | lastMessageDesc =>
    unfold sortsBefore
    cases a.data.lastMessageAt <;> cases b.data.lastMessageAt <;> simp <;> omega
  | _ => simp only [sortsBefore, Bool.or_eq_true, Bool.and_eq_true, decide_eq_true_eq]; omega

theorem sortsBefore_trans (sort : ThreadSort) {a b c : Thread} (hab : sortsBefore sort a b = true)
    (hbc : sortsBefore sort b c = true) : sortsBefore sort a c = true := by
  cases sort with
  | lastMessageDesc =>
    unfold sortsBefore at hab hbc ⊢
    cases ha : a.data.lastMessageAt <;> cases hb : b.data.lastMessageAt <;> cases hc : c.data.lastMessageAt <;>
      simp [ha, hb, hc] at hab hbc ⊢ <;> omega
  | _ =>
    simp only [sortsBefore, Bool.or_eq_true, Bool.and_eq_true, decide_eq_true_eq] at hab hbc ⊢
    omega

instance (sort : ThreadSort) : Std.Total fun a b => sortsBefore sort a b = true := ⟨sortsBefore_total sort⟩

instance (sort : ThreadSort) : IsTrans Thread fun a b => sortsBefore sort a b = true :=
  ⟨fun _ _ _ => sortsBefore_trans sort⟩

/-! ## Threads read -/

/-- The thread of a row. -/
def Database.thread (db : Database) (t : ThreadRow) : Thread := ⟨t.id, t.toProto, labelsAmong db.labels t.id⟩

theorem lookup_eq_some {κ β : Type} [BEq κ] [LawfulBEq κ] {k : κ} {b : β} : ∀ {entries : List (κ × β)},
    (∀ e ∈ entries, e.1 = k → e.2 = b) → (k, b) ∈ entries → entries.lookup k = some b
  | (k', b') :: entries, h, hmem => by
    rw [List.lookup_cons]
    by_cases hk : k = k'
    · subst hk
      rw [beq_self_eq_true]
      exact congrArg some (h _ List.mem_cons_self rfl)
    · rw [beq_false_of_ne hk]
      refine lookup_eq_some (fun e he => h e (List.mem_cons_of_mem _ he)) ?_
      rcases List.mem_cons.1 hmem with heq | hmem
      · exact absurd (congrArg Prod.fst heq) hk
      · exact hmem

/-- The rows read in pieces for distinct keys: those of one key are all its rows, once. -/
theorem filter_flatMap_pieces {ρ κ : Type} [DecidableEq κ] (key : ρ → κ) (rows : List ρ) (k : κ) :
    ∀ {pieces : List (List κ)}, pieces.flatten.Nodup → k ∈ pieces.flatten →
      (pieces.flatMap fun piece => rows.filter fun row => piece.contains (key row)).filter (fun row => key row = k) =
        rows.filter fun row => key row = k
  | [], _, hk => absurd hk List.not_mem_nil
  | piece :: pieces, hn, hk => by
    rw [List.flatten_cons, List.nodup_append] at hn
    rw [List.flatMap_cons, List.filter_append, List.filter_filter]
    by_cases hpiece : k ∈ piece
    · have hrest : (pieces.flatMap fun piece => rows.filter fun row => piece.contains (key row)).filter
          (fun row => key row = k) = [] := by
        rw [List.filter_eq_nil_iff]
        intro row hrow
        obtain ⟨other, hother, hrow⟩ := List.mem_flatMap.1 hrow
        have hcontains := (List.mem_filter.1 hrow).2
        simp only [decide_eq_true_eq]
        intro heq
        rw [heq, List.contains_iff_mem] at hcontains
        exact hn.2.2 k hpiece k (List.mem_flatten.2 ⟨other, hother, hcontains⟩) rfl
      rw [hrest, List.append_nil]
      refine List.filter_congr fun row _ => ?_
      by_cases heq : key row = k
      · simp [heq, hpiece]
      · simp [heq]
    · have hnone : rows.filter (fun row => decide (key row = k) && piece.contains (key row)) = [] := by
        rw [List.filter_eq_nil_iff]
        intro row _
        simp only [Bool.and_eq_true, decide_eq_true_eq, List.contains_iff_mem, not_and]
        exact fun heq => heq ▸ hpiece
      rw [hnone, List.nil_append]
      refine filter_flatMap_pieces key rows k hn.2.1 ?_
      rw [List.flatten_cons] at hk
      exact (List.mem_append.1 hk).resolve_left hpiece

theorem labelsAmong_findLabels {db : Database} {ids : List Int} {id : Int} (hn : ids.Nodup) (hid : id ∈ ids) :
    labelsAmong (findLabelsByThreadIds db ids) id = labelsAmong db.labels id := by
  unfold labelsAmong findLabelsByThreadIds
  rw [filter_flatMap_pieces ThreadLabelRow.threadId db.labels id (by rwa [List.flatten_toChunks])
    (by rwa [List.flatten_toChunks])]

/-- The threads read for the ids of rows are the threads of the rows. -/
theorem readThreads_map {db : Database} {rows : List ThreadRow} (hrows : ∀ t ∈ rows, t ∈ db.threads)
    (hn : (rows.map ThreadRow.id).Nodup) : readThreads db (rows.map ThreadRow.id) = rows.map db.thread := by
  unfold readThreads
  dsimp only
  have hmap : rows.map db.thread = rows.filterMap (some ∘ db.thread) := by rw [List.filterMap_eq_map]
  rw [List.filterMap_map, hmap]
  refine List.filterMap_congr fun t ht => ?_
  have hid : t.id ∈ rows.map ThreadRow.id := List.mem_map_of_mem ht
  have hlookup : (findByIds db (rows.map ThreadRow.id)).lookup t.id = some t.toProto := by
    refine lookup_eq_some (fun e he heq => ?_) (mem_findByIds.2 ⟨t, hrows t ht, hid, rfl⟩)
    obtain ⟨t', ht', -, rfl⟩ := mem_findByIds.1 he
    rw [row_unique ht' (hrows t ht) heq]
  simp only [Function.comp_apply, hlookup, Option.map_some, labelsAmong_findLabels hn hid]
  rfl

/-! ## Candidates -/

/-- The threads that carry the labels, by the most recent message. -/
def candidates (db : Database) (labels : List String) (matchAll : Bool) (userId : Option Int) (memoryKinds : List Int) :
    List ThreadRow :=
  if labels.isEmpty then []
  else
    (db.threads.filter fun t =>
      let found := labelsOf db labels.dedup t.id
      userId.all (fun v => t.userId = v) && kindSelected memoryKinds t.memoryKind &&
        (if matchAll then found.length = labels.dedup.length else !found.isEmpty)).insertionSort
      fun a b => recentFirst a b

/-- A list of labels asks for something: for one of the labels, or for all of them. -/
def Carries (db : Database) (labels : List String) (matchAll : Bool) (t : ThreadRow) : Prop :=
  labels ≠ [] ∧
    if matchAll then ∀ label ∈ labels, ⟨t.id, label⟩ ∈ db.labels else ∃ label ∈ labels, ⟨t.id, label⟩ ∈ db.labels

variable {backend : Backend} {cfg : ThreadFilterConfig} {db : Database} {labels : List String} {matchAll : Bool}
  {userId : Option Int}

theorem mem_candidates {memoryKinds : List Int} {t : ThreadRow} :
    t ∈ candidates db labels matchAll userId memoryKinds ↔
      t ∈ db.threads ∧ Carries db labels matchAll t ∧ (∀ v ∈ userId, t.userId = v) ∧
        kindSelected memoryKinds t.memoryKind = true := by
  unfold candidates Carries
  by_cases hempty : labels = []
  · simp [hempty]
  · have hfound : (if matchAll = true then
          decide ((labelsOf db labels.dedup t.id).length = labels.dedup.length)
        else !(labelsOf db labels.dedup t.id).isEmpty) = true ↔
        if matchAll then ∀ label ∈ labels, ⟨t.id, label⟩ ∈ db.labels else ∃ label ∈ labels, ⟨t.id, label⟩ ∈ db.labels := by
      cases matchAll with
      | true => simpa using labelsOf_length_iff
      | false =>
        rw [if_neg Bool.false_ne_true, if_neg Bool.false_ne_true, Bool.not_eq_true', List.isEmpty_eq_false_iff_exists_mem]
        simp only [mem_labelsOf, List.mem_dedup]
    rw [if_neg (by simpa using hempty), List.mem_insertionSort, List.mem_filter]
    simp only [Bool.and_eq_true, hfound, Option.all_eq_true, decide_eq_true_eq]
    constructor
    · intro ⟨ht, ⟨huser, hkind⟩, hlabels⟩
      exact ⟨ht, ⟨hempty, hlabels⟩, huser, hkind⟩
    · intro ⟨ht, ⟨_, hlabels⟩, huser, hkind⟩
      exact ⟨ht, ⟨huser, hkind⟩, hlabels⟩

theorem candidates_nodup (memoryKinds : List Int) :
    ((candidates db labels matchAll userId memoryKinds).map ThreadRow.id).Nodup := by
  unfold candidates
  split
  · exact List.nodup_nil
  · refine ((List.perm_insertionSort _ _).map _).nodup_iff.2 ?_
    exact db.threads_nodup.sublist (List.filter_sublist.map _)

theorem candidates_mem_threads {memoryKinds : List Int} :
    ∀ t ∈ candidates db labels matchAll userId memoryKinds, t ∈ db.threads :=
  fun _ ht => (mem_candidates.1 ht).1

/-- The order of the query is the default order of the process. -/
theorem candidates_sorted (memoryKinds : List Int) :
    ((candidates db labels matchAll userId memoryKinds).map db.thread).Pairwise
      fun a b => sortsBefore .lastMessageDesc a b = true := by
  unfold candidates
  split
  · exact List.Pairwise.nil
  · rw [List.pairwise_map]
    have : Std.Total fun a b => recentFirst a b = true :=
      ⟨fun a b => sortsBefore_total .lastMessageDesc (db.thread a) (db.thread b)⟩
    have : IsTrans ThreadRow fun a b => recentFirst a b = true :=
      ⟨fun a b c => sortsBefore_trans .lastMessageDesc (a := db.thread a) (b := db.thread b) (c := db.thread c)⟩
    exact List.pairwise_insertionSort (fun a b => recentFirst a b = true) _

theorem labelRows_eq (hlabels : labels ≠ []) (memoryKinds : List Int) :
    labelRows db labels matchAll userId memoryKinds =
      (candidates db labels matchAll userId memoryKinds).map ThreadRow.id := by
  unfold labelRows candidates
  rw [if_neg (by simpa using hlabels)]

/-! ## Answers -/

/-- Whether the options take a thread. -/
def ThreadListOptions.selects (opts : ThreadListOptions) (thread : Thread) : Bool :=
  opts.matchesTimeRange thread && opts.matchesMemoryKind thread

theorem matchesTimeRange_of_none {opts : ThreadListOptions} (h : opts.hasTimeFilter = false) (thread : Thread) :
    opts.matchesTimeRange thread = true := by
  unfold ThreadListOptions.hasTimeFilter at h
  simp only [Bool.or_eq_false_iff, Option.isSome_eq_false_iff, Option.isNone_iff_eq_none] at h
  obtain ⟨⟨⟨⟨⟨⟨⟨h1, h2⟩, h3⟩, h4⟩, h5⟩, h6⟩, h7⟩, h8⟩ := h
  simp [ThreadListOptions.matchesTimeRange, h1, h2, h3, h4, h5, h6, h7, h8]

theorem matchesMemoryKind_of_none {opts : ThreadListOptions} (h : opts.hasMemoryKindFilter = false) (thread : Thread) :
    opts.matchesMemoryKind thread = true := by
  simp [ThreadListOptions.matchesMemoryKind, h]

/-- What the process takes by its kind, the query takes too. -/
theorem kindSelected_of_matches {opts : ThreadListOptions} {t : ThreadRow}
    (h : opts.matchesMemoryKind (db.thread t) = true) : kindSelected opts.memoryKinds t.memoryKind = true := by
  unfold ThreadListOptions.matchesMemoryKind ThreadListOptions.hasMemoryKindFilter at h
  unfold kindSelected
  cases hempty : opts.memoryKinds.isEmpty with
  | true => rfl
  | false =>
    simp only [hempty, Bool.not_false, Bool.not_true, Bool.false_eq_true, if_false] at h
    have hkind : (db.thread t).data.memoryKind = t.memoryKind.getD 0 := rfl
    rw [hkind] at h
    cases hk : t.memoryKind with
    | none => simpa [hk] using h
    | some k =>
      by_cases hzero : k = 0
      · simp_all
      · simp_all

/-- The two filters of the process are one. -/
theorem filter_selects (opts : ThreadListOptions) (threads : List Thread) :
    (let result := if opts.hasTimeFilter then threads.filter opts.matchesTimeRange else threads
      if opts.hasMemoryKindFilter then result.filter opts.matchesMemoryKind else result) =
      threads.filter opts.selects := by
  have htime : (if opts.hasTimeFilter then threads.filter opts.matchesTimeRange else threads) =
      threads.filter opts.matchesTimeRange := by
    split
    · rfl
    · next h =>
      exact (List.filter_eq_self.2 fun t _ => matchesTimeRange_of_none (Bool.eq_false_of_not_eq_true h) t).symm
  dsimp only
  rw [htime]
  split
  · rw [List.filter_filter]
    exact List.filter_congr fun t _ => Bool.and_comm _ _
  · next h =>
    refine List.filter_congr fun t _ => ?_
    rw [ThreadListOptions.selects, matchesMemoryKind_of_none (Bool.eq_false_of_not_eq_true h), Bool.and_true]

theorem window_eq (limit offset : Option Int) (threads : List Thread) :
    window limit offset threads =
      match limit with
      | some l => (threads.drop (offset.getD 0).toNat).take l.toNat
      | none => threads.drop (offset.getD 0).toNat := by
  unfold window
  dsimp only
  split
  · next h => cases limit <;> simp [List.drop_eq_nil_of_le h]
  · next h =>
    cases limit with
    | none => simp
    | some l =>
      rw [List.drop_take]
      dsimp only
      refine List.take_eq_take_iff.2 ?_
      simp only [List.length_drop]
      omega

/-- The rows that the query fetches for the process: it cannot ask for more than `i32::MAX`. -/
def fetched (db : Database) (labels : List String) (matchAll : Bool) (userId : Option Int) (memoryKinds : List Int) :
    List ThreadRow :=
  (candidates db labels matchAll userId memoryKinds).take (2 ^ 31 - 1)

theorem mem_candidates_of_fetched {memoryKinds : List Int} {t : ThreadRow}
    (ht : t ∈ fetched db labels matchAll userId memoryKinds) :
    t ∈ candidates db labels matchAll userId memoryKinds := List.mem_of_mem_take ht

theorem fetched_nodup (memoryKinds : List Int) :
    ((fetched db labels matchAll userId memoryKinds).map ThreadRow.id).Nodup :=
  (candidates_nodup memoryKinds).sublist ((List.take_sublist _ _).map _)

theorem fetchLimit_eq {cap : Int} (hlow : 0 ≤ cap) (hhigh : cap < 2 ^ 63) :
    (min (saturatingSucc cap) i32Max).bmod (2 ^ 32) = min (cap + 1) (2 ^ 31 - 1) := by
  unfold saturatingSucc i32Max
  rw [Int.bmod_def]
  omega

/-- **The answer through the process**: the fetched threads filtered, sorted and cut. -/
theorem findThreadsByLabels_processed {limit offset : Option Int} {opts : ThreadListOptions}
    (hneeds : (opts.hasTimeFilter || opts.hasMemoryKindFilter || decide (opts.sort ≠ .lastMessageDesc)) = true)
    (hcap : ((candidates db labels matchAll userId opts.memoryKinds).length : Int) ≤ cfg.intermediateHardLimit) :
    findThreadsByLabels backend cfg db labels matchAll userId limit offset opts =
      .ok (window limit offset (sortThreadsInPlace
        (((fetched db labels matchAll userId opts.memoryKinds).map db.thread).filter opts.selects) opts.sort)) := by
  have hids : findThreadIdsByLabelsAndMemoryKinds backend db labels matchAll userId opts.memoryKinds
      (some ((min (saturatingSucc cfg.intermediateHardLimit) i32Max).bmod (2 ^ 32))) none =
      .ok ((fetched db labels matchAll userId opts.memoryKinds).map ThreadRow.id) := by
    rw [fetchLimit_eq (by omega) cfg.hardLimit_lt]
    unfold findThreadIdsByLabelsAndMemoryKinds fetched
    by_cases hlabels : labels = []
    · simp [hlabels, candidates]
    · rw [if_neg (by simpa using hlabels), labelRows_eq hlabels]
      have hpos : ¬min (cfg.intermediateHardLimit + 1) (2 ^ 31 - 1) < 0 := by omega
      simp only [fetchPage, Option.getD_some, Option.getD_none, hpos, false_and, if_false, lt_irrefl, Int.toNat_zero,
        List.drop_zero, List.map_take]
      refine congrArg Except.ok (List.take_eq_take_iff.2 ?_)
      rw [List.length_map]
      omega
  have hlength : ¬cfg.intermediateHardLimit <
      (((fetched db labels matchAll userId opts.memoryKinds).map ThreadRow.id).length : Int) := by
    rw [List.length_map, fetched, List.length_take]
    omega
  unfold findThreadsByLabels
  dsimp only
  rw [if_pos hneeds, hids]
  simp only [bind, Except.bind, pure, Except.pure, hlength, if_false]
  rw [readThreads_map (fun t ht => candidates_mem_threads t (mem_candidates_of_fetched ht)) (fetched_nodup _)]
  exact congrArg (fun threads => Except.ok (window limit offset (sortThreadsInPlace threads opts.sort)))
    (filter_selects opts _)

/-- **The answer through the query**: a page of the candidates. -/
theorem findThreadsByLabels_paged {limit offset : Option Int} {opts : ThreadListOptions}
    (hneeds : (opts.hasTimeFilter || opts.hasMemoryKindFilter || decide (opts.sort ≠ .lastMessageDesc)) = false)
    (hlimit : ∀ l ∈ limit, 0 ≤ l) :
    findThreadsByLabels backend cfg db labels matchAll userId limit offset opts =
      if labels ≠ [] ∧ backend = .postgres ∧ offset.getD 0 < 0 then .error .negativeOffset
      else .ok ((((candidates db labels matchAll userId []).map db.thread).drop (offset.getD 0).toNat).take
        (limit.getD 100).toNat) := by
  have hlimit : ¬limit.getD 100 < 0 := by
    cases limit with
    | none => decide
    | some l => exact not_lt.2 (hlimit l rfl)
  unfold findThreadsByLabels findThreadIdsByLabelsAndMemoryKinds
  dsimp only
  rw [if_neg (by rw [hneeds]; decide)]
  by_cases hlabels : labels = []
  · simp [hlabels, candidates, bind, Except.bind, pure, Except.pure, readThreads]
  · rw [if_neg (by simpa using hlabels), labelRows_eq hlabels]
    unfold fetchPage
    rw [if_neg fun h => hlimit h.1]
    by_cases hoffset : offset.getD 0 < 0 ∧ backend = .postgres
    · rw [if_pos hoffset, if_pos ⟨hlabels, hoffset.2, hoffset.1⟩]
      rfl
    · rw [if_neg hoffset, if_neg fun h => hoffset ⟨h.2.2, h.2.1⟩]
      simp only [bind, Except.bind, pure, Except.pure, hlimit, if_false]
      rw [← List.map_drop, ← List.map_take, ← List.map_drop, ← List.map_take]
      refine congrArg Except.ok (readThreads_map ?_ ?_)
      · exact fun t ht => candidates_mem_threads t (List.mem_of_mem_drop (List.mem_of_mem_take ht))
      · exact (candidates_nodup []).sublist (((List.take_sublist _ _).trans (List.drop_sublist _ _)).map _)

/-! ## The two ways agree -/

/-- A filter that every candidate satisfies changes nothing. -/
def FilterChangesNothing (backend : Backend) (cfg : ThreadFilterConfig) (db : Database) (labels : List String)
    (matchAll : Bool) (userId limit offset : Option Int) : Prop :=
  ∀ opts : ThreadListOptions, opts.sort = .lastMessageDesc → (opts.hasTimeFilter || opts.hasMemoryKindFilter) = true →
    ((candidates db labels matchAll userId opts.memoryKinds).length : Int) ≤ cfg.intermediateHardLimit →
    (∀ t ∈ candidates db labels matchAll userId [], opts.selects (db.thread t) = true) →
      findThreadsByLabels backend cfg db labels matchAll userId limit offset opts =
        findThreadsByLabels backend cfg db labels matchAll userId limit offset {}

/-- The pages of any size list every thread that carries the labels and satisfies the filters once, in order. -/
def PagesList (backend : Backend) (cfg : ThreadFilterConfig) (db : Database) (labels : List String)
    (matchAll : Bool) (userId : Option Int) : Prop :=
  ∀ opts : ThreadListOptions,
    ((candidates db labels matchAll userId opts.memoryKinds).length : Int) ≤ cfg.intermediateHardLimit →
    ∀ pageSize pageCount : Nat, 0 < pageSize →
      (candidates db labels matchAll userId opts.memoryKinds).length ≤ pageCount * pageSize →
      ∃ pages, ((List.range pageCount).mapM fun page => findThreadsByLabels backend cfg db labels matchAll userId
          (some pageSize) (some (page * pageSize : Nat)) opts) = .ok pages ∧
        (pages.flatten.map Thread.id).Nodup ∧
        (∀ thread, thread ∈ pages.flatten ↔ ∃ t ∈ db.threads, Carries db labels matchAll t ∧
          (∀ v ∈ userId, t.userId = v) ∧ opts.selects (db.thread t) = true ∧ db.thread t = thread) ∧
        pages.flatten.Pairwise fun a b => sortsBefore opts.sort a b = true

/-- A thread of the kinds comes after the last row that the process can fetch, within the limit. -/
def LostBeyond (cfg : ThreadFilterConfig) (db : Database) (labels : List String) (matchAll : Bool)
    (userId : Option Int) (memoryKinds : List Int) : Prop :=
  ((candidates db labels matchAll userId memoryKinds).length : Int) ≤ cfg.intermediateHardLimit ∧
    ∃ t ∈ (candidates db labels matchAll userId memoryKinds).drop (2 ^ 31 - 1),
      ({ memoryKinds } : ThreadListOptions).matchesMemoryKind (db.thread t) = true

/-- The threads that a search lists, on pages of any size. -/
def listed (db : Database) (labels : List String) (matchAll : Bool) (userId : Option Int) (opts : ThreadListOptions) :
    List Thread :=
  sortThreadsInPlace (((candidates db labels matchAll userId opts.memoryKinds).map db.thread).filter opts.selects)
    opts.sort

/-- Nothing is lost: what the fetched rows leave out is not listed. -/
theorem filter_fetched {opts : ThreadListOptions} (hlost : ¬LostBeyond cfg db labels matchAll userId opts.memoryKinds)
    (hcap : ((candidates db labels matchAll userId opts.memoryKinds).length : Int) ≤ cfg.intermediateHardLimit) :
    ((fetched db labels matchAll userId opts.memoryKinds).map db.thread).filter opts.selects =
      ((candidates db labels matchAll userId opts.memoryKinds).map db.thread).filter opts.selects := by
  have hrest : (((candidates db labels matchAll userId opts.memoryKinds).drop (2 ^ 31 - 1)).map db.thread).filter
      opts.selects = [] := by
    rw [List.filter_eq_nil_iff]
    intro thread hthread hselects
    obtain ⟨t, ht, rfl⟩ := List.mem_map.1 hthread
    exact hlost ⟨hcap, t, ht, (Bool.and_eq_true_iff.1 hselects).2⟩
  conv_rhs => rw [← List.take_append_drop (2 ^ 31 - 1) (candidates db labels matchAll userId opts.memoryKinds)]
  rw [List.map_append, List.filter_append, hrest, List.append_nil]
  rfl

theorem selects_of_not_needed {opts : ThreadListOptions}
    (hneeds : (opts.hasTimeFilter || opts.hasMemoryKindFilter || decide (opts.sort ≠ .lastMessageDesc)) = false) :
    opts.memoryKinds = [] ∧ opts.sort = .lastMessageDesc ∧ ∀ thread, opts.selects thread = true := by
  simp only [Bool.or_eq_false_iff, decide_eq_false_iff_not, ne_eq, not_not] at hneeds
  obtain ⟨⟨htime, hkind⟩, hsort⟩ := hneeds
  refine ⟨by simpa [ThreadListOptions.hasMemoryKindFilter] using hkind, hsort, fun thread => ?_⟩
  rw [ThreadListOptions.selects, matchesTimeRange_of_none htime, matchesMemoryKind_of_none hkind]
  rfl

/-- Both ways give the pages of one list. -/
theorem page_eq {opts : ThreadListOptions} (hlost : ¬LostBeyond cfg db labels matchAll userId opts.memoryKinds)
    (hcap : ((candidates db labels matchAll userId opts.memoryKinds).length : Int) ≤ cfg.intermediateHardLimit)
    (pageSize offset : Nat) :
    findThreadsByLabels backend cfg db labels matchAll userId (some pageSize) (some offset) opts =
      .ok (((listed db labels matchAll userId opts).drop offset).take pageSize) := by
  cases hneeds : opts.hasTimeFilter || opts.hasMemoryKindFilter || decide (opts.sort ≠ .lastMessageDesc) with
  | true =>
    rw [findThreadsByLabels_processed hneeds hcap, filter_fetched hlost hcap, window_eq]
    simp [listed]
  | false =>
    obtain ⟨hkinds, hsort, hselects⟩ := selects_of_not_needed hneeds
    have hlisted : listed db labels matchAll userId opts = (candidates db labels matchAll userId []).map db.thread := by
      unfold listed sortThreadsInPlace
      rw [hkinds, hsort, List.filter_eq_self.2 fun thread _ => hselects thread]
      exact (candidates_sorted []).insertionSort_eq
    have hoffset : ¬(offset : Int) < 0 := by omega
    rw [findThreadsByLabels_paged hneeds (by simp), hlisted]
    simp [hoffset]

theorem mem_listed {opts : ThreadListOptions} {thread : Thread} :
    thread ∈ listed db labels matchAll userId opts ↔ ∃ t ∈ db.threads, Carries db labels matchAll t ∧
      (∀ v ∈ userId, t.userId = v) ∧ opts.selects (db.thread t) = true ∧ db.thread t = thread := by
  unfold listed sortThreadsInPlace
  rw [List.mem_insertionSort, List.mem_filter, List.mem_map]
  constructor
  · rintro ⟨⟨t, ht, rfl⟩, hselects⟩
    obtain ⟨ht, hcarries, huser, -⟩ := mem_candidates.1 ht
    exact ⟨t, ht, hcarries, huser, hselects, rfl⟩
  · rintro ⟨t, ht, hcarries, huser, hselects, rfl⟩
    have hkind := kindSelected_of_matches (Bool.and_eq_true_iff.1 hselects).2
    exact ⟨⟨t, mem_candidates.2 ⟨ht, hcarries, huser, hkind⟩, rfl⟩, hselects⟩

theorem listed_nodup (opts : ThreadListOptions) : ((listed db labels matchAll userId opts).map Thread.id).Nodup := by
  unfold listed sortThreadsInPlace
  refine ((List.perm_insertionSort _ _).map _).nodup_iff.2 (List.Nodup.sublist (List.filter_sublist.map _) ?_)
  rw [List.map_map]
  exact candidates_nodup opts.memoryKinds

/-- Consecutive windows of a list, one after the other. -/
theorem flatMap_windows {α : Type} (p : Nat) (l : List α) (n : Nat) :
    ((List.range n).flatMap fun k => (l.drop (k * p)).take p) = l.take (n * p) := by
  induction n with
  | zero => simp
  | succ n ih => rw [List.range_succ, List.flatMap_append, ih, Nat.succ_mul, List.take_add]; simp

theorem pages_list (hlost : ∀ kinds, ¬LostBeyond cfg db labels matchAll userId kinds) :
    PagesList backend cfg db labels matchAll userId := by
  intro opts hcap pageSize pageCount _ hcount
  have hflatten : ((List.range pageCount).map fun page =>
      ((listed db labels matchAll userId opts).drop (page * pageSize)).take pageSize).flatten =
      listed db labels matchAll userId opts := by
    rw [← List.flatMap_def, flatMap_windows]
    refine List.take_of_length_le (Nat.le_trans ?_ hcount)
    unfold listed sortThreadsInPlace
    rw [List.length_insertionSort, ← List.length_map db.thread]
    exact List.length_filter_le _ _
  refine ⟨_, Except.mapM_of_ok fun page _ => page_eq (hlost _) hcap pageSize (page * pageSize), ?_⟩
  rw [hflatten]
  exact ⟨listed_nodup opts, fun _ => mem_listed, List.pairwise_insertionSort (fun a b => sortsBefore opts.sort a b = true) _⟩

theorem mem_of_mem_window {limit offset : Option Int} {threads : List Thread} {thread : Thread}
    (h : thread ∈ window limit offset threads) : thread ∈ threads := by
  rw [window_eq] at h
  cases limit with
  | none => exact List.mem_of_mem_drop h
  | some l => exact List.mem_of_mem_drop (List.mem_of_mem_take h)

/-- Pages through the process list fetched threads only. -/
theorem fetched_of_page {opts : ThreadListOptions} {limit offset : Option Int} {page : List Thread} {t : ThreadRow}
    (hneeds : (opts.hasTimeFilter || opts.hasMemoryKindFilter || decide (opts.sort ≠ .lastMessageDesc)) = true)
    (hcap : ((candidates db labels matchAll userId opts.memoryKinds).length : Int) ≤ cfg.intermediateHardLimit)
    (hpage : findThreadsByLabels backend cfg db labels matchAll userId limit offset opts = .ok page)
    (ht : t ∈ db.threads) (hmem : db.thread t ∈ page) : t ∈ fetched db labels matchAll userId opts.memoryKinds := by
  rw [findThreadsByLabels_processed hneeds hcap] at hpage
  rw [← Except.ok.inj hpage] at hmem
  have hmem := mem_of_mem_window hmem
  rw [sortThreadsInPlace, List.mem_insertionSort] at hmem
  obtain ⟨t', ht', heq⟩ := List.mem_map.1 (List.mem_of_mem_filter hmem)
  have hid : t'.id = t.id := congrArg Thread.id heq
  rwa [← row_unique (candidates_mem_threads t' (mem_candidates_of_fetched ht')) ht hid]

/-- Pages that list everything show that no thread is lost. -/
theorem lost_of_pages (hpages : PagesList backend cfg db labels matchAll userId) (kinds : List Int) :
    ¬LostBeyond cfg db labels matchAll userId kinds := by
  rintro ⟨hcap, t, ht, hkind⟩
  have hneeds : ∀ kinds, (ThreadListOptions.hasTimeFilter { sort := .idDesc, memoryKinds := kinds } ||
      ThreadListOptions.hasMemoryKindFilter { sort := .idDesc, memoryKinds := kinds } ||
      decide (ThreadSort.idDesc ≠ .lastMessageDesc)) = true := fun kinds => by simp
  have hselects : ThreadListOptions.selects { sort := .idDesc, memoryKinds := kinds } (db.thread t) = true := by
    rw [ThreadListOptions.selects, matchesTimeRange_of_none rfl]
    exact hkind
  obtain ⟨ht', hcarries, huser, -⟩ := mem_candidates.1 (List.mem_of_mem_drop ht)
  obtain ⟨pages, hpages, -, hmem, -⟩ := hpages { sort := .idDesc, memoryKinds := kinds } hcap
    ((candidates db labels matchAll userId kinds).length + 1) 1 (Nat.succ_pos _) (by rw [Nat.one_mul]; exact Nat.le_succ _)
  have hlisted := (hmem (db.thread t)).2 ⟨t, ht', hcarries, huser, hselects, rfl⟩
  obtain ⟨page, hpage, hlisted⟩ := List.mem_flatten.1 hlisted
  obtain ⟨offset, hrun⟩ := Except.exists_of_mapM_ok hpages hpage
  have hfetched := fetched_of_page (hneeds kinds) hcap hrun ht' hlisted
  have hn := (@candidates_nodup db labels matchAll userId kinds).of_map
  rw [← List.take_append_drop (2 ^ 31 - 1) (candidates db labels matchAll userId kinds), List.nodup_append] at hn
  exact hn.2.2 t hfetched t ht rfl

/-- A filter that every candidate satisfies asks the query for the same rows. -/
theorem candidates_of_selected {opts : ThreadListOptions}
    (hall : ∀ t ∈ candidates db labels matchAll userId [], opts.selects (db.thread t) = true) :
    candidates db labels matchAll userId opts.memoryKinds = candidates db labels matchAll userId [] := by
  by_cases hlabels : labels = []
  · simp [candidates, hlabels]
  · have hkind : ∀ t ∈ candidates db labels matchAll userId [], kindSelected opts.memoryKinds t.memoryKind = true :=
      fun t ht => kindSelected_of_matches (Bool.and_eq_true_iff.1 (hall t ht)).2
    simp only [candidates, List.isEmpty_iff, hlabels, if_false, List.mem_insertionSort, List.mem_filter,
      Bool.and_eq_true] at hkind ⊢
    refine congrArg _ (List.filter_congr fun t ht => ?_)
    cases hselected : kindSelected opts.memoryKinds t.memoryKind with
    | true => rfl
    | false =>
      -- A row the kinds leave out fails another condition: else it were a candidate.
      rw [Bool.and_false, Bool.false_and, eq_comm, Bool.eq_false_iff]
      intro htrue
      simp only [Bool.and_eq_true] at htrue
      exact Bool.false_ne_true (hselected.symm.trans (hkind t ⟨ht, htrue⟩))

/-- The answer under a filter that every candidate satisfies. -/
theorem answer_of_selected {limit offset : Option Int} {opts : ThreadListOptions}
    (hlost : ∀ kinds, ¬LostBeyond cfg db labels matchAll userId kinds) (hsort : opts.sort = .lastMessageDesc)
    (hfilter : (opts.hasTimeFilter || opts.hasMemoryKindFilter) = true)
    (hcap : ((candidates db labels matchAll userId opts.memoryKinds).length : Int) ≤ cfg.intermediateHardLimit)
    (hall : ∀ t ∈ candidates db labels matchAll userId [], opts.selects (db.thread t) = true) :
    findThreadsByLabels backend cfg db labels matchAll userId limit offset opts =
      .ok (window limit offset ((candidates db labels matchAll userId []).map db.thread)) := by
  rw [findThreadsByLabels_processed (by simp [hfilter]) hcap, filter_fetched (hlost _) hcap, candidates_of_selected hall]
  have hself : ((candidates db labels matchAll userId []).map db.thread).filter opts.selects =
      (candidates db labels matchAll userId []).map db.thread := by
    refine List.filter_eq_self.2 fun thread hthread => ?_
    obtain ⟨t, ht, rfl⟩ := List.mem_map.1 hthread
    exact hall t ht
  rw [hself, hsort, sortThreadsInPlace]
  exact congrArg (fun threads => Except.ok (window limit offset threads)) (candidates_sorted []).insertionSort_eq

/-- Without a limit the query cuts after 100 rows: the two ways agree if no more are left. -/
theorem window_eq_page_iff {limit offset : Option Int} (threads : List Thread) :
    window limit offset threads = (threads.drop (offset.getD 0).toNat).take (limit.getD 100).toNat ↔
      (limit = none → threads.length ≤ (offset.getD 0).toNat + 100) := by
  rw [window_eq]
  cases limit with
  | some l => simp
  | none =>
    dsimp only [Option.getD_none]
    rw [eq_comm, List.take_eq_self_iff, List.length_drop]
    simp only [forall_const]
    omega

/-- A time that no thread was created after. -/
theorem exists_createdBefore (db : Database) : ∃ bound, ∀ t ∈ db.threads, t.createdAt ≤ bound := by
  obtain ⟨bound, hbound⟩ := (List.finite_toSet (db.threads.map ThreadRow.createdAt)).bddAbove
  exact ⟨bound, fun t ht => hbound (List.mem_map_of_mem ht)⟩

/-- **Label searches agree exactly when** there is a limit or no more than the default limit is left,
the offset is one that the query takes, and no thread is beyond the last row that can be fetched. -/
theorem label_search_iff (limit offset : Option Int) (hlimit : ∀ l ∈ limit, 0 ≤ l) :
    FilterChangesNothing backend cfg db labels matchAll userId limit offset ∧
        PagesList backend cfg db labels matchAll userId ↔
      (((candidates db labels matchAll userId []).length : Int) ≤ cfg.intermediateHardLimit →
        (limit = none → (candidates db labels matchAll userId []).length ≤ (offset.getD 0).toNat + 100) ∧
        (backend = .postgres → labels ≠ [] → 0 ≤ offset.getD 0)) ∧
      ∀ kinds, ¬LostBeyond cfg db labels matchAll userId kinds := by
  have hplain : findThreadsByLabels backend cfg db labels matchAll userId limit offset {} = _ :=
    findThreadsByLabels_paged rfl hlimit
  constructor
  · rintro ⟨hsame, hpages⟩
    have hlost := lost_of_pages hpages
    refine ⟨fun hcap => ?_, hlost⟩
    obtain ⟨bound, hbound⟩ := exists_createdBefore db
    have hall : ∀ t ∈ candidates db labels matchAll userId [],
        ({ createdBefore := some bound } : ThreadListOptions).selects (db.thread t) = true := by
      intro t ht
      have hcreated : (db.thread t).data.createdAt ≤ bound := hbound t (candidates_mem_threads t ht)
      rw [ThreadListOptions.selects, matchesMemoryKind_of_none rfl, Bool.and_true]
      simpa [ThreadListOptions.matchesTimeRange] using hcreated
    have hanswer : findThreadsByLabels backend cfg db labels matchAll userId limit offset
        { createdBefore := some bound } = _ := answer_of_selected hlost rfl rfl hcap hall
    have heq := hsame { createdBefore := some bound } rfl rfl hcap hall
    rw [hanswer, hplain] at heq
    split at heq
    · cases heq
    · next hoffset =>
      have hwindow := (window_eq_page_iff _).1 (Except.ok.inj heq)
      rw [List.length_map] at hwindow
      exact ⟨hwindow, fun hbackend hlabels => not_lt.1 fun hneg => hoffset ⟨hlabels, hbackend, hneg⟩⟩
  · rintro ⟨hagree, hlost⟩
    refine ⟨fun opts hsort hfilter hcap hall => ?_, pages_list hlost⟩
    rw [answer_of_selected hlost hsort hfilter hcap hall, hplain]
    rw [candidates_of_selected hall] at hcap
    obtain ⟨hlimit, hoffset⟩ := hagree hcap
    rw [if_neg fun h => not_lt.2 (hoffset h.2.1 h.1) h.2.2]
    refine congrArg Except.ok ((window_eq_page_iff _).2 fun hnone => ?_)
    rw [List.length_map]
    exact hlimit hnone

/-! ## Small and large sets -/

theorem not_lostBeyond (h : db.threads.length ≤ 2 ^ 31 - 1) (kinds : List Int) :
    ¬LostBeyond cfg db labels matchAll userId kinds := by
  rintro ⟨-, t, ht, -⟩
  have hlength : (candidates db labels matchAll userId kinds).length ≤ db.threads.length := by
    unfold candidates
    split
    · exact Nat.zero_le _
    · rw [List.length_insertionSort]
      exact List.length_filter_le _ _
  rw [List.drop_eq_nil_of_le (hlength.trans h)] at ht
  exact List.not_mem_nil ht

/-- Two threads of one label, one without a message. -/
def twoLabelled : Database where
  threads := [⟨1, 7, none, 10, 10, none, none, none⟩, ⟨2, 7, none, 20, 20, some 20, some 20, some 2⟩]
  labels := [⟨1, "daily"⟩, ⟨2, "daily"⟩, ⟨2, "weekly"⟩]
  members := []
  threadMemories := []
  threads_nodup := by decide

theorem two_labelled_agree :
    FilterChangesNothing .postgres defaultLimits twoLabelled ["daily", "daily"] true none (some 1) (some 1) ∧
      PagesList .postgres defaultLimits twoLabelled ["daily", "daily"] true none :=
  (label_search_iff (some 1) (some 1) (by decide)).2
    ⟨fun _ => ⟨fun h => absurd h (by decide), fun _ _ => by decide⟩, not_lostBeyond (by decide)⟩

/-- 101 threads of one label. -/
def crowdedLabel : Database where
  threads := (List.range 101).map fun n => ⟨n, 7, none, 10, 10, none, none, none⟩
  labels := (List.range 101).map fun n => ⟨n, "daily"⟩
  members := []
  threadMemories := []
  threads_nodup := by decide +kernel

/-- Without a limit, a bound that every thread satisfies adds the thread that the query leaves out. -/
theorem absent_limit_cut_by_query_only :
    ¬FilterChangesNothing .sqlite defaultLimits crowdedLabel ["daily"] false none none none := by
  intro h
  have hlength : (candidates crowdedLabel ["daily"] false none []).length = 101 := by decide +kernel
  have hcap : ((candidates crowdedLabel ["daily"] false none []).length : Int) ≤ defaultLimits.intermediateHardLimit := by
    rw [hlength]
    decide
  have hall : ∀ t ∈ candidates crowdedLabel ["daily"] false none [],
      ThreadListOptions.selects { createdBefore := some 10 } (crowdedLabel.thread t) = true := by
    intro t ht
    obtain ⟨n, -, rfl⟩ := List.mem_map.1 (candidates_mem_threads t ht)
    rfl
  have hfiltered : findThreadsByLabels .sqlite defaultLimits crowdedLabel ["daily"] false none none none
      { createdBefore := some 10 } = _ := answer_of_selected (not_lostBeyond (by decide +kernel)) rfl rfl hcap hall
  have hplain : findThreadsByLabels .sqlite defaultLimits crowdedLabel ["daily"] false none none none {} = _ :=
    findThreadsByLabels_paged rfl (by simp)
  have heq := h { createdBefore := some 10 } rfl rfl hcap hall
  rw [hfiltered, hplain, if_neg (by decide)] at heq
  have hcut := (window_eq_page_iff _).1 (Except.ok.inj heq) rfl
  rw [List.length_map, hlength] at hcut
  exact absurd hcut (by decide)

end MemoryStore.ThreadFilter
