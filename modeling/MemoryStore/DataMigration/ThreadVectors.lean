/-
Rows of the thread vector table, how rows that share a thread, kind and chunk are
resolved, and the checks that compare a table with the database or with another
table.
-/
import Mathlib

namespace MemoryStore.DataMigration

/-- `ThreadVectorRecord`; the embedding is kept as the bits of its floats. -/
structure ThreadVectorRecord where
  threadId : ℤ
  vectorKind : String
  chunkIndex : ℤ
  beginPosition : ℤ
  endPosition : ℤ
  userId : ℤ
  memoryKind : ℤ
  content : String
  description : Option String
  labels : List String
  embedding : List ℕ
  embeddingModel : Option String
  channel : Option String
  createdAt : ℤ
  updatedAt : ℤ
  firstMessageAt : Option ℤ
  lastMessageAt : Option ℤ
  indexedAt : ℤ
  deriving DecidableEq

/-- First and last message of a thread, if it has any. -/
abbrev MessageBounds := Option ℤ × Option ℤ

namespace ThreadVectorRecord

/-- What the table merges rows on. -/
def key (r : ThreadVectorRecord) : ℤ ×ₗ (String ×ₗ ℤ) := toLex (r.threadId, toLex (r.vectorKind, r.chunkIndex))

def withBounds (r : ThreadVectorRecord) (b : MessageBounds) : ThreadVectorRecord :=
  { r with firstMessageAt := b.1, lastMessageAt := b.2 }

@[simp] theorem withBounds_threadId (r : ThreadVectorRecord) (b : MessageBounds) :
    (r.withBounds b).threadId = r.threadId := rfl

@[simp] theorem withBounds_key (r : ThreadVectorRecord) (b : MessageBounds) : (r.withBounds b).key = r.key := rfl

theorem threadId_eq_of_key {r r' : ThreadVectorRecord} (h : r.key = r'.key) : r.threadId = r'.threadId :=
  (Prod.mk.inj (toLex.injective h)).1

theorem threadId_le_of_key {r r' : ThreadVectorRecord} (h : r.key ≤ r'.key) : r.threadId ≤ r'.threadId := by
  rcases Prod.Lex.le_iff.mp h with h | h
  · exact le_of_lt h
  · exact le_of_eq h.1

end ThreadVectorRecord

/-! ## Duplicates -/

def compareOption {α : Type} (cmp : α → α → Ordering) : Option α → Option α → Ordering
  | none, none => .eq
  | none, some _ => .lt
  | some _, none => .gt
  | some a, some b => cmp a b

def compareList {α : Type} (cmp : α → α → Ordering) : List α → List α → Ordering
  | [], [] => .eq
  | [], _ :: _ => .lt
  | _ :: _, [] => .gt
  | a :: as, b :: bs => (cmp a b).then (compareList cmp as bs)

@[irreducible] def compareDuplicateVectorRecords (left right : ThreadVectorRecord) : Ordering :=
  (compare left.indexedAt right.indexedAt)
    |>.then (compare left.updatedAt right.updatedAt)
    |>.then (compare left.createdAt right.createdAt)
    |>.then (compare left.beginPosition right.beginPosition)
    |>.then (compare left.endPosition right.endPosition)
    |>.then (compare left.userId right.userId)
    |>.then (compare left.memoryKind right.memoryKind)
    |>.then (compare left.content right.content)
    |>.then (compareOption compare left.description right.description)
    |>.then (compareList compare left.labels right.labels)
    |>.then (compareOption compare left.embeddingModel right.embeddingModel)
    |>.then (compareOption compare left.channel right.channel)
    |>.then (compareOption compare left.firstMessageAt right.firstMessageAt)
    |>.then (compareOption compare left.lastMessageAt right.lastMessageAt)
    |>.then (compareList compare left.embedding right.embedding)

/-- `Iterator::max_by`: the last of the greatest. -/
def maxFrom (best : ThreadVectorRecord) : List ThreadVectorRecord → ThreadVectorRecord
  | [] => best
  | r :: rs => maxFrom (if compareDuplicateVectorRecords best r = .gt then best else r) rs

theorem maxFrom_mem : ∀ (best : ThreadVectorRecord) (rs : List ThreadVectorRecord), maxFrom best rs ∈ best :: rs
  | best, [] => by
    rw [maxFrom]
    exact List.mem_cons_self
  | best, r :: rs => by
    rw [maxFrom]
    split
    · rcases List.mem_cons.mp (maxFrom_mem best rs) with h | h
      · rw [h]
        exact List.mem_cons_self
      · exact List.mem_cons_of_mem _ (List.mem_cons_of_mem _ h)
    · exact List.mem_cons_of_mem _ (maxFrom_mem r rs)

/-- Runs of neighbours with one key. -/
def groupByKey : List ThreadVectorRecord → List (ThreadVectorRecord × List ThreadVectorRecord)
  | [] => []
  | r :: rs =>
    match groupByKey rs with
    | (r', g) :: gs => if r.key = r'.key then (r, r' :: g) :: gs else (r, []) :: (r', g) :: gs
    | [] => [(r, [])]

/-- The rows that win, ordered by key, and how many lose. -/
def normalizeVectorRecords (records : List ThreadVectorRecord) : List ThreadVectorRecord × ℕ :=
  let groups := groupByKey (records.insertionSort fun a b => a.key ≤ b.key)
  (groups.map fun (r, g) => maxFrom r g, (groups.map fun (_, g) => g.length).sum)

/-- Rows in the order of their keys, no two of one key. -/
def KeySorted (rows : List ThreadVectorRecord) : Prop := rows.Pairwise fun a b => a.key < b.key

theorem mem_groupByKey : ∀ {rs : List ThreadVectorRecord} {x : ThreadVectorRecord},
    x ∈ rs ↔ ∃ p ∈ groupByKey rs, x ∈ p.1 :: p.2
  | [], x => by simp [groupByKey]
  | r :: rs, x => by
    have ih := @mem_groupByKey rs x
    rw [List.mem_cons, ih, groupByKey]
    split
    · next r' g gs hgs =>
      rw [hgs]
      split
      · simp only [List.mem_cons, exists_eq_or_imp]
        rw [or_assoc, or_assoc, or_assoc]
      · simp only [List.mem_cons, exists_eq_or_imp, List.not_mem_nil, or_false]
    · next hgs =>
      rw [hgs]
      simp

/-- The groups of a sorted list have one key each, and their keys increase. -/
theorem groupByKey_sorted : ∀ {rs : List ThreadVectorRecord}, rs.Pairwise (fun a b => a.key ≤ b.key) →
    (∀ p ∈ groupByKey rs, ∀ x ∈ p.2, x.key = p.1.key) ∧ (groupByKey rs).Pairwise fun p q => p.1.key < q.1.key
  | [], _ => ⟨fun p hp => absurd hp List.not_mem_nil, List.Pairwise.nil⟩
  | r :: rs, h => by
    obtain ⟨hle, hrs⟩ := List.pairwise_cons.mp h
    obtain ⟨hsame, hlt⟩ := groupByKey_sorted hrs
    have hhead : ∀ p ∈ groupByKey rs, r.key ≤ p.1.key := fun p hp =>
      hle _ (mem_groupByKey.mpr ⟨p, hp, List.mem_cons_self⟩)
    rw [groupByKey]
    split
    · next r' g gs hgs =>
      rw [hgs] at hsame hlt hhead
      obtain ⟨hfirst, hrest⟩ := List.pairwise_cons.mp hlt
      split
      · next hk =>
        refine ⟨?_, List.pairwise_cons.mpr ⟨fun q hq => hk ▸ hfirst q hq, hrest⟩⟩
        intro p hp x hx
        rcases List.mem_cons.mp hp with rfl | hp
        · rcases List.mem_cons.mp hx with rfl | hx
          · exact hk.symm
          · exact (hsame (r', g) List.mem_cons_self x hx).trans hk.symm
        · exact hsame p (List.mem_cons_of_mem _ hp) x hx
      · next hk =>
        have hlt' : r.key < r'.key := lt_of_le_of_ne (hhead (r', g) List.mem_cons_self) hk
        refine ⟨?_, List.pairwise_cons.mpr ⟨?_, hlt⟩⟩
        · intro p hp x hx
          rcases List.mem_cons.mp hp with rfl | hp
          · exact absurd hx List.not_mem_nil
          · exact hsame p hp x hx
        · intro q hq
          rcases List.mem_cons.mp hq with rfl | hq
          · exact hlt'
          · exact lt_trans hlt' (hfirst q hq)
    · refine ⟨?_, List.pairwise_singleton _ _⟩
      intro p hp x hx
      rw [List.mem_singleton.mp hp] at hx
      exact absurd hx List.not_mem_nil

theorem sorted_records (records : List ThreadVectorRecord) :
    (records.insertionSort fun a b => a.key ≤ b.key).Pairwise fun a b => a.key ≤ b.key :=
  List.pairwise_insertionSort (fun a b : ThreadVectorRecord => a.key ≤ b.key) records

/-- **The rows that win**: ordered by key, one for each key there was, each of them a row there was. -/
theorem normalizeVectorRecords_spec (records : List ThreadVectorRecord) :
    KeySorted (normalizeVectorRecords records).1 ∧ (∀ r ∈ (normalizeVectorRecords records).1, r ∈ records) ∧
      ∀ r ∈ records, ∃ r' ∈ (normalizeVectorRecords records).1, r'.key = r.key := by
  set sorted := records.insertionSort fun a b : ThreadVectorRecord => a.key ≤ b.key with hdef
  obtain ⟨hsame, hlt⟩ := groupByKey_sorted (sorted_records records)
  have hkey : ∀ p ∈ groupByKey sorted, (maxFrom p.1 p.2).key = p.1.key := by
    intro p hp
    rcases List.mem_cons.mp (maxFrom_mem p.1 p.2) with h | h
    · rw [h]
    · exact hsame p hp _ h
  refine ⟨?_, ?_, ?_⟩
  · simp only [KeySorted, normalizeVectorRecords, List.pairwise_map]
    exact hlt.imp_of_mem fun {p q} hp hq h => by rw [hkey p hp, hkey q hq]; exact h
  · intro r hr
    obtain ⟨p, hp, rfl⟩ := List.mem_map.mp hr
    exact (List.mem_insertionSort _).mp (mem_groupByKey.mpr ⟨p, hp, maxFrom_mem p.1 p.2⟩)
  · intro r hr
    obtain ⟨p, hp, hin⟩ := mem_groupByKey.mp ((List.mem_insertionSort fun a b : ThreadVectorRecord => a.key ≤ b.key).mpr hr)
    refine ⟨_, List.mem_map_of_mem hp, (hkey p hp).trans ?_⟩
    rcases List.mem_cons.mp hin with rfl | hin
    · rfl
    · exact (hsame p hp r hin).symm

theorem groupByKey_of_keySorted : ∀ {rs : List ThreadVectorRecord}, KeySorted rs → groupByKey rs = rs.map fun r => (r, [])
  | [], _ => rfl
  | [r], _ => by simp [groupByKey]
  | r :: r' :: rs, h => by
    obtain ⟨hlt, hrs⟩ := List.pairwise_cons.mp h
    have hne : r.key ≠ r'.key := ne_of_lt (hlt r' List.mem_cons_self)
    rw [groupByKey, groupByKey_of_keySorted hrs, List.map_cons, List.map_cons, List.map_cons]
    simp only [if_neg hne]

/-- Rows of distinct keys are only put in order. -/
theorem normalizeVectorRecords_of_nodup {rows : List ThreadVectorRecord} (h : (rows.map ThreadVectorRecord.key).Nodup) :
    normalizeVectorRecords rows = (rows.insertionSort fun a b => a.key ≤ b.key, 0) := by
  have hsorted : KeySorted (rows.insertionSort fun a b => a.key ≤ b.key) := by
    have hnodup : ((rows.insertionSort fun a b => a.key ≤ b.key).map ThreadVectorRecord.key).Nodup :=
      ((List.perm_insertionSort _ rows).map _).nodup_iff.mpr h
    exact ((sorted_records rows).and (List.pairwise_map.mp hnodup)).imp fun hab => lt_of_le_of_ne hab.1 hab.2
  simp [normalizeVectorRecords, groupByKey_of_keySorted hsorted, maxFrom, Function.comp_def]

/-- Rows that are ordered by distinct keys are left as they are. -/
theorem normalizeVectorRecords_of_keySorted {rows : List ThreadVectorRecord} (h : KeySorted rows) :
    normalizeVectorRecords rows = (rows, 0) := by
  have hsort : rows.insertionSort (fun a b : ThreadVectorRecord => a.key ≤ b.key) = rows :=
    List.Pairwise.insertionSort_eq (h.imp fun hlt => le_of_lt hlt)
  rw [normalizeVectorRecords_of_nodup (List.pairwise_map.mpr (h.imp fun hlt => ne_of_lt hlt)), hsort]

/-! ## Tables -/

/-- The rows of a vector table. -/
abbrev VectorTable := List ThreadVectorRecord

namespace VectorTable

def findRecordsByThreadId (rows : VectorTable) (threadId : ℤ) : List ThreadVectorRecord :=
  rows.filter (·.threadId = threadId)

/-- `unique_thread_ids` of `get_all_thread_ids`. -/
def uniqueThreadIds (rows : VectorTable) : List ℤ :=
  (rows.map ThreadVectorRecord.threadId).dedup.insertionSort (· ≤ ·)

/-- One stable page of distinct threads. -/
def threadIdKeysetPage (rows : VectorTable) (after : Option ℤ) (limit : ℕ) : List ℤ :=
  (rows.uniqueThreadIds.filter fun id => after.all (· < id)).take limit

/-- One row of a merge on the key: it replaces what has its key, or is inserted. -/
def upsertRow (rows : VectorTable) (r : ThreadVectorRecord) : VectorTable :=
  if rows.any (·.key = r.key) then rows.map fun r' => if r'.key = r.key then r else r' else rows ++ [r]

def mergeInsert (rows : VectorTable) (records : List ThreadVectorRecord) : VectorTable := records.foldl upsertRow rows

end VectorTable

/-! ## Verification -/

/-- The first error of a loop of checks. -/
def checkEach {α : Type} : List α → (α → Except String Unit) → Except String Unit
  | [], _ => .ok ()
  | a :: l, f => do
    f a
    checkEach l f

def check (c : Bool) (message : String) : Except String Unit := if c then .ok () else .error message

theorem check_ok {c : Bool} {message : String} : check c message = .ok () ↔ c = true := by
  cases c <;> simp [check]

theorem check_bind_ok {α : Type} {c : Bool} {message : String} {r : Except String α} {a : α} :
    (check c message >>= fun _ => r) = .ok a ↔ c = true ∧ r = .ok a := by
  cases c
  · exact Iff.intro (fun h => nomatch h) fun h => nomatch h.1
  · exact Iff.intro (fun h => ⟨rfl, h⟩) fun h => h.2

/-- Two rows agree, on their bounds too when those are compared. -/
def sameRow (checkMessageTimes : Bool) (expected actual : ThreadVectorRecord) : Bool :=
  expected.withBounds (none, none) = actual.withBounds (none, none) &&
    (!checkMessageTimes ||
      (expected.firstMessageAt = actual.firstMessageAt && expected.lastMessageAt = actual.lastMessageAt))

def verifyMatchingVectorRecords (expected actual : List ThreadVectorRecord) (checkMessageTimes : Bool) :
    Except String Unit := do
  check (expected.length = actual.length) "ThreadVector row count verification failed"
  checkEach (expected.zip actual) fun (e, a) =>
    check (sameRow checkMessageTimes e a) "ThreadVector row verification failed"

/-- `bounds` is none for a thread that does not exist. -/
def verifyVectorTableAgainstRdb (bounds : ℤ → Option MessageBounds) (rows : VectorTable) : Except String Unit :=
  checkEach rows.uniqueThreadIds fun threadId => do
    match bounds threadId with
    | none => .error "ThreadVector contains a thread absent from RDB"
    | some b => do
      let (records, discarded) := normalizeVectorRecords (rows.findRecordsByThreadId threadId)
      check (discarded = 0) "ThreadVector verification found duplicate row identifiers"
      check (!records.isEmpty) "ThreadVector thread key has no records"
      checkEach records fun r =>
        check (r.firstMessageAt = b.1 && r.lastMessageAt = b.2) "ThreadVector scalar verification failed"

def verifyStagingAgainstCanonical (bounds : ℤ → Option MessageBounds) (canonical staging : VectorTable) :
    Except String Unit := do
  verifyVectorTableAgainstRdb bounds staging
  checkEach canonical.uniqueThreadIds fun threadId => do
    let (source, _) := normalizeVectorRecords (canonical.findRecordsByThreadId threadId)
    let (target, targetDuplicates) := normalizeVectorRecords (staging.findRecordsByThreadId threadId)
    check (targetDuplicates = 0) "staging ThreadVector retained duplicate row identifiers"
    match bounds threadId with
    | none => check target.isEmpty "staging retained orphan ThreadVector rows"
    | some _ => verifyMatchingVectorRecords source target false
  checkEach staging.uniqueThreadIds fun threadId =>
    check (!(canonical.findRecordsByThreadId threadId).isEmpty) "staging contains a row absent from canonical"

def verifyIdenticalVectorTables (expected actual : VectorTable) : Except String Unit := do
  check (expected.uniqueThreadIds = actual.uniqueThreadIds)
    "ThreadVector thread key set verification failed after cutover"
  checkEach expected.uniqueThreadIds fun threadId => do
    let (expectedRecords, expectedDuplicates) := normalizeVectorRecords (expected.findRecordsByThreadId threadId)
    let (actualRecords, actualDuplicates) := normalizeVectorRecords (actual.findRecordsByThreadId threadId)
    check (expectedDuplicates = 0 && actualDuplicates = 0)
      "ThreadVector equivalence verification found duplicate row identifiers"
    verifyMatchingVectorRecords expectedRecords actualRecords true

def verifyEquivalentVectorTables (bounds : ℤ → Option MessageBounds) (expected actual : VectorTable) :
    Except String Unit := do
  verifyVectorTableAgainstRdb bounds expected
  verifyVectorTableAgainstRdb bounds actual
  verifyIdenticalVectorTables expected actual

/-! ## What staging makes of a table -/

/-- The staged rows of one thread: the rows that win, with the bounds of the thread. -/
def stagedThread (bounds : ℤ → Option MessageBounds) (source : VectorTable) (threadId : ℤ) : List ThreadVectorRecord :=
  match bounds threadId with
  | none => []
  | some b => (normalizeVectorRecords ((source.findRecordsByThreadId threadId).map (·.withBounds b))).1

/-- The staged rows of a whole table. -/
def stagedRows (bounds : ℤ → Option MessageBounds) (source : VectorTable) : VectorTable :=
  source.uniqueThreadIds.flatMap (stagedThread bounds source)

/-- Rows that share a key are resolved alike by the stored bounds and by those of the thread. -/
def ResolvedAlike (bounds : ℤ → Option MessageBounds) (source : VectorTable) : Prop :=
  ∀ threadId b, bounds threadId = some b →
    (normalizeVectorRecords ((source.findRecordsByThreadId threadId).map (·.withBounds b))).1.map
        (·.withBounds (none, none)) =
      (normalizeVectorRecords (source.findRecordsByThreadId threadId)).1.map (·.withBounds (none, none))

/-- **A migrated table** holds, for each existing thread, exactly one row per kind and chunk the source had, one of
the rows it had with only its bounds replaced by those of the thread. -/
structure Migrated (bounds : ℤ → Option MessageBounds) (source rows : VectorTable) : Prop where
  once : (rows.map ThreadVectorRecord.key).Nodup
  from_source : ∀ r ∈ rows, ∃ b, bounds r.threadId = some b ∧ ∃ r' ∈ source, r = r'.withBounds b
  complete : ∀ r ∈ source, bounds r.threadId ≠ none → ∃ r' ∈ rows, r'.key = r.key

/-- Rows of distinct keys, each with the bounds of its thread. -/
structure Clean (bounds : ℤ → Option MessageBounds) (rows : VectorTable) : Prop where
  once : (rows.map ThreadVectorRecord.key).Nodup
  bounds : ∀ r ∈ rows, bounds r.threadId = some (r.firstMessageAt, r.lastMessageAt)

/-- Rows of distinct keys are resolved alike: there is nothing to resolve. -/
theorem resolvedAlike_of_nodup {bounds : ℤ → Option MessageBounds} {source : VectorTable}
    (h : (source.map ThreadVectorRecord.key).Nodup) : ResolvedAlike bounds source := by
  intro threadId b _
  have hfind : ((source.findRecordsByThreadId threadId).map ThreadVectorRecord.key).Nodup :=
    h.sublist (List.filter_sublist.map _)
  have hbounds : (((source.findRecordsByThreadId threadId).map (·.withBounds b)).map ThreadVectorRecord.key).Nodup := by
    rw [List.map_map]
    exact hfind
  rw [normalizeVectorRecords_of_nodup hfind, normalizeVectorRecords_of_nodup hbounds,
    ← List.map_insertionSort (fun a b : ThreadVectorRecord => a.key ≤ b.key) (fun a b => a.key ≤ b.key) (·.withBounds b)
      _ fun _ _ _ _ => Iff.rfl, List.map_map]
  rfl

theorem checkEach_ok {α : Type} {f : α → Except String Unit} : ∀ {l : List α}, (∀ a ∈ l, f a = .ok ()) →
    checkEach l f = .ok ()
  | [], _ => rfl
  | a :: l, h => by
    rw [checkEach, h a List.mem_cons_self]
    exact checkEach_ok fun x hx => h x (List.mem_cons_of_mem _ hx)

theorem mem_uniqueThreadIds {rows : VectorTable} {threadId : ℤ} :
    threadId ∈ rows.uniqueThreadIds ↔ ∃ r ∈ rows, r.threadId = threadId := by
  simp [VectorTable.uniqueThreadIds]

theorem uniqueThreadIds_sorted (rows : VectorTable) : rows.uniqueThreadIds.Pairwise (· < ·) := by
  have hsorted : rows.uniqueThreadIds.Pairwise (· ≤ ·) := List.pairwise_insertionSort _ _
  have hnodup : rows.uniqueThreadIds.Nodup :=
    (List.perm_insertionSort _ _).nodup_iff.mpr (List.nodup_dedup _)
  exact (hsorted.and hnodup).imp fun h => lt_of_le_of_ne h.1 h.2

theorem stagedThread_spec {bounds : ℤ → Option MessageBounds} {source : VectorTable} {threadId : ℤ} :
    KeySorted (stagedThread bounds source threadId) ∧
      ∀ r ∈ stagedThread bounds source threadId, r.threadId = threadId ∧
        ∃ b, bounds threadId = some b ∧ ∃ r' ∈ source, r = r'.withBounds b := by
  rw [stagedThread]
  split
  · exact ⟨List.Pairwise.nil, fun r hr => absurd hr List.not_mem_nil⟩
  · next b hb =>
    obtain ⟨hsorted, hmem, -⟩ :=
      normalizeVectorRecords_spec ((source.findRecordsByThreadId threadId).map (·.withBounds b))
    refine ⟨hsorted, fun r hr => ?_⟩
    obtain ⟨r', hr', rfl⟩ := List.mem_map.mp (hmem r hr)
    obtain ⟨hsource, ht⟩ := List.mem_filter.mp hr'
    exact ⟨by simpa using ht, b, hb, r', hsource, rfl⟩

theorem flatMap_keySorted {f : ℤ → List ThreadVectorRecord} (hf : ∀ t, KeySorted (f t))
    (ht : ∀ t, ∀ r ∈ f t, r.threadId = t) : ∀ {ids : List ℤ}, ids.Pairwise (· < ·) → KeySorted (ids.flatMap f)
  | [], _ => List.Pairwise.nil
  | id :: ids, h => by
    obtain ⟨hlt, hids⟩ := List.pairwise_cons.mp h
    rw [List.flatMap_cons]
    refine List.pairwise_append.mpr ⟨hf id, flatMap_keySorted hf ht hids, ?_⟩
    intro a ha b hb
    obtain ⟨id', hid', hb⟩ := List.mem_flatMap.mp hb
    have hlt' : a.threadId < b.threadId := by
      rw [ht id a ha, ht id' b hb]
      exact hlt id' hid'
    exact Prod.Lex.lt_iff.mpr (.inl hlt')

theorem stagedRows_keySorted (bounds : ℤ → Option MessageBounds) (source : VectorTable) :
    KeySorted (stagedRows bounds source) :=
  flatMap_keySorted (fun _ => stagedThread_spec.1) (fun _ r hr => (stagedThread_spec.2 r hr).1)
    (uniqueThreadIds_sorted source)

theorem KeySorted.nodup {rows : VectorTable} (h : KeySorted rows) : (rows.map ThreadVectorRecord.key).Nodup :=
  List.pairwise_map.mpr (h.imp fun hlt => ne_of_lt hlt)

/-- **Staging makes a migrated table.** -/
theorem stagedRows_migrated (bounds : ℤ → Option MessageBounds) (source : VectorTable) :
    Migrated bounds source (stagedRows bounds source) where
  once := (stagedRows_keySorted bounds source).nodup
  from_source := by
    intro r hr
    obtain ⟨t, -, hr⟩ := List.mem_flatMap.mp hr
    obtain ⟨rfl, b, hb, hsource⟩ := stagedThread_spec.2 r hr
    exact ⟨b, hb, hsource⟩
  complete := by
    intro r hr hb
    obtain ⟨b, hb⟩ := Option.ne_none_iff_exists'.mp hb
    obtain ⟨-, -, hkeys⟩ :=
      normalizeVectorRecords_spec ((source.findRecordsByThreadId r.threadId).map (·.withBounds b))
    obtain ⟨r', hr', hkey⟩ := hkeys (r.withBounds b)
      (List.mem_map_of_mem (List.mem_filter.mpr ⟨hr, by simp⟩))
    refine ⟨r', List.mem_flatMap.mpr ⟨r.threadId, mem_uniqueThreadIds.mpr ⟨r, hr, rfl⟩, ?_⟩, hkey⟩
    rw [stagedThread, hb]
    exact hr'

/-- The rows of one thread in the staged table. -/
theorem find_stagedRows (bounds : ℤ → Option MessageBounds) (source : VectorTable) (threadId : ℤ) :
    (stagedRows bounds source).findRecordsByThreadId threadId =
      if threadId ∈ source.uniqueThreadIds then stagedThread bounds source threadId else [] := by
  have hgen : ∀ {ids : List ℤ}, ids.Nodup →
      VectorTable.findRecordsByThreadId (ids.flatMap (stagedThread bounds source)) threadId =
        if threadId ∈ ids then stagedThread bounds source threadId else [] := by
    intro ids hids
    induction ids with
    | nil => rfl
    | cons id ids ih =>
      obtain ⟨hnot, hids⟩ := List.nodup_cons.mp hids
      have ih := ih hids
      simp only [VectorTable.findRecordsByThreadId] at ih ⊢
      rw [List.flatMap_cons, List.filter_append, ih]
      by_cases h : threadId = id
      · subst h
        rw [if_neg hnot, if_pos List.mem_cons_self, List.append_nil, List.filter_eq_self]
        intro r hr
        simpa using (stagedThread_spec.2 r hr).1
      · have hnone : (stagedThread bounds source id).filter (·.threadId = threadId) = [] := by
          rw [List.filter_eq_nil_iff]
          intro r hr
          rw [(stagedThread_spec.2 r hr).1]
          simpa using fun h' => h h'.symm
        rw [hnone, List.nil_append]
        simp [h]
  exact hgen ((uniqueThreadIds_sorted source).imp fun h => ne_of_lt h)

theorem KeySorted.find {rows : VectorTable} (h : KeySorted rows) (threadId : ℤ) :
    KeySorted (rows.findRecordsByThreadId threadId) := List.Pairwise.filter _ h

theorem Clean.find {bounds : ℤ → Option MessageBounds} {rows : VectorTable} (h : Clean bounds rows) (threadId : ℤ) :
    ((rows.findRecordsByThreadId threadId).map ThreadVectorRecord.key).Nodup :=
  h.once.sublist (List.filter_sublist.map _)

/-- A clean table passes its check. -/
theorem Clean.verify {bounds : ℤ → Option MessageBounds} {rows : VectorTable} (h : Clean bounds rows) :
    verifyVectorTableAgainstRdb bounds rows = .ok () := by
  refine checkEach_ok fun threadId hid => ?_
  obtain ⟨r, hr, rfl⟩ := mem_uniqueThreadIds.mp hid
  have hin : r ∈ (rows.findRecordsByThreadId r.threadId).insertionSort fun a b => a.key ≤ b.key :=
    (List.mem_insertionSort _).mpr (List.mem_filter.mpr ⟨hr, by simp⟩)
  have hne : ((rows.findRecordsByThreadId r.threadId).insertionSort fun a b => a.key ≤ b.key).isEmpty = false := by
    rw [List.isEmpty_eq_false_iff]
    exact List.ne_nil_of_mem hin
  simp only [h.bounds r hr, normalizeVectorRecords_of_nodup (h.find r.threadId), check, hne]
  refine checkEach_ok fun r' hr' => ?_
  obtain ⟨hr'', ht⟩ := List.mem_filter.mp ((List.mem_insertionSort _).mp hr')
  have hb := h.bounds r' hr''
  rw [of_decide_eq_true ht, h.bounds r hr] at hb
  obtain ⟨hfirst, hlast⟩ := Prod.mk.inj (Option.some.inj hb)
  simp [hfirst, hlast]

theorem verifyMatching_map {checkMessageTimes : Bool} {expected actual : List ThreadVectorRecord}
    (h : if checkMessageTimes then expected = actual
      else expected.map (·.withBounds (none, none)) = actual.map (·.withBounds (none, none))) :
    verifyMatchingVectorRecords expected actual checkMessageTimes = .ok () := by
  have hsame : expected.length = actual.length ∧ ∀ p ∈ expected.zip actual, sameRow checkMessageTimes p.1 p.2 = true := by
    cases checkMessageTimes with
    | true =>
      obtain rfl : expected = actual := by simpa using h
      refine ⟨rfl, fun p hp => ?_⟩
      have hp : p.1 = p.2 := by
        clear h
        induction expected with
        | nil => cases hp
        | cons r rs ih =>
          rcases List.mem_cons.mp hp with rfl | hp
          · rfl
          · exact ih hp
      simp [sameRow, hp]
    | false =>
      simp only [Bool.false_eq_true, if_false] at h
      refine ⟨by simpa using congrArg List.length h, ?_⟩
      induction expected generalizing actual with
      | nil => intro p hp; cases hp
      | cons r rs ih =>
        cases actual with
        | nil => intro p hp; cases hp
        | cons r' rs' =>
          rw [List.map_cons, List.map_cons, List.cons.injEq] at h
          intro p hp
          rcases List.mem_cons.mp hp with rfl | hp
          · simp [sameRow, h.1]
          · exact ih h.2 p hp
  rw [verifyMatchingVectorRecords]
  simp only [check, hsame.1, decide_true, if_true]
  exact checkEach_ok fun p hp => by simp [hsame.2 p hp]

/-- A table of distinct keys is identical to itself. -/
theorem Clean.identical {bounds : ℤ → Option MessageBounds} {rows : VectorTable} (h : Clean bounds rows) :
    verifyIdenticalVectorTables rows rows = .ok () := by
  rw [verifyIdenticalVectorTables]
  simp only [check, decide_true, if_true]
  refine checkEach_ok fun threadId _ => ?_
  simp only [normalizeVectorRecords_of_nodup (h.find threadId)]
  exact verifyMatching_map (by simp)

theorem Clean.equivalent {bounds : ℤ → Option MessageBounds} {rows : VectorTable} (h : Clean bounds rows) :
    verifyEquivalentVectorTables bounds rows rows = .ok () := by
  rw [verifyEquivalentVectorTables, h.verify]
  exact h.identical

theorem stagedRows_clean (bounds : ℤ → Option MessageBounds) (source : VectorTable) :
    Clean bounds (stagedRows bounds source) where
  once := (stagedRows_keySorted bounds source).nodup
  bounds := by
    intro r hr
    obtain ⟨b, hb, r', -, rfl⟩ := (stagedRows_migrated bounds source).from_source r hr
    exact hb

/-- **The staged table passes the checks** against the database and against its source. -/
theorem verifyStagingAgainstCanonical_staged {bounds : ℤ → Option MessageBounds} {source : VectorTable}
    (halike : ResolvedAlike bounds source) :
    verifyStagingAgainstCanonical bounds source (stagedRows bounds source) = .ok () := by
  have hsorted := stagedRows_keySorted bounds source
  have hfirst : (checkEach source.uniqueThreadIds fun threadId => do
      let (source', _) := normalizeVectorRecords (source.findRecordsByThreadId threadId)
      let (target, targetDuplicates) :=
        normalizeVectorRecords ((stagedRows bounds source).findRecordsByThreadId threadId)
      check (targetDuplicates = 0) "staging ThreadVector retained duplicate row identifiers"
      match bounds threadId with
      | none => check target.isEmpty "staging retained orphan ThreadVector rows"
      | some _ => verifyMatchingVectorRecords source' target false) = .ok () := by
    refine checkEach_ok fun threadId hid => ?_
    simp only [normalizeVectorRecords_of_keySorted (hsorted.find threadId)]
    cases hb : bounds threadId with
    | none =>
      have hnil : (stagedRows bounds source).findRecordsByThreadId threadId = [] := by
        rw [find_stagedRows, if_pos hid, stagedThread, hb]
      simp [hnil, check]
      rfl
    | some b =>
      have hfind : (stagedRows bounds source).findRecordsByThreadId threadId =
          (normalizeVectorRecords ((source.findRecordsByThreadId threadId).map (·.withBounds b))).1 := by
        rw [find_stagedRows, if_pos hid, stagedThread, hb]
      rw [hfind]
      exact verifyMatching_map (by simpa using (halike threadId b hb).symm)
  have hsecond : (checkEach (stagedRows bounds source).uniqueThreadIds fun threadId =>
      check (!(source.findRecordsByThreadId threadId).isEmpty) "staging contains a row absent from canonical") =
        .ok () := by
    refine checkEach_ok fun threadId hid => ?_
    obtain ⟨r, hr, rfl⟩ := mem_uniqueThreadIds.mp hid
    obtain ⟨b, -, r', hr', rfl⟩ := (stagedRows_migrated bounds source).from_source r hr
    have hin : r' ∈ source.findRecordsByThreadId (r'.withBounds b).threadId := List.mem_filter.mpr ⟨hr', by simp⟩
    have hne : (source.findRecordsByThreadId (r'.withBounds b).threadId).isEmpty = false := by
      rw [List.isEmpty_eq_false_iff]
      exact List.ne_nil_of_mem hin
    rw [check, hne]
    rfl
  rw [verifyStagingAgainstCanonical, (stagedRows_clean bounds source).verify]
  show (do checkEach _ _; checkEach _ _ : Except String Unit) = .ok ()
  rw [hfirst]
  exact hsecond

/-! ## Filling the staging table -/

theorem mergeInsert_new : ∀ {records : List ThreadVectorRecord} {rows : VectorTable},
    ((rows ++ records).map ThreadVectorRecord.key).Nodup → rows.mergeInsert records = rows ++ records
  | [], rows, _ => by simp [VectorTable.mergeInsert]
  | r :: records, rows, h => by
    have hnone : rows.any (·.key = r.key) = false := by
      rw [List.any_eq_false]
      intro r' hr' heq
      rw [List.map_append, List.nodup_append] at h
      exact h.2.2 _ (List.mem_map_of_mem hr') _ (List.mem_map_of_mem List.mem_cons_self) (by simpa using heq)
    have hstep : rows.upsertRow r = rows ++ [r] := by
      rw [VectorTable.upsertRow, hnone]
      rfl
    show VectorTable.mergeInsert (rows.upsertRow r) records = _
    rw [hstep, mergeInsert_new (by simpa using h), List.append_assoc]
    rfl

end MemoryStore.DataMigration
