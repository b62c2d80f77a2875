/-
The work of a redispatch (`app/src/app/reflection/redispatch.rs`): the rows that
meet the filter, scanned page by page in descending memory id, and for BOTH the
rows whose intent is pending or failed merged into them. A page of these is
merged from one page of each status and cut to the page size; its last id is the
cursor of both scans.

Whatever the page size, every row that meets the filter is collected once, in
descending memory id.
-/
import MemoryStore.Lib.KeyMap
import MemoryStore.Reflection.Filter

namespace MemoryStore.Reflection

open PageWalk

/-! ## The scans -/

/-- `EMBEDDING_STATUS_PENDING`. -/
def embeddingStatusPending : Int := 1

/-- `EMBEDDING_STATUS_FAILED`. -/
def embeddingStatusFailed : Int := 3

/-- `EmbeddingKind`, of a request that names one. -/
inductive EmbeddingKind where
  | summary
  | intent
  | both
  deriving DecidableEq, Repr

structure WorkItem (α : Type) where
  row : SidecarRow α
  wantSummary : Bool
  wantIntent : Bool
  deriving DecidableEq, Repr

/-- The id a work item is filed under. -/
def WorkItem.memoryId {α : Type} (item : WorkItem α) : Int := item.row.memoryId

section

variable {α : Type} [LE α] [DecidableLE α]

/-- `scan_all_pages`. -/
def scanAllPages (t : Sidecar α) (resolved : ResolvedFilter α) (pageSize fuel : Nat) : Option (List (SidecarRow α)) :=
  walk SidecarRow.memoryId (fun cursor => t.searchIndex { resolved with memoryIdLt := cursor } pageSize) fuel none

/-- `collect_intent_rows_for_page`. -/
def collectIntentRowsForPage (t : Sidecar α) (resolved : ResolvedFilter α) (limit : Nat) (cursor : Option Int) :
    List (SidecarRow α) :=
  if resolved.intentEmbeddingStatus.isSome then t.searchIndex { resolved with memoryIdLt := cursor } limit
  else
    let pendingFilter := { resolved with intentEmbeddingStatus := some embeddingStatusPending, memoryIdLt := cursor }
    let failedFilter := { resolved with intentEmbeddingStatus := some embeddingStatusFailed, memoryIdLt := cursor }
    let pendingRows := t.searchIndex pendingFilter limit
    let failedRows := t.searchIndex failedFilter limit
    let byId := KeyMap.collect SidecarRow.memoryId (pendingRows ++ failedRows)
    (newest SidecarRow.memoryId byId.values).take limit

/-- `collect_intent_rows`: the first page only. -/
def collectIntentRows (t : Sidecar α) (resolved : ResolvedFilter α) (limit : Nat) : List (SidecarRow α) :=
  (collectIntentRowsForPage t resolved limit none).take limit

/-- `collect_intent_rows_all_pages`. -/
def collectIntentRowsAllPages (t : Sidecar α) (resolved : ResolvedFilter α) (pageSize fuel : Nat) :
    Option (List (SidecarRow α)) :=
  if resolved.intentEmbeddingStatus.isSome then scanAllPages t resolved pageSize fuel
  else walk SidecarRow.memoryId (collectIntentRowsForPage t resolved pageSize) fuel none

/-- `entry(…).and_modify(…).or_insert(…)` for a row whose intent is wanted. -/
def wantIntent (byId : KeyMap Int (WorkItem α)) (row : SidecarRow α) : KeyMap Int (WorkItem α) :=
  match byId.lookup row.memoryId with
  | some item => byId.insert row.memoryId { item with wantIntent := true }
  | none => byId.insert row.memoryId ⟨row, false, true⟩

/-- `collect_both_work_items`. -/
def collectBothWorkItems (t : Sidecar α) (resolved : ResolvedFilter α) (pageSize fuel : Nat) :
    Option (List (WorkItem α)) := do
  let summaryRows ← scanAllPages t resolved pageSize fuel
  if resolved.intentEmbeddingStatus.isSome then
    some (newest WorkItem.memoryId (summaryRows.map fun row => ⟨row, true, true⟩))
  else
    let intentRows ← collectIntentRowsAllPages t resolved pageSize fuel
    let byId := KeyMap.collect WorkItem.memoryId (summaryRows.map fun row => ⟨row, true, false⟩)
    some (newest WorkItem.memoryId (intentRows.foldl wantIntent byId).values)

/-- `collect_work_items`. -/
def collectWorkItems (t : Sidecar α) (resolved : ResolvedFilter α) (kind : EmbeddingKind) (limit fuel : Nat) :
    Option (List (WorkItem α)) :=
  match kind with
  | .summary => (scanAllPages t resolved limit fuel).map (·.map fun row => ⟨row, true, false⟩)
  | .intent => some ((collectIntentRows t resolved limit).map fun row => ⟨row, false, true⟩)
  | .both => collectBothWorkItems t resolved limit fuel

/-! ## The rows that are scanned -/

/-- The rows that meet a filter, in descending memory id. -/
def Sidecar.matching (t : Sidecar α) (f : ResolvedFilter α) : List (SidecarRow α) :=
  newest SidecarRow.memoryId (t.rows.filter (f.admits t))

theorem Sidecar.matching_descending (t : Sidecar α) (f : ResolvedFilter α) :
    Descending SidecarRow.memoryId (t.matching f) :=
  newest_descending (t.unique.sublist (List.filter_sublist.map _))

theorem Sidecar.mem_matching {t : Sidecar α} {f : ResolvedFilter α} {row : SidecarRow α} :
    row ∈ t.matching f ↔ row ∈ t.rows ∧ f.admits t row = true := by
  unfold Sidecar.matching
  rw [mem_newest, List.mem_filter]

/-- A page of a scan is cut from the rows below the cursor. -/
theorem Sidecar.searchIndex_below (t : Sidecar α) {f : ResolvedFilter α} (hf : f.memoryIdLt = none)
    (cursor : Option Int) (limit : Nat) :
    t.searchIndex { f with memoryIdLt := cursor } limit =
      ((t.matching f).filter fun row => isBelow cursor row.memoryId).take limit := by
  have hnone : { f with memoryIdLt := none } = f := by rw [← hf]
  refine congrArg (List.take limit) ?_
  refine (t.matching_descending _).eq_of_mem ((t.matching_descending f).filter _) fun row => ?_
  rw [List.mem_filter, t.mem_matching, t.mem_matching, admits_memoryIdLt, hnone, Bool.and_eq_true, and_assoc]

theorem scanAllPages_exact (t : Sidecar α) {f : ResolvedFilter α} (hf : f.memoryIdLt = none) {pageSize fuel : Nat}
    (hsize : 1 ≤ pageSize) (hfuel : t.rows.length < fuel) : scanAllPages t f pageSize fuel = some (t.matching f) := by
  refine walk_exact (t.matching_descending f) hsize (fun cursor => t.searchIndex_below hf cursor pageSize) ?_
  refine lt_of_le_of_lt ?_ hfuel
  rw [show (t.matching f).length = (t.rows.filter (f.admits t)).length from (newest_perm _ _).length_eq]
  exact List.length_filter_le _ _

/-! ## The rows whose intent is wanted -/

/-- The matching rows with a status, below a cursor. -/
def Sidecar.below (t : Sidecar α) (f : ResolvedFilter α) (status : SidecarRow α → Bool) (cursor : Option Int) :
    List (SidecarRow α) :=
  ((t.matching f).filter status).filter fun row => isBelow cursor row.memoryId

/-- The status of the intent is this one. -/
def SidecarRow.intentIs (status : Int) (row : SidecarRow α) : Bool := decide (row.intentEmbeddingStatus = status)

/-- The intent of a row is pending or failed. -/
def SidecarRow.intentOpen (row : SidecarRow α) : Bool :=
  row.intentIs embeddingStatusPending || row.intentIs embeddingStatusFailed

theorem Sidecar.below_descending (t : Sidecar α) (f : ResolvedFilter α) (status : SidecarRow α → Bool)
    (cursor : Option Int) : Descending SidecarRow.memoryId (t.below f status cursor) :=
  ((t.matching_descending f).filter status).filter _

theorem Sidecar.mem_below {t : Sidecar α} {f : ResolvedFilter α} {status : SidecarRow α → Bool} {cursor : Option Int}
    {row : SidecarRow α} : row ∈ t.below f status cursor ↔
      (row ∈ t.matching f ∧ status row = true) ∧ isBelow cursor row.memoryId = true := by
  unfold Sidecar.below
  rw [List.mem_filter, List.mem_filter]

/-- A filter that leaves the status open, narrowed to one status, scans the rows of that status. -/
theorem Sidecar.searchIndex_status (t : Sidecar α) {f : ResolvedFilter α} (hf : f.memoryIdLt = none)
    (hs : f.intentEmbeddingStatus = none) (status : Int) (cursor : Option Int) (limit : Nat) :
    t.searchIndex { f with intentEmbeddingStatus := some status, memoryIdLt := cursor } limit =
      (t.below f (SidecarRow.intentIs status) cursor).take limit := by
  have hnone : { f with intentEmbeddingStatus := none } = f := by rw [← hs]
  have hopen : ({ f with intentEmbeddingStatus := some status } : ResolvedFilter α).memoryIdLt = none := hf
  have hpage := t.searchIndex_below hopen cursor limit
  refine hpage.trans (congrArg (List.take limit) ?_)
  refine ((t.matching_descending _).filter _).eq_of_mem (t.below_descending f _ cursor) fun row => ?_
  rw [List.mem_filter, t.mem_below, t.mem_matching, t.mem_matching, admits_intentEmbeddingStatus, hnone,
    Bool.and_eq_true]
  simp only [and_assoc, SidecarRow.intentIs]

/-- A row has one status, so no id is on the pages of two. -/
theorem Sidecar.nodup_statusPages (t : Sidecar α) (f : ResolvedFilter α) (cursor : Option Int) (limit : Nat) :
    (((t.below f (SidecarRow.intentIs embeddingStatusPending) cursor).take limit ++
      (t.below f (SidecarRow.intentIs embeddingStatusFailed) cursor).take limit).map SidecarRow.memoryId).Nodup := by
  rw [List.map_append, List.nodup_append]
  refine ⟨((t.below_descending f _ cursor).take limit).nodup_keys,
    ((t.below_descending f _ cursor).take limit).nodup_keys, fun a ha b hb heq => ?_⟩
  obtain ⟨row, hrow, rfl⟩ := List.mem_map.1 ha
  obtain ⟨row', hrow', rfl⟩ := List.mem_map.1 hb
  have hpending := (t.mem_below.1 (List.mem_of_mem_take hrow)).1
  have hfailed := (t.mem_below.1 (List.mem_of_mem_take hrow')).1
  have hsame := List.inj_on_of_nodup_map (t.matching_descending f).nodup_keys hpending.1 hfailed.1 heq
  subst hsame
  have hp : row.intentEmbeddingStatus = embeddingStatusPending := of_decide_eq_true hpending.2
  have hq : row.intentEmbeddingStatus = embeddingStatusFailed := of_decide_eq_true hfailed.2
  exact absurd (hp.symm.trans hq) (by decide)

/-- **A page of the merged scans is cut from the open rows below the cursor.** -/
theorem collectIntentRowsForPage_below (t : Sidecar α) {f : ResolvedFilter α} (hf : f.memoryIdLt = none)
    (hs : f.intentEmbeddingStatus = none) (limit : Nat) (cursor : Option Int) :
    collectIntentRowsForPage t f limit cursor = (t.below f SidecarRow.intentOpen cursor).take limit := by
  unfold collectIntentRowsForPage
  rw [if_neg (by simp [hs])]
  dsimp only
  rw [t.searchIndex_status hf hs, t.searchIndex_status hf hs]
  have hmerged := newest_descending (KeyMap.nodup_values (@KeyMap.keyed_collect _ _ _ SidecarRow.memoryId
    ((t.below f (SidecarRow.intentIs embeddingStatusPending) cursor).take limit ++
      (t.below f (SidecarRow.intentIs embeddingStatusFailed) cursor).take limit)))
  refine take_merge (t.below_descending f (SidecarRow.intentIs embeddingStatusPending) cursor)
    (t.below_descending f (SidecarRow.intentIs embeddingStatusFailed) cursor) (t.below_descending f _ cursor)
    (fun row => ?_) hmerged fun row => ?_
  · rw [t.mem_below, t.mem_below, t.mem_below]
    unfold SidecarRow.intentOpen
    rw [Bool.or_eq_true]
    tauto
  · rw [mem_newest, KeyMap.mem_values_collect (t.nodup_statusPages f cursor limit), List.mem_append]

/-- The merged scans list the open rows. -/
theorem collectIntentRowsAllPages_exact (t : Sidecar α) {f : ResolvedFilter α} (hf : f.memoryIdLt = none)
    (hs : f.intentEmbeddingStatus = none) {pageSize fuel : Nat} (hsize : 1 ≤ pageSize) (hfuel : t.rows.length < fuel) :
    collectIntentRowsAllPages t f pageSize fuel = some ((t.matching f).filter SidecarRow.intentOpen) := by
  unfold collectIntentRowsAllPages
  rw [if_neg (by simp [hs])]
  refine walk_exact ((t.matching_descending f).filter _) hsize
    (fun cursor => collectIntentRowsForPage_below t hf hs pageSize cursor) ?_
  have hlen : (t.matching f).length = (t.rows.filter (f.admits t)).length := (newest_perm _ _).length_eq
  have h1 := List.length_filter_le SidecarRow.intentOpen (t.matching f)
  have h2 := List.length_filter_le (f.admits t) t.rows
  omega

/-! ## The two merged -/

/-- The work item of a matching row: its summary is wanted, and its intent if it is open. -/
def bothItem (row : SidecarRow α) : WorkItem α := ⟨row, true, row.intentOpen⟩

/-- What rows whose intent is wanted do to the item of an id, when each of them has one. -/
theorem lookup_wantIntent (k : Int) : ∀ (rows : List (SidecarRow α)) (byId : KeyMap Int (WorkItem α)),
    (∀ row ∈ rows, (byId.lookup row.memoryId).isSome = true) →
      (rows.foldl wantIntent byId).lookup k =
        (byId.lookup k).map fun item => if rows.any (·.memoryId = k) then { item with wantIntent := true } else item
  | [], byId, _ => by simp
  | row :: rows, byId, h => by
    obtain ⟨item, hitem⟩ := Option.isSome_iff_exists.1 (h row List.mem_cons_self)
    have hstep : wantIntent byId row = byId.insert row.memoryId { item with wantIntent := true } := by
      unfold wantIntent
      rw [hitem]
    rw [List.foldl_cons, hstep, lookup_wantIntent k rows _ fun r hr => ?_]
    · by_cases hk : k = row.memoryId
      · subst hk
        rw [AList.lookup_insert, hitem]
        simp
      · have hk' : ¬row.memoryId = k := fun h => hk h.symm
        rw [AList.lookup_insert_ne hk]
        simp [hk']
    · by_cases hk : r.memoryId = row.memoryId
      · rw [hk, AList.lookup_insert]
        rfl
      · rw [AList.lookup_insert_ne hk]
        exact h r (List.mem_cons_of_mem _ hr)

/-- **BOTH collects every matching row once, its intent wanted where it is open.** -/
theorem collectBothWorkItems_open (t : Sidecar α) {f : ResolvedFilter α} (hf : f.memoryIdLt = none)
    (hs : f.intentEmbeddingStatus = none) {pageSize fuel : Nat} (hsize : 1 ≤ pageSize) (hfuel : t.rows.length < fuel) :
    collectBothWorkItems t f pageSize fuel = some ((t.matching f).map bothItem) := by
  unfold collectBothWorkItems
  simp only [scanAllPages_exact t hf hsize hfuel, collectIntentRowsAllPages_exact t hf hs hsize hfuel, hs,
    Option.isSome_none, Bool.false_eq_true, if_false, Option.bind_eq_bind, Option.bind_some, Option.some.injEq]
  have hids : ((t.matching f).map fun row => (⟨row, true, false⟩ : WorkItem α)).map WorkItem.memoryId =
      (t.matching f).map SidecarRow.memoryId := by
    rw [List.map_map]
    rfl
  have hn := (t.matching_descending f).nodup_keys
  have hlookup : ∀ k, ((KeyMap.collect WorkItem.memoryId ((t.matching f).map fun row => ⟨row, true, false⟩)).lookup k) =
      ((t.matching f).find? (·.memoryId = k)).map fun row => (⟨row, true, false⟩ : WorkItem α) := by
    intro k
    rw [KeyMap.lookup_collect (by rw [hids]; exact hn), List.find?_map]
    rfl
  have hfind : ∀ {row : SidecarRow α}, row ∈ t.matching f →
      (t.matching f).find? (·.memoryId = row.memoryId) = some row := fun hrow =>
    (Table.find?_eq_some_of_nodup hn).2 ⟨hrow, rfl⟩
  have hall : ∀ k, (((t.matching f).filter SidecarRow.intentOpen).foldl wantIntent
      (KeyMap.collect WorkItem.memoryId ((t.matching f).map fun row => ⟨row, true, false⟩))).lookup k =
        ((t.matching f).find? (·.memoryId = k)).map bothItem := by
    intro k
    rw [lookup_wantIntent k _ _ fun row hrow => ?_, hlookup]
    · cases hk : (t.matching f).find? (·.memoryId = k) with
      | none => rfl
      | some row =>
        obtain ⟨hrow, hid⟩ := (Table.find?_eq_some_of_nodup hn).1 hk
        -- an open row of this id is this row
        have hany : ((t.matching f).filter SidecarRow.intentOpen).any (·.memoryId = k) = row.intentOpen := by
          rw [Bool.eq_iff_iff, List.any_eq_true]
          constructor
          · rintro ⟨r, hr, hrid⟩
            obtain ⟨hr, hopen⟩ := List.mem_filter.1 hr
            have hrid : r.memoryId = row.memoryId := (of_decide_eq_true hrid).trans hid.symm
            exact List.inj_on_of_nodup_map hn hr hrow hrid ▸ hopen
          · intro hopen
            exact ⟨row, List.mem_filter.2 ⟨hrow, hopen⟩, decide_eq_true hid⟩
        simp only [Option.map_some, hany, bothItem]
        cases row.intentOpen <;> rfl
    · rw [hlookup, hfind (List.mem_filter.1 hrow).1]
      rfl
  have hkeyed : KeyMap.Keyed WorkItem.memoryId (((t.matching f).filter SidecarRow.intentOpen).foldl wantIntent
      (KeyMap.collect WorkItem.memoryId ((t.matching f).map fun row => ⟨row, true, false⟩))) := by
    intro k item hk
    rw [hall] at hk
    obtain ⟨row, hrow, rfl⟩ := Option.map_eq_some_iff.1 hk
    exact ((Table.find?_eq_some_of_nodup hn).1 hrow).2
  refine (newest_descending (KeyMap.nodup_values hkeyed)).eq_of_mem ?_ fun item => ?_
  · exact List.pairwise_map.2 (t.matching_descending f)
  · rw [mem_newest, KeyMap.mem_values hkeyed, hall, Option.map_eq_some_iff, List.mem_map]
    constructor
    · rintro ⟨row, hrow, hitem⟩
      exact ⟨row, ((Table.find?_eq_some_of_nodup hn).1 hrow).1, hitem⟩
    · rintro ⟨row, hrow, rfl⟩
      exact ⟨row, hfind hrow, rfl⟩

/-! ## Every matching row once -/

/-- What a redispatch of a kind is to collect: each row that meets the filter, once and
in descending memory id, its summary wanted, and for BOTH its intent where it is open
or the filter names the status. -/
structure Covers (t : Sidecar α) (f : ResolvedFilter α) (both : Bool) (items : List (WorkItem α)) : Prop where
  descending : items.Pairwise fun a b => b.row.memoryId < a.row.memoryId
  rows : ∀ row, (∃ item ∈ items, item.row = row) ↔ row ∈ t.rows ∧ f.admits t row = true
  summary : ∀ item ∈ items, item.wantSummary = true
  intent : ∀ item ∈ items, item.wantIntent = true ↔ both = true ∧ (f.intentEmbeddingStatus.isSome = true ∨
    item.row.intentEmbeddingStatus = embeddingStatusPending ∨ item.row.intentEmbeddingStatus = embeddingStatusFailed)

/-- Items made of the matching rows in their order. -/
theorem covers_map (t : Sidecar α) (f : ResolvedFilter α) (both : Bool) (want : SidecarRow α → Bool)
    (hwant : ∀ row, want row = true ↔ both = true ∧ (f.intentEmbeddingStatus.isSome = true ∨
      row.intentEmbeddingStatus = embeddingStatusPending ∨ row.intentEmbeddingStatus = embeddingStatusFailed)) :
    Covers t f both ((t.matching f).map fun row => ⟨row, true, want row⟩) where
  descending := List.pairwise_map.2 (t.matching_descending f)
  rows row := by
    rw [← t.mem_matching]
    constructor
    · rintro ⟨item, hitem, rfl⟩
      obtain ⟨row, hrow, rfl⟩ := List.mem_map.1 hitem
      exact hrow
    · intro hrow
      exact ⟨_, List.mem_map_of_mem hrow, rfl⟩
  summary item hitem := by
    obtain ⟨row, -, rfl⟩ := List.mem_map.1 hitem
    rfl
  intent item hitem := by
    obtain ⟨row, -, rfl⟩ := List.mem_map.1 hitem
    exact hwant row

/-- **Redispatch covers every matching reflection once**: the work collected for SUMMARY
or BOTH is the same for every page size from 1 on, with each row that meets the
filter once, in descending memory id. -/
theorem collectWorkItems_covers (t : Sidecar α) {f : ResolvedFilter α} (hf : f.memoryIdLt = none) (both : Bool) :
    ∃ items, Covers t f both items ∧ ∀ limit, 1 ≤ limit → ∃ enough, ∀ fuel, enough ≤ fuel →
      collectWorkItems t f (if both then .both else .summary) limit fuel = some items := by
  cases both with
  | false =>
    refine ⟨_, covers_map t f false (fun _ => false) (by simp),
      fun limit hlimit => ⟨t.rows.length + 1, fun fuel hfuel => ?_⟩⟩
    simp only [Bool.false_eq_true, if_false, collectWorkItems, scanAllPages_exact t hf hlimit hfuel, Option.map_some]
  | true =>
    cases hs : f.intentEmbeddingStatus with
    | some status =>
      refine ⟨_, covers_map t f true (fun _ => true) (by simp [hs]),
        fun limit hlimit => ⟨t.rows.length + 1, fun fuel hfuel => ?_⟩⟩
      have hdesc : Descending WorkItem.memoryId ((t.matching f).map fun row => (⟨row, true, true⟩ : WorkItem α)) :=
        List.pairwise_map.2 (t.matching_descending f)
      simp only [if_true, collectWorkItems, collectBothWorkItems, scanAllPages_exact t hf hlimit hfuel, hs,
        Option.isSome_some, Option.bind_eq_bind, Option.bind_some, newest_of_descending hdesc]
    | none =>
      refine ⟨_, covers_map t f true SidecarRow.intentOpen (by simp [hs, SidecarRow.intentOpen, SidecarRow.intentIs]),
        fun limit hlimit => ⟨t.rows.length + 1, fun fuel hfuel => ?_⟩⟩
      exact collectBothWorkItems_open t hf hs hlimit hfuel

end

/-! ## Three reflections -/

/-- A row with an id and the status of its intent. -/
def sidecarRow (memoryId intentEmbeddingStatus : Int) : SidecarRow ℤ :=
  { memoryId, originThreadId := 1, originUserId := 1, originChannel := none, outcome := 1, score := 1
    taskCategory := 1, reflectionAspect := 1, datasetQuality := 1, summaryEmbeddingStatus := 2, intentEmbeddingStatus
    promptVersion := "v1", targetModelVersion := none, experimentId := none, experimentVariant := none
    pinned := false, isRecurrence := false, createdAt := 0 }

/-- The intents of three reflections: done, failed and pending. -/
def threeReflections : Sidecar ℤ where
  rows := [sidecarRow 7 2, sidecarRow 9 3, sidecarRow 8 1]
  failureModes := []
  tools := []
  unique := show [(7 : Int), 9, 8].Nodup by decide

/-- The filter of a request for the reflections of user 1. -/
def ofUserOne : ResolvedFilter ℤ := resolvedFilter (some { originUserId := some 1 })

theorem threeReflections_covered :
    ∃ items, Covers threeReflections ofUserOne true items ∧ ∀ limit, 1 ≤ limit → ∃ enough, ∀ fuel, enough ≤ fuel →
      collectWorkItems threeReflections ofUserOne .both limit fuel = some items :=
  collectWorkItems_covers threeReflections (resolvedFilter_memoryIdLt _) true

end MemoryStore.Reflection
