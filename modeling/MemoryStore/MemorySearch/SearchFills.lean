/-
Searches fill their limit with the best live memories, but for two cases.

The searches by one query drop stale rows and repeated memories before they cut
off, so nothing displaces a live memory. The search by several vectors cuts off
first: a stale memory among the best takes a place it then leaves empty. And
under the dot distance a row scores the more the farther it is, so the rows come
worst first. `search_fills_iff` says when a search keeps its promise.
-/
import MemoryStore.MemorySearch.Search
import MemoryStore.MemorySearch.PerMemory
import MemoryStore.Lib.Fallible

namespace MemoryStore.MemorySearch

open FirstOfEach

/-! ## One row for each memory -/

/-- What the collapse has after some hits: their memories in order, and the best row of each. -/
structure DedupInv (hits : List VectorSearchHit) (state : List Int × KeyMap Int VectorSearchHit) : Prop where
  order : state.1 = (firstOfEach VectorSearchHit.memoryId hits).map VectorSearchHit.memoryId
  absent : ∀ id, state.2.lookup id = none → ∀ hit ∈ hits, hit.memoryId ≠ id
  present : ∀ id best, state.2.lookup id = some best →
    best ∈ hits ∧ best.memoryId = id ∧ ∀ hit ∈ hits, hit.memoryId = id → hit.score ≤ best.score

/-- One hit more. -/
def dedupStep (state : List Int × KeyMap Int VectorSearchHit) (hit : VectorSearchHit) :
    List Int × KeyMap Int VectorSearchHit :=
  match state with
  | (order, best) =>
    match AList.lookup hit.memoryId best with
    | none => (order ++ [hit.memoryId], best.insert hit.memoryId hit)
    | some existing => if existing.score < hit.score then (order, best.insert hit.memoryId hit) else (order, best)

theorem dedupStep_inv {hits : List VectorSearchHit} {state : List Int × KeyMap Int VectorSearchHit}
    (hinv : DedupInv hits state) (hit : VectorSearchHit) : DedupInv (hits ++ [hit]) (dedupStep state hit) := by
  obtain ⟨order, best⟩ := state
  have hlast : ∀ other ∈ hits ++ [hit], other ∈ hits ∨ other = hit := fun other h => by
    rcases List.mem_append.1 h with h | h
    · exact .inl h
    · exact .inr (List.mem_singleton.1 h)
  have hsingle : hit ∈ hits ++ [hit] := List.mem_append_right _ (List.mem_singleton.2 rfl)
  unfold dedupStep
  dsimp only
  cases hlookup : AList.lookup hit.memoryId best with
  | none =>
    -- a memory not seen so far
    have hnew := hinv.absent _ hlookup
    refine ⟨?_, fun id hid other hother => ?_, fun id b hid => ?_⟩
    · rw [firstOfEach_append_singleton, if_neg (fun ⟨b, hb, heq⟩ => hnew b hb heq), List.map_append, ← hinv.order]
      rfl
    · by_cases heq : id = hit.memoryId
      · rw [heq, AList.lookup_insert] at hid
        cases hid
      · rw [AList.lookup_insert_ne heq] at hid
        rcases hlast other hother with h | rfl
        · exact hinv.absent id hid other h
        · exact Ne.symm heq
    · by_cases heq : id = hit.memoryId
      · rw [heq, AList.lookup_insert] at hid
        obtain rfl := Option.some.inj hid
        refine ⟨hsingle, heq.symm, fun other hother hsame => ?_⟩
        rcases hlast other hother with h | rfl
        · exact absurd (hsame.trans heq) (hnew other h)
        · exact le_refl _
      · rw [AList.lookup_insert_ne heq] at hid
        obtain ⟨hmem, hid', hmax⟩ := hinv.present id b hid
        refine ⟨List.mem_append_left _ hmem, hid', fun other hother hsame => ?_⟩
        rcases hlast other hother with h | rfl
        · exact hmax other h hsame
        · exact absurd hsame.symm heq
  | some existing =>
    obtain ⟨hex, hexid, hexmax⟩ := hinv.present _ _ hlookup
    have horder : order = (firstOfEach VectorSearchHit.memoryId (hits ++ [hit])).map VectorSearchHit.memoryId := by
      rw [firstOfEach_append_singleton, if_pos ⟨existing, hex, hexid⟩]
      exact hinv.order
    dsimp only
    split
    next hlt =>
      -- a better row replaces the one before
      refine ⟨horder, fun id hid other hother => ?_, fun id b hid => ?_⟩
      · by_cases heq : id = hit.memoryId
        · rw [heq, AList.lookup_insert] at hid
          cases hid
        · rw [AList.lookup_insert_ne heq] at hid
          rcases hlast other hother with h | rfl
          · exact hinv.absent id hid other h
          · exact Ne.symm heq
      · by_cases heq : id = hit.memoryId
        · rw [heq, AList.lookup_insert] at hid
          obtain rfl := Option.some.inj hid
          refine ⟨hsingle, heq.symm, fun other hother hsame => ?_⟩
          rcases hlast other hother with h | rfl
          · exact (hexmax other h (hsame.trans heq)).trans (le_of_lt hlt)
          · exact le_refl _
        · rw [AList.lookup_insert_ne heq] at hid
          obtain ⟨hmem, hid', hmax⟩ := hinv.present id b hid
          refine ⟨List.mem_append_left _ hmem, hid', fun other hother hsame => ?_⟩
          rcases hlast other hother with h | rfl
          · exact hmax other h hsame
          · exact absurd hsame.symm heq
    next hge =>
      refine ⟨horder, fun id hid other hother => ?_, fun id b hid => ?_⟩
      · rcases hlast other hother with h | rfl
        · exact hinv.absent id hid other h
        · intro heq
          rw [← heq, hlookup] at hid
          cases hid
      · obtain ⟨hmem, hid', hmax⟩ := hinv.present id b hid
        refine ⟨List.mem_append_left _ hmem, hid', fun other hother hsame => ?_⟩
        rcases hlast other hother with h | rfl
        · exact hmax other h hsame
        · rw [← hsame, hlookup] at hid
          obtain rfl := Option.some.inj hid
          exact not_lt.1 hge

theorem dedup_inv (hits : List VectorSearchHit) : DedupInv hits (hits.foldl dedupStep ([], ∅)) := by
  suffices h : ∀ (rest seen : List VectorSearchHit) state, DedupInv seen state →
      DedupInv (seen ++ rest) (rest.foldl dedupStep state) by
    have hempty : DedupInv [] (([] : List Int), (∅ : KeyMap Int VectorSearchHit)) :=
      ⟨rfl, fun _ _ _ hmem => absurd hmem List.not_mem_nil, fun id _ hid => by
        rw [AList.lookup_empty] at hid
        cases hid⟩
    exact h hits [] _ hempty
  intro rest
  induction rest with
  | nil => intro seen state hinv; rwa [List.append_nil]
  | cons hit rest ih =>
    intro seen state hinv
    have := ih (seen ++ [hit]) _ (dedupStep_inv hinv hit)
    rwa [List.append_assoc] at this

/-- **The collapse keeps the memories in order of their first row.** -/
theorem dedupVectorHits_ids (hits : List VectorSearchHit) :
    (dedupVectorHits hits).map VectorSearchHit.memoryId =
      (firstOfEach VectorSearchHit.memoryId hits).map VectorSearchHit.memoryId := by
  obtain ⟨horder, habsent, hpresent⟩ := dedup_inv hits
  change ((hits.foldl dedupStep ([], ∅)).1.filterMap fun id => (hits.foldl dedupStep ([], ∅)).2.lookup id).map
    VectorSearchHit.memoryId = _
  generalize hits.foldl dedupStep ([], ∅) = state at horder habsent hpresent ⊢
  have hids : ∀ ids : List Int, (∀ id ∈ ids, ∃ hit ∈ hits, hit.memoryId = id) →
      (ids.filterMap fun id => state.2.lookup id).map VectorSearchHit.memoryId = ids := by
    intro ids
    induction ids with
    | nil => intro _; rfl
    | cons id ids ih =>
      intro h
      obtain ⟨hit, hhit, hid⟩ := h id List.mem_cons_self
      cases hlookup : state.2.lookup id with
      | none => exact absurd hid (habsent id hlookup hit hhit)
      | some b =>
        simp only [List.filterMap_cons, hlookup, List.map_cons]
        rw [(hpresent id b hlookup).2.1, ih fun i hi => h i (List.mem_cons_of_mem _ hi)]
  rw [hids state.1 fun id hid => ?_, horder]
  rw [horder] at hid
  obtain ⟨hit, hhit, hid⟩ := List.mem_map.1 hid
  exact ⟨hit, (firstOfEach_sublist _ _).mem hhit, hid⟩

/-- **And of each memory the best row.** -/
theorem dedupVectorHits_best {hits : List VectorSearchHit} {item : VectorSearchHit} (h : item ∈ dedupVectorHits hits) :
    item ∈ hits ∧ ∀ hit ∈ hits, hit.memoryId = item.memoryId → hit.score ≤ item.score := by
  obtain ⟨-, -, hpresent⟩ := dedup_inv hits
  obtain ⟨id, -, hlookup⟩ := List.mem_filterMap.1 h
  obtain ⟨hmem, hid, hmax⟩ := hpresent id item hlookup
  exact ⟨hmem, fun hit hhit hsame => hmax hit hhit (hsame.trans hid)⟩

theorem dedupVectorHits_nodup (hits : List VectorSearchHit) :
    ((dedupVectorHits hits).map VectorSearchHit.memoryId).Nodup := by
  rw [dedupVectorHits_ids]
  exact nodup_keys_firstOfEach _ _

theorem exists_dedupVectorHits {hits : List VectorSearchHit} {id : Int} :
    (∃ item ∈ dedupVectorHits hits, item.memoryId = id) ↔ ∃ hit ∈ hits, hit.memoryId = id := by
  rw [← List.mem_map, dedupVectorHits_ids, List.mem_map, mem_keys_firstOfEach]

/-- Lists of the same memories agree on what depends on the memory. -/
theorem map_eq_of_ids {β : Type} {f : VectorSearchHit → β} : ∀ {items items' : List VectorSearchHit},
    items.map VectorSearchHit.memoryId = items'.map VectorSearchHit.memoryId →
    (∀ a ∈ items, ∀ b ∈ items', a.memoryId = b.memoryId → f a = f b) → items.map f = items'.map f
  | [], [], _, _ => rfl
  | a :: items, b :: items', hids, h => by
    rw [List.map_cons, List.map_cons, List.cons.injEq] at hids
    rw [List.map_cons, List.map_cons, h a List.mem_cons_self b List.mem_cons_self hids.1,
      map_eq_of_ids hids.2 fun x hx y hy => h x (List.mem_cons_of_mem _ hx) y (List.mem_cons_of_mem _ hy)]

/-- Ranked hits stay ranked. -/
theorem dedupVectorHits_ranked {hits : List VectorSearchHit} (h : hits.Pairwise fun a b => b.score ≤ a.score) :
    (dedupVectorHits hits).Pairwise fun a b => b.score ≤ a.score := by
  have hfirst : ∀ first ∈ firstOfEach VectorSearchHit.memoryId hits,
      ∀ hit ∈ hits, hit.memoryId = first.memoryId → hit.score ≤ first.score := by
    intro first hmem hit hhit hsame
    obtain ⟨best, hbest, hid, hle⟩ := RankedHits.exists_best (r := ⟨hits, h⟩) hhit
    have hnodup := nodup_keys_firstOfEach VectorSearchHit.memoryId hits
    obtain rfl : best = first := List.inj_on_of_nodup_map hnodup hbest hmem (hid.trans hsame)
    exact hle
  have hscores : (dedupVectorHits hits).map VectorSearchHit.score =
      (firstOfEach VectorSearchHit.memoryId hits).map VectorSearchHit.score := by
    refine map_eq_of_ids (dedupVectorHits_ids hits) fun a ha b hb hsame => ?_
    obtain ⟨hmem, hmax⟩ := dedupVectorHits_best ha
    have hb' := (firstOfEach_sublist VectorSearchHit.memoryId hits).mem hb
    exact le_antisymm (hfirst b hb a hmem hsame) (hmax b hb' hsame.symm)
  have hranked : ((firstOfEach VectorSearchHit.memoryId hits).map VectorSearchHit.score).Pairwise (fun x y => y ≤ x) :=
    List.pairwise_map.2 (h.sublist (firstOfEach_sublist _ _))
  rw [← hscores] at hranked
  exact List.pairwise_map.1 hranked

/-- Where every memory has one row, nothing is collapsed. -/
theorem dedupVectorHits_eq_self {hits : List VectorSearchHit} (h : (hits.map VectorSearchHit.memoryId).Nodup) :
    dedupVectorHits hits = hits := by
  have hids := dedupVectorHits_ids hits
  rw [firstOfEach_eq_self _ h] at hids
  have hsame := map_eq_of_ids (f := id) hids fun a ha b hb hab =>
    List.inj_on_of_nodup_map h (dedupVectorHits_best ha).1 hb hab
  rwa [List.map_id, List.map_id] at hsame

/-! ## The promise of a search -/

/-- The distinct live memories among some hits that the thread filter lets through. -/
def liveMemories (live admissible : Int → Bool) (hits : List VectorSearchHit) : Finset Int :=
  ((hits.filter fun hit => live hit.memoryId && admissible hit.memoryId).map VectorSearchHit.memoryId).toFinset

/-- **A search fills its limit with the best live memories** of the rows it fetched. -/
structure Fills (limit : ℕ) (live admissible : Int → Bool) (fetched items : List VectorSearchHit) : Prop where
  once : (items.map VectorSearchHit.memoryId).Nodup
  allLive : ∀ item ∈ items, live item.memoryId
  allAdmissible : ∀ item ∈ items, admissible item.memoryId
  ordered : items.Pairwise fun a b => b.score ≤ a.score
  best : ∀ item ∈ items, item ∈ fetched ∧ ∀ hit ∈ fetched, hit.memoryId = item.memoryId → hit.score ≤ item.score
  full : limit ≤ (liveMemories live admissible fetched).card → items.length = limit ∧
    ∀ hit ∈ fetched, live hit.memoryId → admissible hit.memoryId →
      (∀ item ∈ items, item.memoryId ≠ hit.memoryId) → ∀ item ∈ items, hit.score ≤ item.score

/-- No memory among the first `limit` scores less than a later one. -/
def InOrder (limit : ℕ) (items : List VectorSearchHit) : Prop :=
  (items.take limit).Pairwise (fun a b => b.score ≤ a.score) ∧
    ∀ a ∈ items.take limit, ∀ b ∈ items.drop limit, b.score ≤ a.score

theorem InOrder.of_ranked {items : List VectorSearchHit} (h : items.Pairwise fun a b => b.score ≤ a.score)
    (limit : ℕ) : InOrder limit items := by
  rw [← List.take_append_drop limit items, List.pairwise_append] at h
  exact ⟨h.1, h.2.2⟩

section Enriched

variable {live admissible : Int → Bool} {hits : List VectorSearchHit}

/-- The hits the thread filter lets through. -/
def admitted (admissible : Int → Bool) (hits : List VectorSearchHit) : List VectorSearchHit :=
  hits.filter fun hit => admissible hit.memoryId

theorem mem_admitted {hit : VectorSearchHit} : hit ∈ admitted admissible hits ↔ hit ∈ hits ∧ admissible hit.memoryId := by
  unfold admitted
  rw [List.mem_filter]

theorem mem_enrichHits {item : VectorSearchHit} :
    item ∈ enrichHits live hits ↔ item ∈ dedupVectorHits hits ∧ live item.memoryId := by
  unfold enrichHits
  rw [List.mem_filter]

theorem enrichHits_nodup : ((enrichHits live hits).map VectorSearchHit.memoryId).Nodup :=
  (dedupVectorHits_nodup hits).sublist (List.filter_sublist.map _)

theorem enrichHits_ranked (h : hits.Pairwise fun a b => b.score ≤ a.score) :
    (enrichHits live hits).Pairwise fun a b => b.score ≤ a.score :=
  (dedupVectorHits_ranked h).sublist List.filter_sublist

/-- The items before the cut-off are the live memories, each once. -/
theorem toFinset_enrichHits :
    ((enrichHits live (admitted admissible hits)).map VectorSearchHit.memoryId).toFinset =
      liveMemories live admissible hits := by
  ext id
  unfold liveMemories
  simp only [List.mem_toFinset, List.mem_map, mem_enrichHits, List.mem_filter, Bool.and_eq_true]
  constructor
  · rintro ⟨item, ⟨hitem, hlive⟩, rfl⟩
    obtain ⟨hmem, -⟩ := dedupVectorHits_best hitem
    obtain ⟨hmem, hadm⟩ := mem_admitted.1 hmem
    exact ⟨item, ⟨hmem, hlive, hadm⟩, rfl⟩
  · rintro ⟨hit, ⟨hmem, hlive, hadm⟩, rfl⟩
    obtain ⟨item, hitem, hid⟩ := exists_dedupVectorHits.2 ⟨hit, mem_admitted.2 ⟨hmem, hadm⟩, rfl⟩
    exact ⟨item, ⟨hitem, hid ▸ hlive⟩, hid⟩

theorem length_enrichHits :
    (enrichHits live (admitted admissible hits)).length = (liveMemories live admissible hits).card := by
  rw [← toFinset_enrichHits, List.toFinset_card_of_nodup enrichHits_nodup, List.length_map]

/-- **Dropping stale rows before the cut-off fills the limit exactly where the order is right.** -/
theorem take_enrichHits_fills_iff (limit : ℕ) :
    Fills limit live admissible hits ((enrichHits live (admitted admissible hits)).take limit) ↔
      InOrder limit (enrichHits live (admitted admissible hits)) := by
  have hnodup : ((enrichHits live (admitted admissible hits)).map VectorSearchHit.memoryId).Nodup := enrichHits_nodup
  have hbest : ∀ item ∈ enrichHits live (admitted admissible hits), live item.memoryId ∧ admissible item.memoryId ∧
      item ∈ hits ∧ ∀ hit ∈ hits, hit.memoryId = item.memoryId → hit.score ≤ item.score := by
    intro item hitem
    obtain ⟨hitem, hlive⟩ := mem_enrichHits.1 hitem
    obtain ⟨hmem, hmax⟩ := dedupVectorHits_best hitem
    obtain ⟨hmem, hadm⟩ := mem_admitted.1 hmem
    refine ⟨hlive, hadm, hmem, fun hit hhit hsame => hmax hit (mem_admitted.2 ⟨hhit, ?_⟩) hsame⟩
    rw [hsame]
    exact hadm
  have hcard : (enrichHits live (admitted admissible hits)).length = (liveMemories live admissible hits).card :=
    length_enrichHits
  have hall : ∀ hit ∈ hits, live hit.memoryId → admissible hit.memoryId →
      ∃ item ∈ enrichHits live (admitted admissible hits), item.memoryId = hit.memoryId := by
    intro hit hhit hlive hadm
    obtain ⟨item, hitem, hid⟩ := exists_dedupVectorHits.2 ⟨hit, mem_admitted.2 ⟨hhit, hadm⟩, rfl⟩
    exact ⟨item, mem_enrichHits.2 ⟨hitem, hid ▸ hlive⟩, hid⟩
  generalize enrichHits live (admitted admissible hits) = items at hnodup hbest hcard hall ⊢
  constructor
  · intro h
    refine ⟨h.ordered, fun a ha b hb => ?_⟩
    -- an item cut off is one the limit had no room for
    have hlen : limit ≤ items.length := by
      have := List.length_pos_of_mem hb
      rw [List.length_drop] at this
      omega
    obtain ⟨hlive, hadm, hmem, -⟩ := hbest b (List.mem_of_mem_drop hb)
    refine (h.full (hcard ▸ hlen)).2 b hmem hlive hadm (fun item hitem hsame => ?_) a ha
    rw [← List.take_append_drop limit items, List.map_append, List.nodup_append] at hnodup
    exact hnodup.2.2 _ (List.mem_map_of_mem hitem) _ (List.mem_map_of_mem hb) hsame
  · rintro ⟨hordered, hlater⟩
    refine ⟨hnodup.sublist ((List.take_sublist _ _).map _), fun item h => (hbest item (List.mem_of_mem_take h)).1,
      fun item h => (hbest item (List.mem_of_mem_take h)).2.1, hordered,
      fun item h => (hbest item (List.mem_of_mem_take h)).2.2, fun hroom => ⟨?_, ?_⟩⟩
    · rw [List.length_take]
      omega
    · intro hit hhit hlive hadm hout a ha
      obtain ⟨item, hitem, hid⟩ := hall hit hhit hlive hadm
      rw [← List.take_append_drop limit items, List.mem_append] at hitem
      rcases hitem with hitem | hitem
      · exact absurd hid (hout item hitem)
      · exact ((hbest item (List.mem_of_mem_drop hitem)).2.2.2 hit hhit hid.symm).trans (hlater a ha item hitem)

end Enriched

/-! ## Cutting off before the stale rows go -/

/-- **A cut-off first fills the limit exactly where nothing stale was kept**, or there is too little anyway. -/
theorem cut_first_fills_iff {live admissible : Int → Bool} {hits : List VectorSearchHit} (limit : ℕ)
    (hnodup : (hits.map VectorSearchHit.memoryId).Nodup) (hranked : hits.Pairwise fun a b => b.score ≤ a.score)
    (hadm : ∀ hit ∈ hits, admissible hit.memoryId) :
    Fills limit live admissible hits ((enrichHits live (hits.take limit)).take limit) ↔
      (limit ≤ (liveMemories live admissible hits).card → ∀ hit ∈ hits.take limit, live hit.memoryId) := by
  have hitems : (enrichHits live (hits.take limit)).take limit =
      (hits.take limit).filter fun hit => live hit.memoryId := by
    unfold enrichHits
    rw [dedupVectorHits_eq_self (hnodup.sublist ((List.take_sublist _ _).map _))]
    refine List.take_of_length_le (List.length_filter_le _ _ |>.trans ?_)
    rw [List.length_take]
    exact Nat.min_le_left _ _
  have hcard : (liveMemories live admissible hits).card ≤ hits.length := by
    refine (List.toFinset_card_le _).trans ?_
    rw [List.length_map]
    exact List.length_filter_le _ _
  rw [hitems]
  constructor
  · intro h hroom
    have hlen := (h.full hroom).1
    have htake : (hits.take limit).length = limit := by
      rw [List.length_take]
      omega
    exact List.length_filter_eq_length_iff.1 (hlen.trans htake.symm)
  · intro h
    refine ⟨hnodup.sublist ((List.filter_sublist.trans (List.take_sublist _ _)).map _),
      fun item hitem => by simpa using (List.mem_filter.1 hitem).2,
      fun item hitem => hadm item (List.mem_of_mem_take (List.mem_filter.1 hitem).1),
      hranked.sublist (List.filter_sublist.trans (List.take_sublist _ _)), ?_, fun hroom => ?_⟩
    · intro item hitem
      have hmem := List.mem_of_mem_take (List.mem_filter.1 hitem).1
      refine ⟨hmem, fun hit hhit hsame => ?_⟩
      obtain rfl := List.inj_on_of_nodup_map hnodup hhit hmem hsame
      exact le_refl _
    · have hall := h hroom
      rw [List.filter_eq_self.2 hall]
      refine ⟨by rw [List.length_take]; omega, fun hit hhit _ _ hout item hitem => ?_⟩
      rw [← List.take_append_drop limit hits] at hhit hranked
      rcases List.mem_append.1 hhit with hhit | hhit
      · exact absurd rfl (hout hit hhit)
      · exact (List.pairwise_append.1 hranked).2.2 item hitem hit hhit

/-! ## The attempts -/

section Attempts

variable {limit : ℕ} {fetchLimit : ℕ → ℕ} {fetch : ℕ → Except SearchError (List VectorSearchHit)}
  {enrich : List VectorSearchHit → List VectorSearchHit} {live : Int → Bool} {run : SearchRun}

/-- The loop ends with an attempt's hits and what became of them, or where it was. -/
theorem overfetchLoop_ok : ∀ (attempts : List ℕ) (lastFetch : ℕ) (before : SearchRun),
    overfetchLoop limit fetchLimit fetch enrich attempts lastFetch before = .ok run →
      run = before ∨ ∃ n, fetch n = .ok run.fetched ∧ run.items = enrich run.fetched
  | [], _, _, h => .inl (Except.ok.inj h).symm
  | attempt :: attempts, lastFetch, before, h => by
    unfold overfetchLoop at h
    dsimp only at h
    split at h
    · exact .inl (Except.ok.inj h).symm
    · obtain ⟨hits, hhits, h⟩ := Except.bind_eq_ok.1 h
      split at h
      · obtain rfl := Except.ok.inj h
        exact .inr ⟨_, hhits, rfl⟩
      · rcases overfetchLoop_ok attempts _ _ h with rfl | hrun
        · exact .inr ⟨_, hhits, rfl⟩
        · exact .inr hrun

/-- The first attempt always runs. -/
theorem overfetchLoop_first {attempts : List ℕ} {before : SearchRun}
    (h : overfetchLoop limit fetchLimit fetch enrich (1 :: attempts) 0 before = .ok run) :
    ∃ n, fetch n = .ok run.fetched ∧ run.items = enrich run.fetched := by
  unfold overfetchLoop at h
  dsimp only at h
  rw [if_neg fun hlt => Nat.lt_irrefl 1 hlt.1] at h
  obtain ⟨hits, hhits, h⟩ := Except.bind_eq_ok.1 h
  split at h
  · obtain rfl := Except.ok.inj h
    exact ⟨_, hhits, rfl⟩
  · rcases overfetchLoop_ok attempts _ _ h with rfl | hrun
    · exact ⟨_, hhits, rfl⟩
    · exact hrun

theorem searchWithOverfetch_ok {config : SearchConfig} (h : searchWithOverfetch config live limit fetch = .ok run) :
    ∃ n, fetch n = .ok run.fetched ∧ run.items = (enrichHits live run.fetched).take limit := by
  obtain ⟨last, hlast, h⟩ := Except.bind_eq_ok.1 h
  obtain rfl := Except.ok.inj h
  obtain ⟨n, hn, hitems⟩ := overfetchLoop_first hlast
  exact ⟨n, hn, congrArg (List.take limit) hitems⟩

theorem twoPhaseFtsSearch_ok {config : SearchConfig} {allowed : List Int}
    (h : twoPhaseFtsSearch config live limit allowed fetch = .ok run) :
    ∃ n, fetch n = .ok run.fetched ∧
      run.items = (enrichHits live (admitted (fun id => decide (id ∈ allowed)) run.fetched)).take limit := by
  obtain ⟨last, hlast, h⟩ := Except.bind_eq_ok.1 h
  obtain rfl := Except.ok.inj h
  obtain ⟨n, hn, hitems⟩ := overfetchLoop_first hlast
  exact ⟨n, hn, congrArg (List.take limit) hitems⟩

theorem searchByVectors_ok (h : searchByVectors live limit fetch = .ok run) :
    ∃ n, fetch n = .ok run.fetched ∧ run.items = (enrichHits live (run.fetched.take limit)).take limit := by
  obtain ⟨aggregated, hfirst, h⟩ := Except.bind_eq_ok.1 h
  dsimp only at h
  split at h
  next hshort =>
    split at h
    · obtain ⟨retry, hretry, h⟩ := Except.bind_eq_ok.1 h
      obtain rfl := Except.ok.inj h
      exact ⟨_, hretry, rfl⟩
    · obtain rfl := Except.ok.inj h
      exact ⟨_, hfirst, (List.take_of_length_le (Nat.le_of_lt hshort)).symm⟩
  next =>
    obtain rfl := Except.ok.inj h
    exact ⟨_, hfirst, rfl⟩

end Attempts

/-! ## The hits of each search -/

/-- Hits come best first. -/
def Ranked (hits : List VectorSearchHit) : Prop := hits.Pairwise fun a b => b.score ≤ a.score

theorem clampUnit_mono {a b : ℚ} (h : a ≤ b) : clampUnit a ≤ clampUnit b :=
  max_le_max_left _ (min_le_min_right _ h)

/-- A closer row scores no less, but under the dot distance. -/
theorem scoreOf_antitone {distanceType : DistanceType} (hdot : distanceType ≠ .dot) {a b : ℚ}
    (hnonneg : distanceType = .l2 → 0 ≤ a) (h : a ≤ b) : scoreOf distanceType b ≤ scoreOf distanceType a := by
  cases distanceType with
  | cosine => exact clampUnit_mono (by linarith)
  | l2 =>
    have ha := hnonneg rfl
    exact clampUnit_mono (one_div_le_one_div_of_le (by linarith) (by linarith))
  | dot => exact absurd rfl hdot

theorem sortByScore_ranked (hits : List VectorSearchHit) : Ranked (sortByScore hits) := by
  have : Std.Total fun a b : VectorSearchHit => b.score ≤ a.score := ⟨fun a b => le_total b.score a.score⟩
  have : IsTrans VectorSearchHit fun a b => b.score ≤ a.score := ⟨fun a b c hab hbc => le_trans hbc hab⟩
  exact List.pairwise_insertionSort _ hits

namespace SearchEngine

variable {Columns Component : Type} (engine : SearchEngine Columns Component)

theorem vectorHits_ranked (hdot : engine.distanceType ≠ .dot) (queryVector : List Component)
    (filter : Option (SafeFilter Columns)) (n : ℕ) : Ranked (engine.vectorHits queryVector filter n) := by
  unfold Ranked vectorHits
  rw [List.pairwise_map]
  exact (engine.nearestTo_ranked queryVector filter n).imp_of_mem fun ha _ hab =>
    scoreOf_antitone hdot (fun hl2 => engine.l2_nonneg hl2 _ _ _ _ ha) hab

theorem vectorHits_admits (queryVector : List Component) (filter : Option (SafeFilter Columns)) (n : ℕ) :
    ∀ hit ∈ engine.vectorHits queryVector filter n, Admits filter hit.memoryId := by
  intro hit hhit
  obtain ⟨row, hrow, rfl⟩ := List.mem_map.1 hhit
  exact engine.nearestTo_admits _ _ _ row hrow

theorem searchByVector_ok {queryVector : List Component} {filter : Option (SafeFilter Columns)} {n : ℕ}
    {hits : List VectorSearchHit} (h : engine.searchByVector queryVector filter n = .ok hits) :
    hits = engine.vectorHits queryVector filter n := by
  obtain ⟨_, -, h⟩ := Except.bind_eq_ok.1 h
  exact (Except.ok.inj h).symm

/-- Normalising keeps the order. -/
theorem normalizeScore_mono {min max a b : ℚ} (h : a ≤ b) :
    normalizeScore engine.sigmoid min max a ≤ normalizeScore engine.sigmoid min max b := by
  unfold normalizeScore
  dsimp only
  split
  · exact engine.sigmoid_mono a b h
  next hrange =>
    have hpos : 0 < max - min := lt_of_lt_of_le (by norm_num [f32Epsilon]) (not_lt.1 hrange)
    have hdiv : (a - min) / (max - min) ≤ (b - min) / (max - min) :=
      div_le_div_of_nonneg_right (by linarith) (le_of_lt hpos)
    linarith

theorem searchByText_ranked (queryText : String) (filter : Option (SafeFilter Columns)) (n : ℕ) :
    Ranked (engine.searchByText queryText filter n) := by
  unfold Ranked searchByText
  rw [List.pairwise_map]
  exact (engine.fullTextSearch_ranked queryText filter n).imp fun hab => engine.normalizeScore_mono hab

theorem searchByText_admits (queryText : String) (filter : Option (SafeFilter Columns)) (n : ℕ) :
    ∀ hit ∈ engine.searchByText queryText filter n, Admits filter hit.memoryId := by
  intro hit hhit
  obtain ⟨row, hrow, rfl⟩ := List.mem_map.1 hhit
  exact engine.fullTextSearch_admits _ _ _ row hrow

end SearchEngine

/-- Hits come best first, and of memories some row of which passes the filter. -/
structure GoodHits {Columns : Type} (filter : Option (SafeFilter Columns)) (hits : List VectorSearchHit) : Prop where
  ranked : Ranked hits
  admits : ∀ hit ∈ hits, Admits filter hit.memoryId

variable {Columns Component : Type}

theorem goodHits_nil (filter : Option (SafeFilter Columns)) : GoodHits filter [] :=
  ⟨.nil, fun _ h => absurd h List.not_mem_nil⟩

/-- Fusing keeps to the memories of the fused lists. -/
theorem parallelHybridSearch_good {order : HashOrder} {filter : Option (SafeFilter Columns)}
    {vec fts : List VectorSearchHit} {limit : ℕ} {options : HybridOptions} {merged : Option (List VectorSearchHit)}
    (hvec : ∀ hit ∈ vec, Admits filter hit.memoryId) (hfts : ∀ hit ∈ fts, Admits filter hit.memoryId)
    (h : parallelHybridSearch order vec fts limit options = .ok merged) : GoodHits filter (merged.getD []) := by
  have hboth : ∀ id, (∃ hit ∈ vec, hit.memoryId = id) ∨ (∃ hit ∈ fts, hit.memoryId = id) → Admits filter id := by
    rintro id (⟨hit, hhit, rfl⟩ | ⟨hit, hhit, rfl⟩)
    · exact hvec hit hhit
    · exact hfts hit hhit
  obtain ⟨_, -, h⟩ := Except.bind_eq_ok.1 h
  cases hstrategy : options.strategy <;> rw [hstrategy] at h <;> obtain rfl := Except.ok.inj h
  case rrf =>
    refine ⟨(sortByScore_ranked _).sublist (List.take_sublist _ _), fun hit hhit => ?_⟩
    obtain ⟨id, hid, rfl⟩ := mem_rankScores.1 (List.mem_of_mem_take hhit)
    exact hboth id (mem_keys_rrfScores.1 hid)
  case weighted =>
    refine ⟨(sortByScore_ranked _).sublist (List.take_sublist _ _), fun hit hhit => ?_⟩
    obtain ⟨id, hid, rfl⟩ := mem_rankScores.1 (List.mem_of_mem_take hhit)
    exact hboth id (mem_keys_weightedScores.1 hid)
  all_goals exact goodHits_nil filter

theorem twoPhaseHybridSearch_good {filter : Option (SafeFilter Columns)} {primary : List VectorSearchHit}
    {secondary : Finset Int → List VectorSearchHit} {limit : ℕ} {options : HybridOptions} {vectorFirst : Bool}
    {result : List VectorSearchHit} (hprimary : ∀ hit ∈ primary, Admits filter hit.memoryId)
    (h : twoPhaseHybridSearch primary secondary limit options vectorFirst = .ok result) : GoodHits filter result := by
  obtain ⟨_, -, h⟩ := Except.bind_eq_ok.1 h
  dsimp only at h
  split at h
  · obtain rfl := Except.ok.inj h
    exact goodHits_nil filter
  · obtain rfl := Except.ok.inj h
    refine ⟨(sortByScore_ranked _).sublist (List.take_sublist _ _), fun hit hhit => ?_⟩
    have hmem := (sortByScore_perm _).mem_iff.1 (List.mem_of_mem_take hhit)
    obtain ⟨row, hrow, rfl⟩ := List.mem_map.1 hmem
    exact hprimary row (List.mem_of_mem_take hrow)

theorem SearchEngine.hybridSearch_good {engine : SearchEngine Columns Component} {order : HashOrder}
    {queryVector : List Component} {queryText : String} {filter : Option (SafeFilter Columns)} {n : ℕ}
    {options : HybridOptions} {hits : List VectorSearchHit}
    (h : engine.hybridSearch order queryVector queryText filter n options = .ok hits) : GoodHits filter hits := by
  have hvec := engine.vectorHits_admits queryVector filter (n * 2)
  have hfts := engine.searchByText_admits queryText filter (n * 2)
  unfold hybridSearch at h
  cases hstrategy : options.strategy <;> rw [hstrategy] at h <;> dsimp only at h
  case rrf | weighted =>
    obtain ⟨vec, hvec', h⟩ := Except.bind_eq_ok.1 h
    obtain rfl := engine.searchByVector_ok hvec'
    obtain ⟨merged, hmerged, h⟩ := Except.bind_eq_ok.1 h
    obtain rfl := Except.ok.inj h
    exact parallelHybridSearch_good hvec hfts (Except.mapError_eq_ok.1 hmerged)
  case vectorThenFts =>
    obtain ⟨_, -, h⟩ := Except.bind_eq_ok.1 h
    obtain ⟨vec, hvec', h⟩ := Except.bind_eq_ok.1 h
    obtain rfl := engine.searchByVector_ok hvec'
    exact twoPhaseHybridSearch_good hvec (Except.mapError_eq_ok.1 h)
  case ftsThenVector =>
    obtain ⟨_, -, h⟩ := Except.bind_eq_ok.1 h
    split at h
    · obtain rfl := Except.ok.inj h
      exact goodHits_nil filter
    · obtain ⟨_, -, h⟩ := Except.bind_eq_ok.1 h
      exact twoPhaseHybridSearch_good hfts (Except.mapError_eq_ok.1 h)

/-- Aggregated hits come best first, each memory once, and of the memories of the lists. -/
theorem aggregateScores_good (order : HashOrder) (strategy : AggregationStrategy)
    {filter : Option (SafeFilter Columns)} {allHits : List (List VectorSearchHit)}
    (h : ∀ hits ∈ allHits, ∀ hit ∈ hits, Admits filter hit.memoryId) :
    GoodHits filter (aggregateScores order allHits strategy) ∧
      ((aggregateScores order allHits strategy).map VectorSearchHit.memoryId).Nodup := by
  rw [aggregateScores_eq]
  refine ⟨⟨sortByScore_ranked _, fun hit hhit => ?_⟩, nodup_rankScores⟩
  obtain ⟨id, hid, rfl⟩ := mem_rankScores.1 hhit
  obtain ⟨hits, hhits, row, hrow, rfl⟩ := mem_aggregateKeys.1 hid
  exact h hits hhits row hrow

/-! ## The searches -/

namespace SearchRequest

variable (request : SearchRequest Columns Component)

/-- The memories the thread filter lets through. -/
def admissible (id : Int) : Bool := request.threadMemoryIds.all fun t => decide (id ∈ t.ids)

/-- **Where a search keeps its promise**, on the hits its last attempt fetched. One query vector: under the
dot distance, when no memory is out-scored by a later one. Several: when no stale memory is among the best,
or too few live ones were fetched. Text and hybrid: always. -/
def Fillable (engine : SearchEngine Columns Component) (live : Int → Bool) (fetched : List VectorSearchHit) : Prop :=
  match request.query with
  | .byVector [_] _ => engine.distanceType = .dot → InOrder request.limit (enrichHits live fetched)
  | .byVector _ _ => request.limit ≤ (liveMemories live request.admissible fetched).card →
      ∀ hit ∈ fetched.take request.limit, live hit.memoryId
  | .byText _ | .hybrid _ _ _ => True

end SearchRequest

variable {engine : SearchEngine Columns Component} {order : HashOrder} {config : SearchConfig} {live : Int → Bool}
  {request : SearchRequest Columns Component} {run : SearchRun}

/-- Nothing fetched, nothing owed. -/
theorem fills_nil {limit : ℕ} {admissible : Int → Bool} : Fills limit live admissible [] [] :=
  ⟨.nil, fun _ h => absurd h List.not_mem_nil, fun _ h => absurd h List.not_mem_nil, .nil,
    fun _ h => absurd h List.not_mem_nil, fun h =>
      ⟨(Nat.le_zero.1 h).symm, fun _ hhit => absurd hhit List.not_mem_nil⟩⟩

/-- How a plan keeps to the thread filter. -/
def FilterPlan.KeepsTo (admissible : Int → Bool) : FilterPlan Columns → Prop
  | .shortCircuit => True
  | .strict filter => ∀ id, Admits filter id → admissible id
  | .approximate _ allowed => ∀ id, admissible id = decide (id ∈ allowed)

theorem buildSearchFilter_ok {usesFts : Bool} {plan : FilterPlan Columns}
    (h : buildSearchFilter config request.filter usesFts request.threadMemoryIds = .ok plan) :
    plan.KeepsTo request.admissible := by
  unfold SearchRequest.admissible
  cases hids : request.threadMemoryIds with
  | none =>
    rw [hids] at h
    obtain rfl := Except.ok.inj h
    exact fun _ _ => rfl
  | some threadMemoryIds =>
    rw [hids] at h
    unfold buildSearchFilter at h
    dsimp only at h
    split at h
    · obtain rfl := Except.ok.inj h
      trivial
    · split at h
      · cases h
      · split at h
        · split at h
          · obtain rfl := Except.ok.inj h
            exact fun _ => rfl
          · cases h
        · obtain rfl := Except.ok.inj h
          rintro id ⟨row, rfl, haccepts⟩
          have hboth : accepts request.filter row = true ∧ row.memoryId ∈ threadMemoryIds.ids := by
            simpa [accepts, withMemoryIds] using haccepts
          simpa using hboth.2

theorem admitted_eq_self {admissible : Int → Bool} {hits : List VectorSearchHit}
    (h : ∀ hit ∈ hits, admissible hit.memoryId) : admitted admissible hits = hits :=
  List.filter_eq_self.2 h

/-- **A search of one query**, under a filter its hits pass. -/
theorem searchWithOverfetch_fills_iff {limit : ℕ} {admissible : Int → Bool}
    {fetch : ℕ → Except SearchError (List VectorSearchHit)}
    (hadm : ∀ n hits, fetch n = .ok hits → ∀ hit ∈ hits, admissible hit.memoryId)
    (h : searchWithOverfetch config live limit fetch = .ok run) :
    Fills limit live admissible run.fetched run.items ↔ InOrder limit (enrichHits live run.fetched) := by
  obtain ⟨n, hn, hitems⟩ := searchWithOverfetch_ok h
  have hself := admitted_eq_self (hadm n _ hn)
  have hiff : Fills limit live admissible run.fetched ((enrichHits live (admitted admissible run.fetched)).take limit) ↔
      InOrder limit (enrichHits live (admitted admissible run.fetched)) := take_enrichHits_fills_iff limit
  rwa [hself, ← hitems] at hiff

/-- **A search that uses full text keeps its promise.** -/
theorem searchPlan_fills {fetch : Option (SafeFilter Columns) → ℕ → Except SearchError (List VectorSearchHit)}
    {plan : FilterPlan Columns} (hgood : ∀ filter n hits, fetch filter n = .ok hits → GoodHits filter hits)
    (hplan : buildSearchFilter config request.filter true request.threadMemoryIds = .ok plan)
    (h : searchPlan config live request.limit plan fetch = .ok run) :
    Fills request.limit live request.admissible run.fetched run.items := by
  have hguarantee := buildSearchFilter_ok hplan
  cases plan with
  | shortCircuit =>
    obtain rfl := Except.ok.inj h
    exact fills_nil
  | strict filter =>
    have hadm : ∀ n hits, fetch filter n = .ok hits → ∀ hit ∈ hits, request.admissible hit.memoryId :=
      fun n hits hn hit hhit => hguarantee _ ((hgood filter n hits hn).admits hit hhit)
    obtain ⟨n, hn, -⟩ := searchWithOverfetch_ok h
    exact (searchWithOverfetch_fills_iff hadm h).2 (.of_ranked (enrichHits_ranked (hgood filter n _ hn).ranked) _)
  | approximate base allowed =>
    obtain ⟨n, hn, hitems⟩ := twoPhaseFtsSearch_ok h
    have hranked : Ranked (admitted request.admissible run.fetched) :=
      (hgood base n _ hn).ranked.sublist List.filter_sublist
    have hsame : request.admissible = fun id => decide (id ∈ allowed) := funext hguarantee
    rw [hitems, ← hsame]
    exact (take_enrichHits_fills_iff _).2 (.of_ranked (enrichHits_ranked hranked) _)

theorem searchByVector_fills_iff {queryVectors : List (List Component)} {aggregation : Option AggregationStrategy}
    (hquery : request.query = .byVector queryVectors aggregation)
    (h : searchByVector engine order config live request queryVectors aggregation = .ok run) :
    Fills request.limit live request.admissible run.fetched run.items ↔
      request.Fillable engine live run.fetched := by
  have hempty : SearchRequest.Fillable request engine live [] := by
    unfold SearchRequest.Fillable
    split
    · exact fun _ => .of_ranked .nil _
    · exact fun _ hit hhit => by rw [List.take_nil] at hhit; exact absurd hhit List.not_mem_nil
    all_goals trivial
  match hvectors : queryVectors with
  | [] => cases h
  | [queryVector] =>
    obtain ⟨plan, hplan, h⟩ := Except.bind_eq_ok.1 h
    have hguarantee := buildSearchFilter_ok hplan
    cases plan with
    | shortCircuit =>
      obtain rfl := Except.ok.inj h
      exact iff_of_true fills_nil hempty
    | approximate base allowed => cases h
    | strict filter =>
      have hadm : ∀ n hits, engine.searchByVector queryVector filter n = .ok hits →
          ∀ hit ∈ hits, request.admissible hit.memoryId := fun n hits hn hit hhit => by
        obtain rfl := engine.searchByVector_ok hn
        exact hguarantee _ (engine.vectorHits_admits _ _ _ hit hhit)
      rw [searchWithOverfetch_fills_iff hadm h]
      simp only [SearchRequest.Fillable, hquery]
      refine ⟨fun horder _ => horder, fun horder => ?_⟩
      by_cases hdot : engine.distanceType = .dot
      · exact horder hdot
      · obtain ⟨n, hn, -⟩ := searchWithOverfetch_ok h
        have hhits := engine.searchByVector_ok hn
        exact .of_ranked (enrichHits_ranked (hhits ▸ engine.vectorHits_ranked hdot _ _ _)) _
  | v :: w :: rest =>
    obtain ⟨plan, hplan, h⟩ := Except.bind_eq_ok.1 h
    have hguarantee := buildSearchFilter_ok hplan
    cases plan with
    | shortCircuit =>
      obtain rfl := Except.ok.inj h
      exact iff_of_true fills_nil hempty
    | approximate base allowed => cases h
    | strict filter =>
      obtain ⟨n, hn, hitems⟩ := searchByVectors_ok h
      obtain ⟨allHits, hall, hn⟩ := Except.bind_eq_ok.1 hn
      have hlists := Except.mapM_eq_ok (g := fun v => engine.vectorHits v filter n)
        (fun v hits hv => engine.searchByVector_ok hv) hall
      have hadmits : ∀ hits ∈ allHits, ∀ hit ∈ hits, Admits filter hit.memoryId := by
        rw [hlists]
        intro hits hhits
        obtain ⟨v, -, rfl⟩ := List.mem_map.1 hhits
        exact engine.vectorHits_admits v filter n
      obtain ⟨hgood, hnodup⟩ := aggregateScores_good order (aggregation.getD .average) hadmits
      rw [Except.ok.inj hn] at hgood hnodup
      rw [hitems, cut_first_fills_iff _ hnodup hgood.ranked fun hit hhit => hguarantee _ (hgood.admits hit hhit)]
      simp only [SearchRequest.Fillable, hquery]

/-- **When a search fills its limit with the best live memories.** -/
theorem search_fills_iff (h : search engine order config live request = .ok run) :
    Fills request.limit live request.admissible run.fetched run.items ↔
      request.Fillable engine live run.fetched := by
  unfold search at h
  cases hquery : request.query with
  | byVector queryVectors aggregation =>
    rw [hquery] at h
    exact searchByVector_fills_iff hquery h
  | byText queryText =>
    rw [hquery] at h
    obtain ⟨plan, hplan, h⟩ := Except.bind_eq_ok.1 h
    refine iff_of_true (searchPlan_fills (fun filter n hits hn => ?_) hplan h) ?_
    · obtain rfl := Except.ok.inj hn
      exact ⟨engine.searchByText_ranked _ _ _, engine.searchByText_admits _ _ _⟩
    · simp only [SearchRequest.Fillable, hquery]
  | hybrid queryVectors queryText options =>
    rw [hquery] at h
    match queryVectors with
    | [] | _ :: _ :: _ => cases h
    | [queryVector] =>
      obtain ⟨plan, hplan, h⟩ := Except.bind_eq_ok.1 h
      refine iff_of_true (searchPlan_fills (fun filter n hits hn => ?_) hplan h) ?_
      · exact SearchEngine.hybridSearch_good hn
      · simp only [SearchRequest.Fillable, hquery]

/-! ## A stale memory above a live one -/

/-- A table of two memories that every vector finds, the first the closer. -/
def twoRows : SearchEngine Unit ℚ where
  distanceType := .cosine
  vectorSize := 1
  nearestTo := fun _ filter n =>
    (([⟨1, 0, none, none, none, none, none⟩, ⟨2, 1 / 2, none, none, none, none, none⟩] : List VectorRow).filter
      fun row => accepts filter ⟨row.memoryId, ()⟩).take n
  nearestTo_ranked := fun _ _ _ => List.Pairwise.sublist ((List.take_sublist _ _).trans List.filter_sublist) (by decide +kernel)
  nearestTo_admits := fun _ filter _ row hrow =>
    ⟨⟨row.memoryId, ()⟩, rfl, (List.mem_filter.1 (List.mem_of_mem_take hrow)).2⟩
  l2_nonneg := fun h => nomatch h
  fullTextSearch := fun _ _ _ => []
  fullTextSearch_ranked := fun _ _ _ => .nil
  fullTextSearch_admits := fun _ _ _ _ h => absurd h List.not_mem_nil
  sigmoid := id
  sigmoid_mono := fun _ _ h => h

def defaultLimits : SearchConfig := ⟨5000, 50000, false, 8, 4, 10000⟩

/-- One result for two vectors. -/
def bestForBoth : SearchRequest Unit ℚ := ⟨.byVector [[1], [1]] none, none, none, 1⟩

/-- With both memories live the closer one is found. -/
theorem bestForBoth_found :
    search twoRows ascending defaultLimits (fun _ => true) bestForBoth =
        .ok ⟨[fusedHit 1 1, fusedHit 2 (1 / 2)], [fusedHit 1 1]⟩ ∧
      Fills 1 (fun _ => true) bestForBoth.admissible [fusedHit 1 1, fusedHit 2 (1 / 2)] [fusedHit 1 1] := by
  have hrun : search twoRows ascending defaultLimits (fun _ => true) bestForBoth =
      .ok ⟨[fusedHit 1 1, fusedHit 2 (1 / 2)], [fusedHit 1 1]⟩ := by decide +kernel
  exact ⟨hrun, (search_fills_iff hrun).2 fun _ _ _ => rfl⟩

/-- **A stale memory keeps a live one out.** The RDB lost the closer memory; the search fetches both, keeps
the stale one and drops it, twice, and returns nothing. -/
theorem stale_displaces_live :
    search twoRows ascending defaultLimits (fun id => decide (id = 2)) bestForBoth =
        .ok ⟨[fusedHit 1 1, fusedHit 2 (1 / 2)], []⟩ ∧
      ¬ Fills 1 (fun id => decide (id = 2)) bestForBoth.admissible [fusedHit 1 1, fusedHit 2 (1 / 2)] [] := by
  refine ⟨by decide +kernel, fun h => ?_⟩
  have hfull := (h.full (by decide +kernel)).1
  cases hfull

end MemoryStore.MemorySearch
