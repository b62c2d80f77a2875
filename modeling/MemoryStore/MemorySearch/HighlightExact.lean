/-
The highlight ranges of a text are the matching tokens and nothing else: apart
from each other, on character boundaries, and covering the bytes of the tokens
whose normalised form is one of the query's.
-/
import MemoryStore.Lib.Spans
import MemoryStore.MemorySearch.Highlight

namespace MemoryStore.MemorySearch

open Utf8

/-! ## Lengths of texts -/

@[simp] theorem utf16Len_nil : utf16Len [] = 0 := rfl

@[simp] theorem utf16Len_cons (ch : Char) (text : Text) : utf16Len (ch :: text) = lenUtf16 ch + utf16Len text := rfl

@[simp] theorem utf16Len_append (a b : Text) : utf16Len (a ++ b) = utf16Len a + utf16Len b := by
  unfold utf16Len
  rw [List.map_append, List.sum_append]

/-! ## Character boundaries -/

/-- A byte offset between two characters of the text, or at one of its ends. -/
def Boundary (text : Text) (b : Nat) : Prop := ∃ before after, text = before ++ after ∧ byteLen before = b

theorem Boundary.zero (text : Text) : Boundary text 0 := ⟨[], text, rfl, rfl⟩

theorem Boundary.stop (text : Text) : Boundary text (byteLen text) := ⟨text, [], (List.append_nil text).symm, rfl⟩

theorem Boundary.le {text : Text} {b : Nat} (h : Boundary text b) : b ≤ byteLen text := by
  obtain ⟨before, after, rfl, rfl⟩ := h
  rw [byteLen_append]
  exact Nat.le_add_right _ _

/-- Between two boundaries lies a piece of the text. -/
theorem Boundary.piece {text : Text} {a b : Nat} (ha : Boundary text a) (hb : Boundary text b) (hle : a ≤ b) :
    ∃ before mid after, text = before ++ mid ++ after ∧ byteLen before = a ∧ byteLen before + byteLen mid = b := by
  obtain ⟨p, s, rfl, rfl⟩ := ha
  obtain ⟨q, t, htext, rfl⟩ := hb
  rcases List.append_eq_append_iff.1 htext with ⟨mid, rfl, rfl⟩ | ⟨mid, rfl, rfl⟩
  · exact ⟨p, mid, t, by rw [List.append_assoc], rfl, (byteLen_append _ _).symm⟩
  · rw [byteLen_append] at hle
    obtain rfl := byteLen_eq_zero (show byteLen mid = 0 by omega)
    exact ⟨q, [], s, by simp, by simp, by simp⟩

theorem mem_charIndicesFrom : ∀ {base : Nat} {text : Text} {idx : Nat} {ch : Char},
    (idx, ch) ∈ charIndicesFrom base text → ∃ before after, text = before ++ ch :: after ∧ idx = base + byteLen before
  | base, [], idx, ch, h => absurd h List.not_mem_nil
  | base, c :: text, idx, ch, h => by
    rcases List.mem_cons.1 h with heq | h
    · obtain ⟨rfl, rfl⟩ := Prod.mk.inj heq
      exact ⟨[], text, rfl, rfl⟩
    · obtain ⟨before, after, rfl, rfl⟩ := mem_charIndicesFrom h
      refine ⟨c :: before, after, rfl, ?_⟩
      rw [byteLen_cons]
      omega

/-- A character begins and ends at a boundary. -/
theorem boundary_charIndices {text : Text} {x : Nat × Char} (h : x ∈ charIndices text) :
    Boundary text x.1 ∧ Boundary text (x.1 + x.2.utf8Size) := by
  obtain ⟨before, after, htext, hidx⟩ := mem_charIndicesFrom h
  rw [Nat.zero_add] at hidx
  refine ⟨⟨before, x.2 :: after, htext, hidx.symm⟩, before ++ [x.2], after, by simp [htext], ?_⟩
  rw [byteLen_append, hidx, byteLen_cons, byteLen_nil, Nat.add_zero]

/-! ## Tokens lie between boundaries -/

def TokenSpan.Placed (text : Text) (tok : TokenSpan) : Prop :=
  Boundary text tok.byteStart ∧ Boundary text tok.byteEnd

theorem splitTokens_placed {text : Text} {isTokenChar : Char → Bool} : ∀ {chars : List (Nat × Char)} {start : Option Nat},
    (∀ x ∈ chars, x ∈ charIndices text) → (∀ s ∈ start, Boundary text s) →
    ∀ tok ∈ splitTokens text isTokenChar chars start, tok.Placed text
  | [], none, _, _, tok, h => absurd h List.not_mem_nil
  | [], some s, _, hstart, tok, h => by
    obtain rfl := List.mem_singleton.1 h
    exact ⟨hstart s rfl, .stop text⟩
  | (idx, ch) :: rest, start, hchars, hstart, tok, h => by
    have hidx := (boundary_charIndices (hchars _ List.mem_cons_self)).1
    have hrest : ∀ x ∈ rest, x ∈ charIndices text := fun x hx => hchars x (List.mem_cons_of_mem _ hx)
    unfold splitTokens at h
    split at h
    · refine splitTokens_placed hrest (fun s hs => ?_) tok h
      cases start with
      | none => cases hs; exact hidx
      | some s' => cases hs; exact hstart s' rfl
    · cases start with
      | none => exact splitTokens_placed hrest (fun _ hs => absurd hs (by simp)) tok h
      | some s =>
        rcases List.mem_cons.1 h with rfl | h
        · exact ⟨hstart s rfl, hidx⟩
        · exact splitTokens_placed hrest (fun _ hs => absurd hs (by simp)) tok h

theorem splitTokensBy_placed {text : Text} {isTokenChar : Char → Bool} :
    ∀ tok ∈ splitTokensBy text isTokenChar, tok.Placed text :=
  splitTokens_placed (fun _ hx => hx) (fun _ hs => absurd hs (by simp))

theorem mem_of_mem_windows {α : Type} {n : Nat} {l w : List α} (hw : w ∈ windows n l) {x : α} (hx : x ∈ w) : x ∈ l := by
  obtain ⟨i, -, rfl⟩ := List.mem_map.1 hw
  exact List.mem_of_mem_drop (List.mem_of_mem_take hx)

theorem windowSpan_placed {text : Text} {window : List (Nat × Char)} (hw : ∀ x ∈ window, x ∈ charIndices text)
    {tok : TokenSpan} (h : windowSpan text window = some tok) : tok.Placed text := by
  unfold windowSpan at h
  simp only [Option.bind_eq_bind, Option.bind_eq_some_iff, Option.some.injEq] at h
  obtain ⟨first, hfirst, last, hlast, rfl⟩ := h
  exact ⟨(boundary_charIndices (hw _ (List.mem_of_head? hfirst))).1,
    (boundary_charIndices (hw _ (List.mem_of_getLast? hlast))).2⟩

theorem ngramTokens_placed {text : Text} {min max : Nat} {prefixOnly : Bool} :
    ∀ tok ∈ ngramTokens text min max prefixOnly, tok.Placed text := by
  intro tok h
  unfold ngramTokens at h
  split at h
  · exact absurd h List.not_mem_nil
  · dsimp only at h
    split at h
    · exact absurd h List.not_mem_nil
    · obtain ⟨n, -, h⟩ := List.mem_flatMap.1 h
      have hspan : tok ∈ (windows n (charIndices text)).filterMap (windowSpan text) := by
        split at h
        · exact (List.takeWhile_sublist _).subset h
        · exact h
      obtain ⟨w, hw, htok⟩ := List.mem_filterMap.1 hspan
      exact windowSpan_placed (fun x hx => mem_of_mem_windows hw hx) htok

/-- The tokenizers that the code itself spells out. -/
def FtsTokenizerKind.BuiltIn (kind : FtsTokenizerKind) : Prop :=
  kind = .whitespace ∨ kind = .simple ∨ kind = .raw ∨ kind = .ngram

/-! ## The UTF-16 map -/

theorem utf16Offsets_getD : ∀ (before after : Text) (acc : Nat),
    (utf16Offsets acc (before ++ after)).getD (byteLen before) 0 = acc + utf16Len before
  | [], [], acc => rfl
  | [], ch :: after, acc => by
    have hpos := ch.utf8Size_pos
    simp [utf16Offsets, List.getElem?_append, hpos]
  | ch :: before, after, acc => by
    have ih := utf16Offsets_getD before after (acc + lenUtf16 ch)
    rw [List.getD_eq_getElem?_getD] at ih ⊢
    rw [List.cons_append, utf16Offsets, byteLen_cons, List.getElem?_append_right (by simp), List.length_replicate,
      Nat.add_sub_cancel_left, ih, utf16Len_cons, Nat.add_assoc]

/-- At a boundary the map holds the UTF-16 length of the text before it. -/
theorem buildUtf16PrefixMap_getD (before after : Text) :
    (buildUtf16PrefixMap (before ++ after)).getD (byteLen before) 0 = utf16Len before := by
  unfold buildUtf16PrefixMap
  rw [utf16Offsets_getD, Nat.zero_add]

/-! ## Ranges as spans -/

def HighlightRange.toSpan (r : HighlightRange) : Spans.Span := (r.byteStart, r.byteStart + r.byteLength)

/-- The range is a piece of the text, and its UTF-16 place is the piece's. -/
def HighlightRange.Placed (text : Text) (r : HighlightRange) : Prop :=
  ∃ before mid after, text = before ++ mid ++ after ∧ mid ≠ [] ∧
    r = ⟨byteLen before, byteLen mid, utf16Len before, utf16Len mid⟩

/-- Two boundaries, and the UTF-16 offsets the map has for them, make a range in its place. -/
theorem placed_of_boundaries {text : Text} {a b : Nat} (ha : Boundary text a) (hb : Boundary text b) (hlt : a < b) :
    HighlightRange.Placed text ⟨a, b - a, (buildUtf16PrefixMap text).getD a 0,
      (buildUtf16PrefixMap text).getD b 0 - (buildUtf16PrefixMap text).getD a 0⟩ := by
  obtain ⟨before, mid, after, rfl, rfl, rfl⟩ := ha.piece hb hlt.le
  refine ⟨before, mid, after, rfl, fun hnil => ?_, ?_⟩
  · rw [hnil, byteLen_nil] at hlt
    omega
  · have hstart := buildUtf16PrefixMap_getD before (mid ++ after)
    have hstop := buildUtf16PrefixMap_getD (before ++ mid) after
    rw [← List.append_assoc] at hstart
    rw [byteLen_append, utf16Len_append] at hstop
    rw [hstart, hstop, Nat.add_sub_cancel_left, Nat.add_sub_cancel_left]

theorem HighlightRange.Placed.toSpan_lt {text : Text} {r : HighlightRange} (h : r.Placed text) :
    r.toSpan.1 < r.toSpan.2 := by
  obtain ⟨before, mid, after, -, hmid, rfl⟩ := h
  have : byteLen mid ≠ 0 := fun hzero => hmid (byteLen_eq_zero hzero)
  unfold toSpan
  dsimp only
  omega

theorem HighlightRange.Placed.bounds {text : Text} {r : HighlightRange} (h : r.Placed text) :
    Boundary text r.toSpan.1 ∧ Boundary text r.toSpan.2 := by
  obtain ⟨before, mid, after, rfl, -, rfl⟩ := h
  exact ⟨⟨before, mid ++ after, List.append_assoc _ _ _, rfl⟩, before ++ mid, after, rfl, byteLen_append _ _⟩

theorem mergeRange_toSpan (merged : List HighlightRange) (r : HighlightRange) :
    (mergeRange merged r).map HighlightRange.toSpan =
      Spans.absorb r.toSpan (merged.map HighlightRange.toSpan) := by
  match merged with
  | [] => rfl
  | prev :: rest =>
    rw [List.map_cons, Spans.absorb_cons]
    unfold mergeRange HighlightRange.toSpan
    dsimp only
    split
    · split
      · rw [List.map_cons, max_eq_right (by omega)]
        dsimp only
        rw [show prev.byteStart + (r.byteStart + r.byteLength - prev.byteStart) = r.byteStart + r.byteLength by omega]
      · rw [List.map_cons, max_eq_left (by omega)]
    · rw [List.map_cons, List.map_cons]

theorem foldl_mergeRange_toSpan : ∀ (ranges merged : List HighlightRange),
    (ranges.foldl mergeRange merged).map HighlightRange.toSpan =
      (ranges.map HighlightRange.toSpan).foldl (fun merged s => Spans.absorb s merged)
        (merged.map HighlightRange.toSpan)
  | [], merged => rfl
  | r :: ranges, merged => by
    rw [List.foldl_cons, foldl_mergeRange_toSpan ranges, mergeRange_toSpan, List.map_cons, List.foldl_cons]

theorem sortKey_byteStart {a b : HighlightRange} (h : a.sortKey ≤ b.sortKey) : a.byteStart ≤ b.byteStart := by
  rcases Prod.Lex.toLex_le_toLex.1 h with h | ⟨h, -⟩
  · exact h.le
  · exact h.le

/-- What `mergeRanges` keeps of ranges in their places. -/
structure Combined (text : Text) (ranges merged : List HighlightRange) : Prop where
  gaps : merged.Pairwise fun a b => a.byteStart + a.byteLength < b.byteStart
  placed : ∀ r ∈ merged, r.Placed text
  covers : ∀ i, Spans.Covers (merged.map HighlightRange.toSpan) i ↔ Spans.Covers (ranges.map HighlightRange.toSpan) i

theorem mergeRanges_combined {text : Text} {ranges : List HighlightRange} (h : ∀ r ∈ ranges, r.Placed text) :
    Combined text ranges (mergeRanges ranges (buildUtf16PrefixMap text)) := by
  unfold mergeRanges
  split
  next hshort =>
    refine ⟨?_, h, fun i => Iff.rfl⟩
    match ranges, hshort with
    | [], _ => exact .nil
    | [r], _ => exact List.pairwise_singleton _ _
  · dsimp only
    generalize hsorted : ranges.insertionSort (fun a b => a.sortKey ≤ b.sortKey) = sorted
    have hperm : sorted.Perm ranges := hsorted ▸ List.perm_insertionSort _ _
    have horder : sorted.Pairwise fun a b => a.sortKey ≤ b.sortKey := by
      rw [← hsorted]
      exact List.pairwise_insertionSort _ _
    have hplaced : ∀ s ∈ sorted.map HighlightRange.toSpan, s.1 < s.2 ∧ Boundary text s.1 ∧ Boundary text s.2 := by
      intro s hs
      obtain ⟨r, hr, rfl⟩ := List.mem_map.1 hs
      have hr := h r (hperm.mem_iff.1 hr)
      exact ⟨hr.toSpan_lt, hr.bounds⟩
    have hstarts : (sorted.map HighlightRange.toSpan).Pairwise fun a b => a.1 ≤ b.1 :=
      List.pairwise_map.2 (horder.imp sortKey_byteStart)
    have hmerged := Spans.merge_merged (fun s hs => (hplaced s hs).1) hstarts
    have hspans : (sorted.foldl mergeRange []).reverse.map HighlightRange.toSpan =
        Spans.merge (sorted.map HighlightRange.toSpan) := by
      rw [List.map_reverse, foldl_mergeRange_toSpan]
      rfl
    rw [← hspans] at hmerged
    have hsame : ((sorted.foldl mergeRange []).reverse.map (withUtf16 (buildUtf16PrefixMap text))).map
        HighlightRange.toSpan = (sorted.foldl mergeRange []).reverse.map HighlightRange.toSpan := by
      rw [List.map_map]
      rfl
    refine ⟨List.pairwise_map.2 (List.pairwise_map.1 hmerged.gaps), fun r hr => ?_, fun i => ?_⟩
    · obtain ⟨raw, hraw, rfl⟩ := List.mem_map.1 hr
      have hmem : raw.toSpan ∈ (sorted.foldl mergeRange []).reverse.map HighlightRange.toSpan :=
        List.mem_map_of_mem hraw
      obtain ⟨⟨s, hs, hstart⟩, t, ht, hstop⟩ := hmerged.bounds _ hmem
      have hlt := hmerged.nonempty _ hmem
      have hrange := placed_of_boundaries (hstart ▸ (hplaced s hs).2.1) (hstop ▸ (hplaced t ht).2.2) hlt
      unfold HighlightRange.toSpan at hrange
      dsimp only at hrange
      rw [Nat.add_sub_cancel_left] at hrange
      exact hrange
    · rw [hsame, hmerged.covers]
      unfold Spans.Covers
      simp only [List.mem_map, hperm.mem_iff]

/-! ## Highlights -/

section Tables

variable [TextTables]

theorem tokenizeForMatch_placed {text : Text} {fts : FtsConfig} (hkind : fts.tokenizer.BuiltIn) :
    ∀ tok ∈ tokenizeForMatch text fts, tok.Placed text := by
  intro tok h
  unfold tokenizeForMatch at h
  rcases hkind with hkind | hkind | hkind | hkind <;> rw [hkind] at h
  · exact splitTokensBy_placed tok h
  · exact splitTokensBy_placed tok h
  · obtain rfl := List.mem_singleton.1 h
    exact ⟨.zero text, .stop text⟩
  · exact ngramTokens_placed tok h

/-- The token's normalised form is one of the query's. -/
def Matches (query : Text) (fts : FtsConfig) (tok : TokenSpan) : Prop :=
  ∃ normalized, normalizeForMatch fts tok.text = some normalized ∧
    ∃ queryTok ∈ tokenizeForMatch query fts, normalizeForMatch fts queryTok.text = some normalized

theorem matches_iff {query : Text} {fts : FtsConfig} {tok : TokenSpan} :
    Matches query fts tok ↔
      ∃ normalized, normalizeForMatch fts tok.text = some normalized ∧ normalized ∈ querySetOf query fts := by
  unfold Matches querySetOf
  simp only [List.mem_filterMap]

/-- The empty text has no normal form. -/
theorem normalizeForMatch_nil (fts : FtsConfig) : normalizeForMatch fts [] = none := by
  unfold normalizeForMatch
  split
  · rfl
  · have hlower : (if fts.lowerCase then TextTables.toLowercase [] else ([] : Text)) = [] := by
      rw [TextTables.toLowercase_nil, ite_self]
    have hstem : (if fts.stem then TextTables.stem [] else ([] : Text)) = [] := by
      rw [TextTables.stem_nil, ite_self]
    dsimp only
    rw [hlower, hstem]
    split
    · rfl
    · have hfold : (if fts.asciiFolding then asciiFold [] else ([] : Text)) = [] := ite_self _
      rw [hfold]
      rfl

/-- **A token is marked exactly when it matches**, and then by its own place. -/
theorem matchingRange_spec {text query : Text} {fts : FtsConfig} (hlen : byteLen text < 2 ^ 32) {tok : TokenSpan}
    (htok : tok.Placed text) {r : HighlightRange}
    (h : matchingRange text fts (querySetOf query fts) (buildUtf16PrefixMap text) tok = some r) :
    Matches query fts tok ∧ r.Placed text ∧ r.toSpan = (tok.byteStart, tok.byteEnd) := by
  unfold matchingRange at h
  split at h
  · cases h
  next hspan =>
    split at h
    · cases h
    next normalized hnorm =>
      split at h
      next hin =>
        have hstop := htok.2.le
        have hstart := htok.1.le
        rw [Option.some.injEq] at h
        subst h
        have hcast : asU32 tok.byteStart = tok.byteStart ∧ asU32 (tok.byteEnd - tok.byteStart) = tok.byteEnd - tok.byteStart :=
          ⟨Nat.mod_eq_of_lt (by omega), Nat.mod_eq_of_lt (by omega)⟩
        rw [hcast.1, hcast.2]
        refine ⟨matches_iff.2 ⟨normalized, hnorm, hin⟩, placed_of_boundaries htok.1 htok.2 (by omega), ?_⟩
        unfold HighlightRange.toSpan
        dsimp only
        rw [show tok.byteStart + (tok.byteEnd - tok.byteStart) = tok.byteEnd by omega]
      · cases h

theorem matchingRange_some {text query : Text} {fts : FtsConfig} {tok : TokenSpan} (htok : tok.Placed text)
    (hlt : tok.byteStart < tok.byteEnd) (h : Matches query fts tok) :
    ∃ r, matchingRange text fts (querySetOf query fts) (buildUtf16PrefixMap text) tok = some r := by
  obtain ⟨normalized, hnorm, hin⟩ := matches_iff.1 h
  have hstop := htok.2.le
  unfold matchingRange
  rw [if_neg (by omega), hnorm]
  dsimp only
  rw [if_pos hin]
  exact ⟨_, rfl⟩

/-- **Exactly the matching tokens.** The ranges come in order with a gap between
any two, each is a piece of the text, and together they cover the bytes of the
matching tokens. -/
structure ExactHighlights (text query : Text) (fts : FtsConfig) (ranges : List HighlightRange) : Prop where
  gaps : ranges.Pairwise fun a b => a.byteStart + a.byteLength < b.byteStart
  placed : ∀ r ∈ ranges, r.Placed text
  covers : ∀ i, (∃ r ∈ ranges, r.byteStart ≤ i ∧ i < r.byteStart + r.byteLength) ↔
    ∃ tok ∈ tokenizeForMatch text fts, Matches query fts tok ∧ tok.byteStart ≤ i ∧ i < tok.byteEnd

theorem ExactHighlights.none {text query : Text} {fts : FtsConfig}
    (h : ∀ tok ∈ tokenizeForMatch text fts, Matches query fts tok → tok.byteEnd ≤ tok.byteStart) :
    ExactHighlights text query fts [] := by
  refine ⟨.nil, fun r hr => absurd hr List.not_mem_nil, fun i => ⟨?_, ?_⟩⟩
  · rintro ⟨r, hr, -⟩
    exact absurd hr List.not_mem_nil
  · rintro ⟨tok, htok, hmatch, hi⟩
    have := h tok htok hmatch
    omega

/-- The empty query has nothing to match. -/
theorem querySetOf_nil {fts : FtsConfig} (hkind : fts.tokenizer.BuiltIn) : querySetOf [] fts = [] := by
  unfold querySetOf tokenizeForMatch
  rcases hkind with hkind | hkind | hkind | hkind <;> rw [hkind]
  · rfl
  · rfl
  · exact List.filterMap_cons_none (normalizeForMatch_nil fts)
  · dsimp only
    unfold ngramTokens
    split
    · rfl
    · rfl

/-- **Highlights are exactly the matching tokens.** -/
theorem computeHighlights_exact (text query : Text) (fts : FtsConfig) (hlen : byteLen text < 2 ^ 32)
    (hkind : fts.tokenizer.BuiltIn) : ExactHighlights text query fts (computeHighlights text query fts) := by
  have hplaced : ∀ tok ∈ tokenizeForMatch text fts, tok.Placed text := tokenizeForMatch_placed hkind
  have hnoQuery : querySetOf query fts = [] → ∀ tok, ¬Matches query fts tok := by
    intro hempty tok hmatch
    obtain ⟨n, -, hn⟩ := matches_iff.1 hmatch
    rw [hempty] at hn
    exact absurd hn List.not_mem_nil
  unfold computeHighlights
  split
  next hempty =>
    refine .none fun tok htok hmatch => ?_
    rcases Bool.or_eq_true_iff.1 hempty with hempty | hempty
    · obtain rfl := List.isEmpty_iff.1 hempty
      have := (hplaced tok htok).2.le
      rw [byteLen_nil] at this
      omega
    · obtain rfl := List.isEmpty_iff.1 hempty
      exact absurd hmatch (hnoQuery (querySetOf_nil hkind) tok)
  · dsimp only
    split
    next hquery =>
      exact .none fun tok _ hmatch => absurd hmatch (hnoQuery (List.isEmpty_iff.1 hquery) tok)
    · split
      next htokens =>
        refine .none fun tok htok _ => ?_
        rw [List.isEmpty_iff.1 htokens] at htok
        exact absurd htok List.not_mem_nil
      · generalize hranges : (tokenizeForMatch text fts).filterMap
          (matchingRange text fts (querySetOf query fts) (buildUtf16PrefixMap text)) = ranges
        have hspec : ∀ r ∈ ranges, ∃ tok ∈ tokenizeForMatch text fts,
            Matches query fts tok ∧ r.Placed text ∧ r.toSpan = (tok.byteStart, tok.byteEnd) := by
          intro r hr
          obtain ⟨tok, htok, hrange⟩ := List.mem_filterMap.1 (hranges ▸ hr)
          exact ⟨tok, htok, matchingRange_spec hlen (hplaced tok htok) hrange⟩
        have hcombined : Combined text ranges (mergeRanges ranges (buildUtf16PrefixMap text)) :=
            mergeRanges_combined fun r hr => by
          obtain ⟨tok, -, -, hr, -⟩ := hspec r hr
          exact hr
        refine ⟨hcombined.gaps, hcombined.placed, fun i => ?_⟩
        have hcovers := hcombined.covers i
        unfold Spans.Covers at hcovers
        simp only [List.mem_map, exists_exists_and_eq_and] at hcovers
        refine hcovers.trans ⟨?_, ?_⟩
        · rintro ⟨r, hr, hi⟩
          obtain ⟨tok, htok, hmatch, -, hspan⟩ := hspec r hr
          rw [hspan] at hi
          exact ⟨tok, htok, hmatch, hi⟩
        · rintro ⟨tok, htok, hmatch, hi⟩
          obtain ⟨r, hr⟩ := matchingRange_some (hplaced tok htok) (by omega) hmatch
          obtain ⟨-, -, hspan⟩ := matchingRange_spec hlen (hplaced tok htok) hr
          refine ⟨r, hranges ▸ List.mem_filterMap.2 ⟨tok, htok, hr⟩, ?_⟩
          rw [hspan]
          exact hi

end Tables

/-! ## A text with surrogate pairs -/

/-- The tables as far as ASCII letters and digits go. -/
abbrev asciiTables : TextTables where
  isAlphanumeric := Char.isAlphanum
  toLowercase := List.map Char.toLower
  toLowercase_nil := rfl
  stem := id
  stem_nil := rfl
  linderaTokens _ _ := []

/-- The n-gram preset: bigrams, lower case, ASCII folding. -/
def bigrams : FtsConfig := ⟨.ngram, 2, 2, false, true, false, false, true, some 40⟩

/-- Two overlapping bigrams become one range, after a character of two UTF-16 units. -/
theorem bigrams_highlighted :
    @computeHighlights asciiTables "😀étA".toList "eta".toList bigrams = [⟨4, 4, 2, 3⟩] ∧
      @ExactHighlights asciiTables "😀étA".toList "eta".toList bigrams [⟨4, 4, 2, 3⟩] := by
  have hrun : @computeHighlights asciiTables "😀étA".toList "eta".toList bigrams = [⟨4, 4, 2, 3⟩] := by decide +kernel
  refine ⟨hrun, ?_⟩
  have hexact := @computeHighlights_exact asciiTables "😀étA".toList "eta".toList bigrams (by decide)
    (.inr (.inr (.inr rfl)))
  rwa [hrun] at hexact

end MemoryStore.MemorySearch
