/-
Highlight ranges of a hit (`infra/src/infra/memory_vector/highlight.rs`): the
content is tokenized again as the full-text index does, and the tokens that
normalise to a token of the query are reported by their place.

A text is its characters, and a position in it a byte offset. Unicode tables, the
English stemmer and the dictionary tokenizers are the class `TextTables`. Sums of
positions stay below the length of the text, so only the casts to `u32` wrap.
-/
import MemoryStore.Lib.Utf8

namespace MemoryStore.MemorySearch

open Utf8 (byteLen)

abbrev Text := List Char

/-- `char::len_utf16` -/
def lenUtf16 (c : Char) : Nat := if c.toNat < 0x10000 then 1 else 2

/-- `str::encode_utf16().count()` -/
def utf16Len (text : Text) : Nat := (text.map lenUtf16).sum

/-- `as u32` -/
def asU32 (n : Nat) : Nat := n % 2 ^ 32

/-- `str::char_indices`, from an offset. -/
def charIndicesFrom : Nat → Text → List (Nat × Char)
  | _, [] => []
  | idx, ch :: text => (idx, ch) :: charIndicesFrom (idx + ch.utf8Size) text

def charIndices (text : Text) : List (Nat × Char) := charIndicesFrom 0 text

/-- `&text[start..end]`, for character boundaries. -/
def slice (text : Text) (start stop : Nat) : Text :=
  ((charIndices text).filter fun (idx, _) => start ≤ idx && idx < stop).map Prod.snd

inductive FtsTokenizerKind where
  | simple | whitespace | raw | ngram | linderaIpadic | linderaUnidic | linderaKoDic
  deriving DecidableEq, Repr

/-- What highlighting reads of `FtsConfig`. -/
structure FtsConfig where
  tokenizer : FtsTokenizerKind
  ngramMin : Nat
  ngramMax : Nat
  ngramPrefixOnly : Bool
  lowerCase : Bool
  stem : Bool
  removeStopWords : Bool
  asciiFolding : Bool
  maxTokenLength : Option Nat

structure TokenSpan where
  byteStart : Nat
  byteEnd : Nat
  text : Text
  deriving DecidableEq, Repr

/-- What the standard library and third-party packages decide about texts. -/
class TextTables where
  isAlphanumeric : Char → Bool
  toLowercase : Text → Text
  toLowercase_nil : toLowercase [] = []
  /-- The Snowball English stemmer. -/
  stem : Text → Text
  stem_nil : stem [] = []
  linderaTokens : FtsTokenizerKind → Text → List TokenSpan

/-! ## Tokenizers -/

/-- The loop of `split_tokens_by`, in a token from `start` on. -/
def splitTokens (text : Text) (isTokenChar : Char → Bool) : List (Nat × Char) → Option Nat → List TokenSpan
  | [], none => []
  | [], some s => [⟨s, byteLen text, slice text s (byteLen text)⟩]
  | (idx, ch) :: rest, start =>
    if isTokenChar ch then splitTokens text isTokenChar rest (some (start.getD idx))
    else match start with
      | some s => ⟨s, idx, slice text s idx⟩ :: splitTokens text isTokenChar rest none
      | none => splitTokens text isTokenChar rest none

/-- `split_tokens_by` -/
def splitTokensBy (text : Text) (isTokenChar : Char → Bool) : List TokenSpan :=
  splitTokens text isTokenChar (charIndices text) none

/-- `raw_token` -/
def rawToken (text : Text) : List TokenSpan := [⟨0, byteLen text, text⟩]

/-- `slice::windows` -/
def windows {α : Type} (n : Nat) (l : List α) : List (List α) :=
  (List.range (l.length + 1 - n)).map fun i => (l.drop i).take n

/-- The span of a window of characters. -/
def windowSpan (text : Text) (window : List (Nat × Char)) : Option TokenSpan := do
  let first ← window.head?
  let last ← window.getLast?
  let byteEnd := last.1 + last.2.utf8Size
  some ⟨first.1, byteEnd, slice text first.1 byteEnd⟩

/-- `ngram_tokens` -/
def ngramTokens (text : Text) (min max : Nat) (prefixOnly : Bool) : List TokenSpan :=
  if min = 0 ∨ max < min then []
  else
    let chars := charIndices text
    if chars.isEmpty then []
    else (List.range' min (max - min + 1)).flatMap fun n =>
      let spans := (windows n chars).filterMap (windowSpan text)
      if prefixOnly then spans.takeWhile fun span => span.byteStart = 0 else spans

section Tables

variable [TextTables]

/-- `tokenize_for_match` -/
def tokenizeForMatch (text : Text) (fts : FtsConfig) : List TokenSpan :=
  match fts.tokenizer with
  | .whitespace => splitTokensBy text fun ch => !Whitespace.isWhiteSpace ch
  | .simple => splitTokensBy text TextTables.isAlphanumeric
  | .raw => rawToken text
  | .ngram => ngramTokens text fts.ngramMin fts.ngramMax fts.ngramPrefixOnly
  | .linderaIpadic | .linderaUnidic | .linderaKoDic => TextTables.linderaTokens fts.tokenizer text

/-! ## Normalising a token -/

/-- `ENGLISH_STOP_WORDS` -/
def englishStopWords : List String :=
  ["a", "an", "and", "are", "as", "at", "be", "but", "by", "for", "if", "in", "into", "is", "it",
    "no", "not", "of", "on", "or", "such", "that", "the", "their", "then", "there", "these",
    "they", "this", "to", "was", "will", "with"]

/-- `is_english_stop_word` -/
def isEnglishStopWord (text : Text) : Bool := decide (String.ofList text ∈ englishStopWords)

/-- `fold_char` -/
def foldChar (c : Char) : Char :=
  if 'À' ≤ c ∧ c ≤ 'Å' then 'A'
  else if 'à' ≤ c ∧ c ≤ 'å' then 'a'
  else if c = 'Ç' then 'C'
  else if c = 'ç' then 'c'
  else if 'È' ≤ c ∧ c ≤ 'Ë' then 'E'
  else if 'è' ≤ c ∧ c ≤ 'ë' then 'e'
  else if 'Ì' ≤ c ∧ c ≤ 'Ï' then 'I'
  else if 'ì' ≤ c ∧ c ≤ 'ï' then 'i'
  else if c = 'Ñ' then 'N'
  else if c = 'ñ' then 'n'
  else if 'Ò' ≤ c ∧ c ≤ 'Ö' ∨ c = 'Ø' then 'O'
  else if 'ò' ≤ c ∧ c ≤ 'ö' ∨ c = 'ø' then 'o'
  else if 'Ù' ≤ c ∧ c ≤ 'Ü' then 'U'
  else if 'ù' ≤ c ∧ c ≤ 'ü' then 'u'
  else if c = 'Ý' ∨ c = 'Ÿ' then 'Y'
  else if c = 'ý' ∨ c = 'ÿ' then 'y'
  else c

/-- `ascii_fold` -/
def asciiFold (text : Text) : Text := text.map foldChar

/-- `normalize_for_match`; a long token, a stop word and an empty token are dropped. -/
def normalizeForMatch (fts : FtsConfig) (s : Text) : Option Text :=
  if fts.maxTokenLength.any fun limit => limit ≤ byteLen s then none
  else
    let out := if fts.lowerCase then TextTables.toLowercase s else s
    let out := if fts.stem then TextTables.stem out else out
    if fts.removeStopWords && isEnglishStopWord out then none
    else
      let out := if fts.asciiFolding then asciiFold out else out
      if out.isEmpty then none else some out

/-! ## Ranges -/

structure HighlightRange where
  byteStart : Nat
  byteLength : Nat
  utf16Start : Nat
  utf16Length : Nat
  deriving DecidableEq, Repr

/-- The UTF-16 offset of each byte, after `acc` code units. -/
def utf16Offsets : Nat → Text → List Nat
  | acc, [] => [acc]
  | acc, ch :: text => List.replicate ch.utf8Size acc ++ utf16Offsets (acc + lenUtf16 ch) text

/-- `build_utf16_prefix_map` -/
def buildUtf16PrefixMap (text : Text) : List Nat := utf16Offsets 0 text

/-- The order `merge_ranges` sorts by. -/
def HighlightRange.sortKey (r : HighlightRange) : Nat ×ₗ Nat := toLex (r.byteStart, r.byteLength)

/-- One range more, into ranges kept latest first. -/
def mergeRange (merged : List HighlightRange) (r : HighlightRange) : List HighlightRange :=
  let rEnd := r.byteStart + r.byteLength
  match merged with
  | [] => [r]
  | prev :: rest =>
    let prevEnd := prev.byteStart + prev.byteLength
    if r.byteStart ≤ prevEnd then
      if prevEnd < rEnd then { prev with byteLength := rEnd - prev.byteStart } :: rest else prev :: rest
    else r :: prev :: rest

/-- The UTF-16 offsets of a range's byte offsets. -/
def withUtf16 (utf16Prefix : List Nat) (r : HighlightRange) : HighlightRange :=
  let utf16Start := utf16Prefix.getD r.byteStart 0
  let utf16End := utf16Prefix.getD (r.byteStart + r.byteLength) 0
  { r with utf16Start := utf16Start, utf16Length := utf16End - utf16Start }

/-- `merge_ranges` -/
def mergeRanges (ranges : List HighlightRange) (utf16Prefix : List Nat) : List HighlightRange :=
  if ranges.length ≤ 1 then ranges
  else
    let sorted := ranges.insertionSort fun a b => a.sortKey ≤ b.sortKey
    ((sorted.foldl mergeRange []).reverse).map (withUtf16 utf16Prefix)

/-- The range of a text token, if it matches the query. -/
def matchingRange (text : Text) (fts : FtsConfig) (querySet : List Text) (utf16Prefix : List Nat) (tok : TokenSpan) :
    Option HighlightRange :=
  if tok.byteEnd ≤ tok.byteStart ∨ byteLen text < tok.byteEnd then none
  else match normalizeForMatch fts tok.text with
    | none => none
    | some normalized =>
      if normalized ∈ querySet then
        let utf16Start := utf16Prefix.getD tok.byteStart 0
        let utf16End := utf16Prefix.getD tok.byteEnd 0
        some ⟨asU32 tok.byteStart, asU32 (tok.byteEnd - tok.byteStart), utf16Start, utf16End - utf16Start⟩
      else none

/-- The normalised tokens of a query. -/
def querySetOf (query : Text) (fts : FtsConfig) : List Text :=
  (tokenizeForMatch query fts).filterMap fun tok => normalizeForMatch fts tok.text

/-- `compute_highlights` -/
def computeHighlights (text query : Text) (fts : FtsConfig) : List HighlightRange :=
  if text.isEmpty || query.isEmpty then []
  else
    let querySet := querySetOf query fts
    if querySet.isEmpty then []
    else
      let textTokens := tokenizeForMatch text fts
      if textTokens.isEmpty then []
      else
        let utf16Prefix := buildUtf16PrefixMap text
        let ranges := textTokens.filterMap (matchingRange text fts querySet utf16Prefix)
        mergeRanges ranges utf16Prefix

end Tables

end MemoryStore.MemorySearch
