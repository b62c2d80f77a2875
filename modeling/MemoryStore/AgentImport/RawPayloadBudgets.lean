/-
What sanitising a raw payload guarantees, and of which payloads: the shape stays,
each record states the length of what it stands for, and the strings of the result
are free of NUL characters, within their budgets and left alone a second time as
long as no string of the payload is of one of three kinds.
-/
import MemoryStore.AgentImport.RawPayload

namespace MemoryStore.AgentImport

open Utf8

/-! ## Texts -/

theorem isPrefixOf?_eq_some : ∀ {l s rest : Text}, l.isPrefixOf? s = some rest → s = l ++ rest
  | [], s, rest, h => by
    rw [List.isPrefixOf?] at h
    exact Option.some.inj h
  | c :: l, [], rest, h => by cases h
  | c :: l, d :: s, rest, h => by
    rw [List.isPrefixOf?] at h
    split at h
    next hcd =>
      obtain rfl := beq_iff_eq.1 hcd
      rw [isPrefixOf?_eq_some h, List.cons_append]
    · cases h

theorem isSuffixOf?_eq_some {l s rest : Text} (h : l.isSuffixOf? s = some rest) : s = rest ++ l := by
  unfold List.isSuffixOf? at h
  obtain ⟨t, ht, rfl⟩ := Option.map_eq_some_iff.1 h
  have hrev := isPrefixOf?_eq_some ht
  rw [← List.reverse_inj, hrev, List.reverse_append, List.reverse_reverse]

theorem byteLen_stripNulBytes_le : ∀ s : Text, byteLen (stripNulBytes s) ≤ byteLen s
  | [] => Nat.le_refl _
  | c :: s => by
    have ih := byteLen_stripNulBytes_le s
    unfold stripNulBytes at ih ⊢
    rw [List.filter_cons]
    split
    · rw [byteLen_cons, byteLen_cons]
      omega
    · rw [byteLen_cons]
      omega

theorem nul_not_mem_stripNulBytes (s : Text) : Char.ofNat 0 ∉ stripNulBytes s := by
  unfold stripNulBytes
  intro h
  have := (List.mem_filter.1 h).2
  simp at this

theorem stripNulBytes_eq_self {s : Text} : stripNulBytes s = s ↔ Char.ofNat 0 ∉ s := by
  refine ⟨fun h => h ▸ nul_not_mem_stripNulBytes s, fun h => ?_⟩
  unfold stripNulBytes
  rw [List.filter_eq_self]
  intro c hc
  exact decide_eq_true fun hnul => h (hnul ▸ hc)

theorem byteLen_takeBytes : ∀ (s : Text) {stop : Nat}, isCharBoundary s stop → byteLen (takeBytes s stop) = stop
  | [], stop, h => by
    unfold isCharBoundary at h
    simp only [List.inits, List.any_cons, List.any_nil, Bool.or_false, decide_eq_true_eq] at h
    exact h
  | c :: s, stop, h => by
    have hc := c.utf8Size_pos
    unfold isCharBoundary at h
    rw [List.inits_cons, List.any_cons, List.any_map, Bool.or_eq_true, decide_eq_true_eq, byteLen_nil] at h
    unfold takeBytes
    split
    next hzero => rw [hzero]; rfl
    next hpos =>
      have hrest : isCharBoundary s (stop - c.utf8Size) ∧ c.utf8Size ≤ stop := by
        rcases h with h | h
        · exact absurd h.symm hpos
        · obtain ⟨before, hbefore, hlen⟩ := List.any_eq_true.1 h
          have hlen : byteLen (c :: before) = stop := of_decide_eq_true hlen
          rw [byteLen_cons] at hlen
          exact ⟨List.any_eq_true.2 ⟨before, hbefore, decide_eq_true (by omega)⟩, by omega⟩
      rw [byteLen_cons, byteLen_takeBytes s hrest.1]
      omega

theorem boundaryBelow_spec (s : Text) : ∀ stop, isCharBoundary s (boundaryBelow s stop) ∧ boundaryBelow s stop ≤ stop
  | 0 => ⟨List.any_eq_true.2 ⟨[], List.mem_inits _ _ |>.2 List.nil_prefix, rfl⟩, Nat.le_refl _⟩
  | stop + 1 => by
    unfold boundaryBelow
    split
    next h => exact ⟨h, Nat.le_refl _⟩
    · obtain ⟨h, hle⟩ := boundaryBelow_spec s stop
      exact ⟨h, Nat.le_succ_of_le hle⟩

/-- A preview keeps its byte limit, wherever that falls in a character. -/
theorem byteLen_safeTruncate_le (s : Text) (maxBytes : Nat) :
    byteLen (safeTruncateAtCharBoundary s maxBytes) ≤ maxBytes := by
  unfold safeTruncateAtCharBoundary
  split
  next h => exact h
  · obtain ⟨h, hle⟩ := boundaryBelow_spec s maxBytes
    rw [byteLen_takeBytes s h]
    exact hle

theorem mem_bigEndian_lt {n b : Nat} : ∀ {k : Nat}, b ∈ Sha256.bigEndian k n → b < 256
  | 0, h => absurd h List.not_mem_nil
  | k + 1, h => by
    rcases List.mem_cons.1 h with rfl | h
    · exact Nat.mod_lt _ (by decide)
    · exact mem_bigEndian_lt h

theorem hexDigit_plain {n : Nat} (h : n < 16) : Sha256.hexDigit n ≠ Char.ofNat 0 ∧ Sha256.hexDigit n ≠ ':' := by
  interval_cases n <;> decide

/-- A digest is written in hexadecimal digits. -/
theorem sha256HexPrefix_plain {input : Text} {n : Nat} {c : Char} (h : c ∈ sha256HexPrefix input n) :
    c ≠ Char.ofNat 0 ∧ c ≠ ':' := by
  have hdigest := List.mem_of_mem_take h
  unfold Sha256.digestHex at hdigest
  obtain ⟨word, -, hword⟩ := List.mem_flatMap.1 hdigest
  obtain ⟨byte, hbyte, hc⟩ := List.mem_flatMap.1 hword
  have hlt := mem_bigEndian_lt hbyte
  rcases List.mem_pair.1 hc with rfl | rfl
  · exact hexDigit_plain (by omega)
  · exact hexDigit_plain (by omega)

/-! ## Data URLs -/

/-- A data URL has the scheme and, after it, a comma. -/
def PlainText (s : Text) : Prop :=
  ∀ mediaType payload, parseImageUrl s ≠ .dataBase64 mediaType payload ∧ parseImageUrl s ≠ .dataNonBase64 mediaType payload

theorem plainText_of_no_scheme {s : Text} (h : "data:".toList.isPrefixOf? s = none) : PlainText s := by
  intro mediaType payload
  unfold parseImageUrl
  rw [h]
  dsimp only
  split
  · exact ⟨nofun, nofun⟩
  · split <;> exact ⟨nofun, nofun⟩

theorem plainText_of_no_colon {s : Text} (h : ':' ∉ s) : PlainText s := by
  cases hscheme : "data:".toList.isPrefixOf? s with
  | none => exact plainText_of_no_scheme hscheme
  | some rest =>
    rw [isPrefixOf?_eq_some hscheme] at h
    exact absurd (List.mem_append_left _ (by decide)) h

theorem plainText_of_no_comma {s : Text} (h : ',' ∉ s) : PlainText s := by
  cases hscheme : "data:".toList.isPrefixOf? s with
  | none => exact plainText_of_no_scheme hscheme
  | some rest =>
    intro mediaType payload
    have hdrop : (rest.dropWhile fun c => c ≠ ',') = [] := by
      rw [List.dropWhile_eq_nil_iff]
      intro c hc
      refine decide_eq_true fun hcomma => h ?_
      rw [isPrefixOf?_eq_some hscheme, ← hcomma]
      exact List.mem_append_right _ hc
    unfold parseImageUrl
    rw [hscheme]
    dsimp only
    unfold parseDataUrl
    rw [hdrop]
    exact ⟨nofun, nofun⟩

/-- The media type of a data URL comes before its comma. -/
theorem comma_not_mem_mediaType {s media payload : Text} (h : parseImageUrl s = .dataBase64 (some media) payload) :
    ',' ∉ media := by
  unfold parseImageUrl at h
  split at h
  next rest hscheme =>
    unfold parseDataUrl at h
    split at h
    · cases h
    · dsimp only at h
      generalize hheader : (rest.takeWhile fun c => c ≠ ',') = header at h
      have hnone : ',' ∉ header := by
        intro hcomma
        rw [← hheader] at hcomma
        have := List.mem_takeWhile_imp hcomma
        simp at this
      have hmedia : ∀ c ∈ (parseHeader header).1, c ∈ header := by
        intro c hc
        unfold parseHeader at hc
        split at hc
        next mt hsuffix =>
          rw [isSuffixOf?_eq_some hsuffix]
          exact List.mem_append_left _ hc
        · split at hc
          · exact absurd hc List.not_mem_nil
          · exact hc
      split at h
      · obtain ⟨hmt, -⟩ := ImageUrlVariant.dataBase64.inj h
        split at hmt
        · cases hmt
        · rw [← Option.some.inj hmt]
          exact fun hcomma => hnone (hmedia _ hcomma)
      · cases h
  · split at h
    · cases h
    · split at h <;> cases h

theorem data_of_dataBase64 {s payload : Text} {mediaType : Option Text}
    (h : parseImageUrl s = .dataBase64 mediaType payload) : "data:".toList.isPrefixOf s = true := by
  cases hscheme : "data:".toList.isPrefixOf? s with
  | none => exact absurd h (plainText_of_no_scheme hscheme mediaType payload).1
  | some rest =>
    rw [isPrefixOf?_eq_some hscheme, List.isPrefixOf_iff_prefix]
    exact List.prefix_append _ _

/-! ## The strings of a value -/

mutual

/-- The strings of a value, each with the key it is under. -/
def strings (fieldHint : Option String) : Value → List (Option String × Text)
  | .object fields => fieldStrings fields
  | .array values => valueStrings fieldHint values
  | .string s => [(fieldHint, s)]
  | .null | .bool _ | .number _ => []

def valueStrings (fieldHint : Option String) : List Value → List (Option String × Text)
  | [] => []
  | v :: values => strings fieldHint v ++ valueStrings fieldHint values

def fieldStrings : List (String × Value) → List (Option String × Text)
  | [] => []
  | (k, v) :: fields => strings (some k) v ++ fieldStrings fields

end

theorem strings_textRecord (fieldHint : Option String) (sizeBytes : Nat) (sha256 preview : Text) :
    strings fieldHint (textRecord sizeBytes sha256 preview) = [(some "sha256", sha256), (some "preview", preview)] := rfl

theorem strings_dataUrlRecord (fieldHint : Option String) (mediaType : Option Text) (sizeBytes : Nat) (sha256 : Text) :
    strings fieldHint (dataUrlRecord mediaType sizeBytes sha256) =
      (some "kind", "data_url".toList) :: (mediaType.toList.map fun media => (some "media_type", media)) ++
        [(some "sha256", sha256)] := by
  cases mediaType <;> rfl

section Decoding

variable [Base64]

/-- A base64 data URL over the attachment budget. -/
def Oversized (cfg : SizeConfig) (s : Text) : Prop :=
  ∃ mediaType payload, parseImageUrl s = .dataBase64 mediaType payload ∧ cfg.attachmentInlineMax < rawLen payload

/-- The text of a tool-output field over the tool-output budget. -/
def TooLong (cfg : SizeConfig) (fieldHint : Option String) (s : Text) : Prop :=
  isLargeTextField fieldHint = true ∧ cfg.toolOutputFull < byteLen s

theorem PlainText.not_oversized {s : Text} (h : PlainText s) (cfg : SizeConfig) : ¬Oversized cfg s := by
  rintro ⟨mediaType, payload, hparse, -⟩
  exact (h mediaType payload).1 hparse

/-- **The three ways of a string**: the record of a data URL, the record of a text,
or itself without its NULs. -/
inductive SanitizedString (cfg : SizeConfig) (fieldHint : Option String) (s : Text) : Value → Prop
  | dataUrl {mediaType : Option Text} {payload : Text} (hparse : parseImageUrl s = .dataBase64 mediaType payload)
      (hlen : cfg.attachmentInlineMax < rawLen payload) :
      SanitizedString cfg fieldHint s (dataUrlRecord mediaType (rawLen payload) (sha256HexPrefix payload 64))
  | text (hsize : ¬Oversized cfg s) (hlong : TooLong cfg fieldHint s) :
      SanitizedString cfg fieldHint s (elideText s cfg.toolOutputFull)
  | kept (hsize : ¬Oversized cfg s) (hlong : ¬TooLong cfg fieldHint s) :
      SanitizedString cfg fieldHint s (.string (stripNulBytes s))

theorem sanitizeString_spec (s : Text) (cfg : SizeConfig) (fieldHint : Option String) :
    SanitizedString cfg fieldHint s (sanitizeString s cfg fieldHint) := by
  unfold sanitizeString
  by_cases hsize : Oversized cfg s
  · obtain ⟨mediaType, payload, hparse, hlen⟩ := hsize
    have helide : elideDataUrl s cfg = some (dataUrlRecord mediaType (rawLen payload) (sha256HexPrefix payload 64)) := by
      unfold elideDataUrl
      rw [hparse]
      exact if_neg (Nat.not_le.2 hlen)
    rw [if_pos (data_of_dataBase64 hparse), helide]
    exact .dataUrl hparse hlen
  · have helide : elideDataUrl s cfg = none := by
      unfold elideDataUrl
      split
      next mediaType payload hparse =>
        rw [if_pos (Nat.not_lt.1 fun hlen => hsize ⟨mediaType, payload, hparse, hlen⟩)]
      · rfl
    rw [helide, ite_self]
    dsimp only
    split
    next h =>
      rw [Bool.and_eq_true, decide_eq_true_eq] at h
      exact .text hsize h
    next h =>
      rw [Bool.and_eq_true, decide_eq_true_eq] at h
      exact .kept hsize h

/-! ## The shape -/

/-- **What stands for a string**: a string, or a record with its byte length, which
for a data URL is that of the attachment (of the payload as it is, where that does
not decode). -/
inductive StandsFor (s : Text) : Value → Prop
  | string (t : Text) : StandsFor s (.string t)
  | text (sha256 preview : Text) : StandsFor s (textRecord (byteLen s) sha256 preview)
  | dataUrl {mediaType : Option Text} {payload : Text} (sha256 : Text)
      (hparse : parseImageUrl s = .dataBase64 mediaType payload) :
      StandsFor s (dataUrlRecord mediaType (rawLen payload) sha256)

mutual

/-- The same objects, keys, arrays, numbers and booleans. -/
inductive SameShape : Value → Value → Prop
  | null : SameShape .null .null
  | bool (b : Bool) : SameShape (.bool b) (.bool b)
  | number (n : ℚ) : SameShape (.number n) (.number n)
  | string {s : Text} {w : Value} (h : StandsFor s w) : SameShape (.string s) w
  | array {values values' : List Value} (h : SameShapes values values') : SameShape (.array values) (.array values')
  | object {fields fields' : List (String × Value)} (h : SameFields fields fields') :
      SameShape (.object fields) (.object fields')

inductive SameShapes : List Value → List Value → Prop
  | nil : SameShapes [] []
  | cons {v w : Value} {vs ws : List Value} (h : SameShape v w) (hrest : SameShapes vs ws) :
      SameShapes (v :: vs) (w :: ws)

inductive SameFields : List (String × Value) → List (String × Value) → Prop
  | nil : SameFields [] []
  | cons {k : String} {v w : Value} {vs ws : List (String × Value)} (h : SameShape v w) (hrest : SameFields vs ws) :
      SameFields ((k, v) :: vs) ((k, w) :: ws)

end

theorem sanitizeString_standsFor (s : Text) (cfg : SizeConfig) (fieldHint : Option String) :
    StandsFor s (sanitizeString s cfg fieldHint) := by
  have hspec := sanitizeString_spec s cfg fieldHint
  generalize sanitizeString s cfg fieldHint = w at hspec
  cases hspec with
  | dataUrl hparse _ => exact .dataUrl _ hparse
  | text _ _ => exact .text _ _
  | kept _ _ => exact .string _

mutual

theorem sanitizeValue_shape (cfg : SizeConfig) (fieldHint : Option String) :
    ∀ v, SameShape v (sanitizeValue cfg fieldHint v)
  | .null => .null
  | .bool b => .bool b
  | .number n => .number n
  | .string s => .string (sanitizeString_standsFor s cfg fieldHint)
  | .array values => .array (sanitizeValues_shape cfg fieldHint values)
  | .object fields => .object (sanitizeFields_shape cfg fields)

theorem sanitizeValues_shape (cfg : SizeConfig) (fieldHint : Option String) :
    ∀ values, SameShapes values (sanitizeValues cfg fieldHint values)
  | [] => .nil
  | v :: values => .cons (sanitizeValue_shape cfg fieldHint v) (sanitizeValues_shape cfg fieldHint values)

theorem sanitizeFields_shape (cfg : SizeConfig) : ∀ fields, SameFields fields (sanitizeFields cfg fields)
  | [] => .nil
  | (k, v) :: fields => .cons (sanitizeValue_shape cfg (some k) v) (sanitizeFields_shape cfg fields)

end

/-! ## String by string -/

/-- The strings that stand for one string. -/
def replaced (cfg : SizeConfig) (leaf : Option String × Text) : List (Option String × Text) :=
  strings leaf.1 (sanitizeString leaf.2 cfg leaf.1)

mutual

/-- Sanitising works string by string. -/
theorem strings_sanitizeValue (cfg : SizeConfig) (fieldHint : Option String) :
    ∀ v, strings fieldHint (sanitizeValue cfg fieldHint v) = (strings fieldHint v).flatMap (replaced cfg)
  | .null => rfl
  | .bool _ => rfl
  | .number _ => rfl
  | .string s => by
    rw [strings, List.flatMap_singleton]
    rfl
  | .array values => by
    rw [sanitizeValue, strings, strings]
    exact valueStrings_sanitizeValues cfg fieldHint values
  | .object fields => by
    rw [sanitizeValue, strings, strings]
    exact fieldStrings_sanitizeFields cfg fields

theorem valueStrings_sanitizeValues (cfg : SizeConfig) (fieldHint : Option String) :
    ∀ values, valueStrings fieldHint (sanitizeValues cfg fieldHint values) =
      (valueStrings fieldHint values).flatMap (replaced cfg)
  | [] => rfl
  | v :: values => by
    rw [sanitizeValues, valueStrings, valueStrings, List.flatMap_append, strings_sanitizeValue cfg fieldHint v,
      valueStrings_sanitizeValues cfg fieldHint values]

theorem fieldStrings_sanitizeFields (cfg : SizeConfig) :
    ∀ fields, fieldStrings (sanitizeFields cfg fields) = (fieldStrings fields).flatMap (replaced cfg)
  | [] => rfl
  | (k, v) :: fields => by
    rw [sanitizeFields, fieldStrings, fieldStrings, List.flatMap_append, strings_sanitizeValue cfg (some k) v,
      fieldStrings_sanitizeFields cfg fields]

end

/-- The string is left as it is. -/
def Settled (cfg : SizeConfig) (leaf : Option String × Text) : Prop :=
  sanitizeString leaf.2 cfg leaf.1 = .string leaf.2

mutual

/-- A value is left as it is when each of its strings is. -/
theorem sanitizeValue_eq_self (cfg : SizeConfig) (fieldHint : Option String) :
    ∀ v, sanitizeValue cfg fieldHint v = v ↔ ∀ leaf ∈ strings fieldHint v, Settled cfg leaf
  | .null => by simp [sanitizeValue, strings]
  | .bool _ => by simp [sanitizeValue, strings]
  | .number _ => by simp [sanitizeValue, strings]
  | .string s => by
    rw [strings, List.forall_mem_singleton, sanitizeValue]
    rfl
  | .array values => by
    rw [strings, sanitizeValue, Value.array.injEq]
    exact sanitizeValues_eq_self cfg fieldHint values
  | .object fields => by
    rw [strings, sanitizeValue, Value.object.injEq]
    exact sanitizeFields_eq_self cfg fields

theorem sanitizeValues_eq_self (cfg : SizeConfig) (fieldHint : Option String) :
    ∀ values, sanitizeValues cfg fieldHint values = values ↔ ∀ leaf ∈ valueStrings fieldHint values, Settled cfg leaf
  | [] => by simp [sanitizeValues, valueStrings]
  | v :: values => by
    rw [sanitizeValues, valueStrings, List.forall_mem_append, List.cons.injEq, sanitizeValue_eq_self cfg fieldHint v,
      sanitizeValues_eq_self cfg fieldHint values]

theorem sanitizeFields_eq_self (cfg : SizeConfig) :
    ∀ fields, sanitizeFields cfg fields = fields ↔ ∀ leaf ∈ fieldStrings fields, Settled cfg leaf
  | [] => by simp [sanitizeFields, fieldStrings]
  | (k, v) :: fields => by
    rw [sanitizeFields, fieldStrings, List.forall_mem_append, List.cons.injEq, Prod.mk.injEq,
      sanitizeValue_eq_self cfg (some k) v, sanitizeFields_eq_self cfg fields]
    simp only [true_and]

end

/-! ## Budgets -/

/-- The string has no NUL and is within the budgets. -/
structure Clean (cfg : SizeConfig) (fieldHint : Option String) (s : Text) : Prop where
  noNul : Char.ofNat 0 ∉ s
  toolOutput : isLargeTextField fieldHint = true → byteLen s ≤ cfg.toolOutputFull
  nonBase64 : ∀ mediaType raw, parseImageUrl s = .dataNonBase64 mediaType raw → byteLen s ≤ cfg.toolOutputFull
  attachment : ∀ mediaType payload n, parseImageUrl s = .dataBase64 mediaType payload →
    Base64.decodedLen payload = some n → n ≤ cfg.attachmentInlineMax

/-- **Sanitising keeps its budgets** on a payload: the shape, every string, and the
result itself when it is sanitised again. -/
structure KeepsBudgets (cfg : SizeConfig) (payload : Value) : Prop where
  shape : SameShape payload (sanitizeRawPayload payload cfg)
  clean : ∀ leaf ∈ strings none (sanitizeRawPayload payload cfg), Clean cfg leaf.1 leaf.2
  settled : sanitizeRawPayload (sanitizeRawPayload payload cfg) cfg = sanitizeRawPayload payload cfg

/-- **The strings that keep the budgets**, by what becomes of them. The media type of
a data URL that is elided has no NUL; the preview of a text that is elided has none
and is not a data URL over the attachment budget; and what is left of any other
string without its NULs is no data URL over a budget. -/
structure Harmless (cfg : SizeConfig) (fieldHint : Option String) (s : Text) : Prop where
  mediaType : ∀ media payload, parseImageUrl s = .dataBase64 (some media) payload →
    cfg.attachmentInlineMax < rawLen payload → Char.ofNat 0 ∉ media
  preview : ¬Oversized cfg s → TooLong cfg fieldHint s →
    Char.ofNat 0 ∉ safeTruncateAtCharBoundary s (min cfg.toolOutputFull 256) ∧
      ¬Oversized cfg (safeTruncateAtCharBoundary s (min cfg.toolOutputFull 256))
  kept : ¬Oversized cfg s → ¬TooLong cfg fieldHint s →
    ¬Oversized cfg (stripNulBytes s) ∧ ∀ mediaType raw, parseImageUrl (stripNulBytes s) = .dataNonBase64 mediaType raw →
      byteLen (stripNulBytes s) ≤ cfg.toolOutputFull

/-- A string that is clean and left alone. -/
structure Lasting (cfg : SizeConfig) (leaf : Option String × Text) : Prop where
  clean : Clean cfg leaf.1 leaf.2
  settled : Settled cfg leaf

theorem lasting_iff {cfg : SizeConfig} {fieldHint : Option String} {s : Text} :
    Lasting cfg (fieldHint, s) ↔ Char.ofNat 0 ∉ s ∧ ¬TooLong cfg fieldHint s ∧ ¬Oversized cfg s ∧
      ∀ mediaType raw, parseImageUrl s = .dataNonBase64 mediaType raw → byteLen s ≤ cfg.toolOutputFull := by
  constructor
  · rintro ⟨hclean, hsettled⟩
    refine ⟨hclean.noNul, fun hlong => absurd (hclean.toolOutput hlong.1) (Nat.not_le.2 hlong.2), fun hsize => ?_,
      hclean.nonBase64⟩
    unfold Settled at hsettled
    dsimp only at hsettled
    have hspec := sanitizeString_spec s cfg fieldHint
    generalize sanitizeString s cfg fieldHint = w at hspec hsettled
    cases hspec with
    | dataUrl _ _ => cases hsettled
    | text hno _ => exact hno hsize
    | kept hno _ => exact hno hsize
  · rintro ⟨hnul, hlong, hsize, hdata⟩
    refine ⟨⟨hnul, fun htext => Nat.not_lt.1 fun hlt => hlong ⟨htext, hlt⟩, hdata,
      fun mediaType payload n hparse hdecoded => ?_⟩, ?_⟩
    · refine Nat.not_lt.1 fun hlt => hsize ⟨mediaType, payload, hparse, ?_⟩
      unfold rawLen
      rw [hdecoded]
      exact hlt
    · unfold Settled
      dsimp only
      generalize hw : sanitizeString s cfg fieldHint = w
      have hspec := sanitizeString_spec s cfg fieldHint
      rw [hw] at hspec
      cases hspec with
      | dataUrl hparse hlen => exact absurd ⟨_, _, hparse, hlen⟩ hsize
      | text _ h => exact absurd h hlong
      | kept _ _ => rw [stripNulBytes_eq_self.2 hnul]

/-- A plain text without NUL under another field lasts. -/
theorem PlainText.lasting {cfg : SizeConfig} {fieldHint : Option String} {s : Text} (h : PlainText s)
    (hnul : Char.ofNat 0 ∉ s) (hfield : isLargeTextField fieldHint = false) : Lasting cfg (fieldHint, s) := by
  refine lasting_iff.2 ⟨hnul, fun hlong => ?_, h.not_oversized cfg, fun mediaType raw hparse => ?_⟩
  · have htext := hlong.1
    rw [hfield] at htext
    exact absurd htext Bool.false_ne_true
  · exact absurd hparse (h mediaType raw).2

theorem sha256_lasting (cfg : SizeConfig) (input : Text) :
    Lasting cfg (some "sha256", sha256HexPrefix input 64) :=
  PlainText.lasting (plainText_of_no_colon fun h => (sha256HexPrefix_plain h).2 rfl)
    (fun h => (sha256HexPrefix_plain h).1 rfl) (by decide)

/-- **One string**: what stands for it lasts exactly when the string is harmless. -/
theorem replaced_lasting_iff (cfg : SizeConfig) (leaf : Option String × Text) :
    (∀ new ∈ replaced cfg leaf, Lasting cfg new) ↔ Harmless cfg leaf.1 leaf.2 := by
  obtain ⟨fieldHint, s⟩ := leaf
  unfold replaced
  dsimp only
  generalize hw : sanitizeString s cfg fieldHint = w
  have hspec := sanitizeString_spec s cfg fieldHint
  rw [hw] at hspec
  cases hspec with
  | @dataUrl mediaType payload hparse hlen =>
    have hsize : Oversized cfg s := ⟨mediaType, payload, hparse, hlen⟩
    have hkind : Lasting cfg (some "kind", "data_url".toList) :=
      PlainText.lasting (plainText_of_no_colon (by decide)) (by decide) (by decide)
    rw [strings_dataUrlRecord, List.forall_mem_append, List.forall_mem_cons, List.forall_mem_singleton]
    constructor
    · rintro ⟨⟨-, hmedia⟩, -⟩
      refine ⟨fun media payload' hparse' _ => ?_, fun h => absurd hsize h, fun h => absurd hsize h⟩
      rw [hparse] at hparse'
      obtain ⟨rfl, -⟩ := ImageUrlVariant.dataBase64.inj hparse'
      exact (hmedia _ (List.mem_cons_self)).clean.noNul
    · intro h
      refine ⟨⟨hkind, fun new hnew => ?_⟩, sha256_lasting cfg payload⟩
      obtain ⟨media, hmedia, rfl⟩ := List.mem_map.1 hnew
      obtain rfl := Option.mem_toList.1 hmedia
      exact PlainText.lasting (plainText_of_no_comma (comma_not_mem_mediaType hparse))
        (h.mediaType media payload hparse hlen) (by decide)
  | text hsize hlong =>
    unfold elideText
    rw [strings_textRecord, List.forall_mem_cons, List.forall_mem_singleton, and_iff_right (sha256_lasting cfg s),
      lasting_iff]
    constructor
    · rintro ⟨hnul, -, hpreview, -⟩
      exact ⟨fun media payload hparse hlen => absurd ⟨some media, payload, hparse, hlen⟩ hsize,
        fun _ _ => ⟨hnul, hpreview⟩, fun _ h => absurd hlong h⟩
    · intro h
      obtain ⟨hnul, hpreview⟩ := h.preview hsize hlong
      refine ⟨hnul, fun hno => absurd hno.1 (by decide), hpreview, fun _ _ _ => ?_⟩
      exact (byteLen_safeTruncate_le s _).trans (Nat.min_le_left _ _)
  | kept hsize hlong =>
    rw [strings, List.forall_mem_singleton, lasting_iff]
    constructor
    · rintro ⟨-, -, hstripped, hdata⟩
      exact ⟨fun media payload hparse hlen => absurd ⟨some media, payload, hparse, hlen⟩ hsize,
        fun _ h => absurd h hlong, fun _ _ => ⟨hstripped, hdata⟩⟩
    · intro h
      obtain ⟨hstripped, hdata⟩ := h.kept hsize hlong
      exact ⟨nul_not_mem_stripNulBytes s,
        fun h => hlong ⟨h.1, Nat.lt_of_lt_of_le h.2 (byteLen_stripNulBytes_le s)⟩, hstripped, hdata⟩

/-- **Sanitising keeps its budgets on exactly the payloads whose strings are harmless.** -/
theorem keepsBudgets_iff (payload : Value) (cfg : SizeConfig) :
    KeepsBudgets cfg payload ↔ ∀ leaf ∈ strings none payload, Harmless cfg leaf.1 leaf.2 := by
  have hlasting : (∀ new ∈ strings none (sanitizeRawPayload payload cfg), Lasting cfg new) ↔
      ∀ leaf ∈ strings none payload, Harmless cfg leaf.1 leaf.2 := by
    unfold sanitizeRawPayload
    rw [strings_sanitizeValue]
    simp only [List.forall_mem_flatMap, replaced_lasting_iff]
  rw [← hlasting]
  constructor
  · intro h new hnew
    exact ⟨h.clean new hnew, (sanitizeValue_eq_self cfg none _).1 h.settled new hnew⟩
  · intro h
    exact ⟨sanitizeValue_shape cfg none payload, fun new hnew => (h new hnew).clean,
      (sanitizeValue_eq_self cfg none _).2 fun new hnew => (h new hnew).settled⟩

end Decoding

/-! ## A data URL that nothing limits -/

/-- A decoder for the run below, which has nothing to decode. -/
abbrev nothingDecoded : Base64 := ⟨fun _ => none⟩

/-- A large `data:text/plain` URL stays as it is. -/
theorem plain_data_url_not_limited :
    ¬@KeepsBudgets nothingDecoded ⟨16, 6⟩
      (.object [("url", .string ("data:text/plain,".toList ++ List.replicate 200 'x'))]) := by
  let := nothingDecoded
  intro h
  have hclean := h.clean (some "url", "data:text/plain,".toList ++ List.replicate 200 'x') (by decide +kernel)
  have hlen := hclean.nonBase64 (some "text/plain".toList) (List.replicate 200 'x') (by decide +kernel)
  revert hlen
  decide +kernel

end MemoryStore.AgentImport
