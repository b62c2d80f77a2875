/-
Unicode white space, as a `trim` that strips it from both ends of a text uses it.
-/
import Mathlib

namespace Whitespace

/-- The code points with the property `White_Space`. -/
def isWhiteSpace (c : Char) : Bool :=
  let n := c.toNat
  (9 ≤ n && n ≤ 13) || n = 0x20 || n = 0x85 || n = 0xA0 || n = 0x1680 || (0x2000 ≤ n && n ≤ 0x200A) ||
    n = 0x2028 || n = 0x2029 || n = 0x202F || n = 0x205F || n = 0x3000

/-- The characters of a text without the white space at its ends. -/
def trimChars (cs : List Char) : List Char :=
  ((cs.dropWhile isWhiteSpace).reverse.dropWhile isWhiteSpace).reverse

/-- A text without the white space at its ends. -/
def trim (text : String) : String := String.ofList (trimChars text.toList)

theorem trimChars_eq (cs : List Char) : trimChars cs = (cs.dropWhile isWhiteSpace).rdropWhile isWhiteSpace := rfl

/-- Nothing is left to strip. -/
theorem trimChars_trimChars (cs : List Char) : trimChars (trimChars cs) = trimChars cs := by
  have hfront : (trimChars cs).dropWhile isWhiteSpace = trimChars cs := by
    rw [List.dropWhile_eq_self_iff]
    intro hlt
    obtain ⟨rest, hrest⟩ : trimChars cs <+: cs.dropWhile isWhiteSpace := List.rdropWhile_prefix _ _
    have hpos : 0 < (cs.dropWhile isWhiteSpace).length := by
      rw [← hrest, List.length_append]
      omega
    have hhead : (trimChars cs)[0] = (cs.dropWhile isWhiteSpace)[0] := by
      simp only [← hrest]
      rw [List.getElem_append_left hlt]
    rw [hhead]
    exact List.dropWhile_get_zero_not isWhiteSpace cs hpos
  rw [trimChars_eq (trimChars cs), hfront, trimChars_eq cs, List.rdropWhile_idempotent]

theorem trim_trim (text : String) : trim (trim text) = trim text := by
  unfold trim
  rw [String.toList_ofList, trimChars_trimChars]

end Whitespace

/-!
UTF-8 text: lengths in bytes, and decoding with and without replacement of malformed bytes.
-/

namespace Utf8

/-- Texts are equal when they compare equal. -/
instance lawfulChars : LawfulBEq (List Char) := inferInstance

/-- The bytes of a text. -/
def encode (cs : List Char) : List UInt8 := cs.flatMap String.utf8EncodeChar

/-- The character that some bytes begin with. -/
def first? (bytes : List UInt8) : Option Char := bytes.toByteArray.utf8DecodeChar? 0

/-- The number of bytes of a text. -/
def byteLen (cs : List Char) : Nat := (cs.map Char.utf8Size).sum

@[simp] theorem byteLen_nil : byteLen [] = 0 := rfl

@[simp] theorem byteLen_cons (c : Char) (cs : List Char) : byteLen (c :: cs) = c.utf8Size + byteLen cs := rfl

@[simp] theorem byteLen_append (a b : List Char) : byteLen (a ++ b) = byteLen a + byteLen b := by
  unfold byteLen
  rw [List.map_append, List.sum_append]

theorem byteLen_eq_zero : ∀ {cs : List Char}, byteLen cs = 0 → cs = []
  | [], _ => rfl
  | c :: cs, h => by
    have := c.utf8Size_pos
    rw [byteLen_cons] at h
    omega

/-- A byte that continues a character. -/
def continues (b : UInt8) : Bool := 0x80 ≤ b && b ≤ 0xBF

/-- Whether the first two bytes can begin a character of three or four bytes. -/
def beginsLong (b c : UInt8) : Bool :=
  (b = 0xE0 && 0xA0 ≤ c && c ≤ 0xBF) || (0xE1 ≤ b && b ≤ 0xEC && continues c) ||
  (b = 0xED && 0x80 ≤ c && c ≤ 0x9F) || (0xEE ≤ b && b ≤ 0xEF && continues c) ||
  (b = 0xF0 && 0x90 ≤ c && c ≤ 0xBF) || (0xF1 ≤ b && b ≤ 0xF3 && continues c) ||
  (b = 0xF4 && 0x80 ≤ c && c ≤ 0x8F)

/-- The length of a malformed sequence: the longest beginning of a character, one byte at least. -/
def malformedLength : List UInt8 → ℕ
  | b :: c :: d :: _ => if beginsLong b c then if 0xF0 ≤ b && continues d then 3 else 2 else 1
  | [b, c] => if beginsLong b c then 2 else 1
  | _ => 1

/-- The text of some bytes, malformed sequences replaced. -/
def lossyFrom : ℕ → List UInt8 → List Char
  | 0, _ | _, [] => []
  | n + 1, b :: bytes =>
    match first? (b :: bytes) with
    | some c => c :: lossyFrom n ((b :: bytes).drop c.utf8Size)
    | none => Char.ofNat 0xFFFD :: lossyFrom n ((b :: bytes).drop (malformedLength (b :: bytes)))

def lossy (bytes : List UInt8) : List Char := lossyFrom bytes.length bytes

/-- The text of well-formed bytes. -/
def strictFrom : ℕ → List UInt8 → Option (List Char)
  | 0, _ | _, [] => some []
  | n + 1, b :: bytes => do
    let c ← first? (b :: bytes)
    let rest ← strictFrom n ((b :: bytes).drop c.utf8Size)
    pure (c :: rest)

def strict? (bytes : List UInt8) : Option (List Char) := strictFrom bytes.length bytes

/-! ## Round trip -/

theorem encode_cons (c : Char) (cs : List Char) : encode (c :: cs) = String.utf8EncodeChar c ++ encode cs := rfl

theorem first?_encode (c : Char) (bytes : List UInt8) : first? (String.utf8EncodeChar c ++ bytes) = some c := by
  simp only [first?, List.toByteArray_append]
  exact ByteArray.utf8DecodeChar?_utf8EncodeChar_append

/-- Enough rounds read a whole text back. -/
theorem lossyFrom_encode : ∀ (cs : List Char) {n : ℕ}, (encode cs).length ≤ n → lossyFrom n (encode cs) = cs
  | [], n, _ => by cases n <;> rfl
  | c :: cs, n, hn => by
    have hlen : (String.utf8EncodeChar c).length = c.utf8Size := String.length_utf8EncodeChar c
    have hpos : 0 < c.utf8Size := c.utf8Size_pos
    have hdrop : (encode (c :: cs)).drop c.utf8Size = encode cs := by
      rw [encode_cons, ← hlen, List.drop_left]
    rw [encode_cons, List.length_append, hlen] at hn
    obtain ⟨n, rfl⟩ : ∃ k, n = k + 1 := ⟨n - 1, by omega⟩
    obtain ⟨b, bytes, hb⟩ : ∃ b bytes, encode (c :: cs) = b :: bytes := by
      cases h : encode (c :: cs) with
      | nil =>
        have := congrArg List.length h
        rw [encode_cons, List.length_append, hlen, List.length_nil] at this
        omega
      | cons b bytes => exact ⟨b, bytes, rfl⟩
    have hfirst : first? (b :: bytes) = some c := by
      rw [← hb, encode_cons]
      exact first?_encode c (encode cs)
    rw [hb, lossyFrom, hfirst]
    simp only
    rw [← hb, hdrop, lossyFrom_encode cs (by omega)]

/-- A well-formed text is read back as it is. -/
theorem lossy_encode (cs : List Char) : lossy (encode cs) = cs := lossyFrom_encode cs (Nat.le_refl _)

example : lossy [0x61, 0xFF, 0xE3, 0x81, 0x62] = ['a', Char.ofNat 0xFFFD, Char.ofNat 0xFFFD, 'b'] := by decide +kernel

end Utf8
