/-
Numbers read from text the way a Rust standard library reads them, with the
texts of its errors.
-/
import Mathlib

namespace NumberText

def digit (c : Char) : ℕ := c.toNat - 48

/-- The digits of an unsigned number below `bound`, first to last. -/
def unsignedDigits (bound : ℕ) : List Char → ℕ → Except String ℕ
  | [], value => .ok value
  | c :: rest, value =>
    if !c.isDigit then .error "invalid digit found in string"
    else if value * 10 + digit c < bound then unsignedDigits bound rest (value * 10 + digit c)
    else .error "number too large to fit in target type"

/-- `str::parse` of an unsigned type with `bound` values: digits, after an optional plus. -/
def parseUnsigned (bound : ℕ) (text : String) : Except String ℕ :=
  match text.toList with
  | [] => .error "cannot parse integer from empty string"
  | ['+'] => .error "invalid digit found in string"
  | '+' :: rest => unsignedDigits bound rest 0
  | rest => unsignedDigits bound rest 0

/-- A 64-bit unsigned number, `u64` or `usize`. -/
def parseU64 (text : String) : Except String ℕ := parseUnsigned (2 ^ 64) text

theorem unsignedDigits_lt {bound : ℕ} : ∀ {cs : List Char} {value n : ℕ}, value < bound →
    unsignedDigits bound cs value = .ok n → n < bound
  | [], value, n, hv, h => by
    obtain rfl : value = n := by simpa [unsignedDigits] using h
    exact hv
  | c :: rest, value, n, hv, h => by
    unfold unsignedDigits at h
    split at h
    · cases h
    · split at h
      · next hlt => exact unsignedDigits_lt hlt h
      · cases h

theorem parseU64_lt {text : String} {n : ℕ} (h : parseU64 text = .ok n) : n < 2 ^ 64 := by
  unfold parseU64 parseUnsigned at h
  split at h
  · cases h
  · cases h
  · exact unsignedDigits_lt (by decide) h
  · exact unsignedDigits_lt (by decide) h

/-- A 64-bit float: a finite one is read as the rational its text denotes. -/
inductive F64 where
  | finite (value : ℚ)
  | infinite (negative : Bool)
  | nan
  deriving DecidableEq

def digits (cs : List Char) : ℕ := cs.foldl (fun value c => value * 10 + digit c) 0

/-- The exponent after an `e`. -/
def parseExponent : List Char → Option ℤ
  | '+' :: cs => if cs ≠ [] ∧ cs.all Char.isDigit then some (digits cs) else none
  | '-' :: cs => if cs ≠ [] ∧ cs.all Char.isDigit then some (-digits cs) else none
  | cs => if cs ≠ [] ∧ cs.all Char.isDigit then some (digits cs) else none

/-- Digits, an optional fraction and an optional exponent. -/
def parseDecimal (cs : List Char) : Option ℚ :=
  let (whole, rest) := cs.span Char.isDigit
  let (fraction, rest) := match rest with
    | '.' :: cs => cs.span Char.isDigit
    | cs => ([], cs)
  if whole = [] ∧ fraction = [] then none
  else
    let mantissa : ℚ := digits (whole ++ fraction) / 10 ^ fraction.length
    match rest with
    | [] => some mantissa
    | 'e' :: cs => (parseExponent cs).map fun e => mantissa * (10 : ℚ) ^ e
    | _ => none

/-- From this magnitude on, a number rounds to infinity. -/
def f64Limit : ℚ := 2 ^ 1024 - 2 ^ 970

/-- `str::parse::<f64>` -/
def parseF64 (text : String) : Except String F64 :=
  match text.toList.map Char.toLower with
  | [] => .error "cannot parse float from empty string"
  | c :: cs =>
    let negative := c = '-'
    let body := if c = '+' ∨ c = '-' then cs else c :: cs
    if body = "inf".toList ∨ body = "infinity".toList then .ok (.infinite negative)
    else if body = "nan".toList then .ok .nan
    else match parseDecimal body with
      | none => .error "invalid float literal"
      | some value =>
        if f64Limit ≤ value then .ok (.infinite negative)
        else .ok (.finite (if negative then -value else value))

end NumberText
