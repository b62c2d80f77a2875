/-
JSON texts in the compact form `serde_json` writes: no blanks, object keys in
ascending order, and in strings only the escapes JSON requires.
-/
import Mathlib

namespace Json

/-- A lower-case hexadecimal digit. -/
def hexDigit (n : ℕ) : Char := if n < 10 then Char.ofNat (48 + n) else Char.ofNat (87 + n)

/-- The quote, the backslash and the control characters are escaped, nothing else. -/
def escapeChar (c : Char) : List Char :=
  if c = '"' then ['\\', '"']
  else if c = '\\' then ['\\', '\\']
  else if c.toNat = 8 then ['\\', 'b']
  else if c.toNat = 9 then ['\\', 't']
  else if c.toNat = 10 then ['\\', 'n']
  else if c.toNat = 12 then ['\\', 'f']
  else if c.toNat = 13 then ['\\', 'r']
  else if c.toNat < 32 then ['\\', 'u', '0', '0', hexDigit (c.toNat / 16), hexDigit (c.toNat % 16)]
  else [c]

def string (text : String) : String := "\"" ++ String.ofList (text.toList.flatMap escapeChar) ++ "\""

/-- An optional string: `null` when absent. -/
def stringOrNull : Option String → String
  | some text => string text
  | none => "null"

/-- An array of rendered values. -/
def array (values : List String) : String := "[" ++ String.intercalate "," values ++ "]"

/-- An object of rendered values, its entries in the order given. -/
def fields (entries : List (String × String)) : String :=
  "\x7b" ++ String.intercalate "," (entries.map fun e => string e.1 ++ ":" ++ e.2) ++ "\x7d"

/-- An entry put where its key belongs; a later entry of one key replaces the earlier. -/
def insertEntry (key value : String) : List (String × String) → List (String × String)
  | [] => [(key, value)]
  | (k, v) :: rest =>
    if key < k then (key, value) :: (k, v) :: rest
    else if key = k then (key, value) :: rest
    else (k, v) :: insertEntry key value rest

/-- An object of rendered values, sorted by key. -/
def object (entries : List (String × String)) : String :=
  fields (entries.foldl (fun sorted e => insertEntry e.1 e.2 sorted) [])

/-- A set of strings: an array in ascending order. -/
def stringSet (names : Finset String) : String := array ((names.sort (· ≤ ·)).map string)

end Json

/-!
JSON texts read back from the left: of a rendered value with more text behind
it, the value and the text behind it are determined. So no two values are
rendered alike, also inside of one another.
-/

namespace Json

/-- What is rendered can be told from what follows. -/
def Reads {α : Type} (render : α → String) : Prop :=
  ∀ {a b : α} {r s : List Char}, (render a).toList ++ r = (render b).toList ++ s → a = b ∧ r = s

theorem Reads.injective {α : Type} {render : α → String} (h : Reads render) {a b : α} (hab : render a = render b) :
    a = b :=
  (h (congrArg (fun text => text.toList ++ []) hab)).1

/-! ## Characters -/

/-- The value of a lower-case hexadecimal digit. -/
def hexValue (c : Char) : ℕ := if c.toNat < 87 then c.toNat - 48 else c.toNat - 87

/-- The character after a backslash. -/
def readEscape : List Char → Option (Char × List Char)
  | '"' :: r => some ('"', r)
  | '\\' :: r => some ('\\', r)
  | 'b' :: r => some (Char.ofNat 8, r)
  | 't' :: r => some (Char.ofNat 9, r)
  | 'n' :: r => some (Char.ofNat 10, r)
  | 'f' :: r => some (Char.ofNat 12, r)
  | 'r' :: r => some (Char.ofNat 13, r)
  | 'u' :: _ :: _ :: high :: low :: r => some (Char.ofNat (16 * hexValue high + hexValue low), r)
  | _ => none

/-- The next character of a string. -/
def readChar : List Char → Option (Char × List Char)
  | [] => none
  | c :: r => if c = '\\' then readEscape r else some (c, r)

theorem readChar_escapeChar (c : Char) (r : List Char) : readChar (escapeChar c ++ r) = some (c, r) := by
  have hof : Char.ofNat c.toNat = c := Char.ofNat_toNat c
  unfold escapeChar
  split_ifs with hquote hslash h8 h9 h10 h12 h13 hcontrol
  · rw [hquote]; rfl
  · rw [hslash]; rfl
  · rw [← hof, h8]; rfl
  · rw [← hof, h9]; rfl
  · rw [← hof, h10]; rfl
  · rw [← hof, h12]; rfl
  · rw [← hof, h13]; rfl
  · have hhex : ∀ n < 32, 16 * hexValue (hexDigit (n / 16)) + hexValue (hexDigit (n % 16)) = n := by decide
    have hread : readChar (['\\', 'u', '0', '0', hexDigit (c.toNat / 16), hexDigit (c.toNat % 16)] ++ r) =
        some (Char.ofNat (16 * hexValue (hexDigit (c.toNat / 16)) + hexValue (hexDigit (c.toNat % 16))), r) := rfl
    rw [hread, hhex _ hcontrol, hof]
  · simp [readChar, hslash]

theorem escapeChar_reads {c d : Char} {r s : List Char} (h : escapeChar c ++ r = escapeChar d ++ s) : c = d ∧ r = s := by
  have heq := congrArg readChar h
  rw [readChar_escapeChar, readChar_escapeChar] at heq
  exact Prod.mk.inj (Option.some.inj heq)

/-- No escaped character begins like the end of a string. -/
theorem escapeChar_head (c : Char) : ∃ d t, escapeChar c = d :: t ∧ d ≠ '"' := by
  unfold escapeChar
  split_ifs with hquote
  all_goals first
    | exact ⟨_, _, rfl, by decide⟩
    | exact ⟨_, _, rfl, hquote⟩

/-! ## Strings -/

theorem escaped_reads : ∀ {xs ys r s : List Char}, xs.flatMap escapeChar ++ '"' :: r = ys.flatMap escapeChar ++ '"' :: s →
    xs = ys ∧ r = s
  | [], [], _, _, h => ⟨rfl, (List.cons.inj h).2⟩
  | [], y :: ys, _, _, h => by
    obtain ⟨d, t, hd, hne⟩ := escapeChar_head y
    rw [List.flatMap_cons, hd] at h
    exact absurd (List.cons.inj h).1.symm hne
  | x :: xs, [], _, _, h => by
    obtain ⟨d, t, hd, hne⟩ := escapeChar_head x
    rw [List.flatMap_cons, hd] at h
    exact absurd (List.cons.inj h).1 hne
  | x :: xs, y :: ys, _, _, h => by
    rw [List.flatMap_cons, List.flatMap_cons, List.append_assoc, List.append_assoc] at h
    obtain ⟨rfl, hrest⟩ := escapeChar_reads h
    obtain ⟨rfl, hr⟩ := escaped_reads hrest
    exact ⟨rfl, hr⟩

theorem string_toList (text : String) : (string text).toList = '"' :: (text.toList.flatMap escapeChar ++ ['"']) := by
  unfold string
  simp

theorem string_reads : Reads string := by
  intro a b r s h
  rw [string_toList, string_toList, List.cons_append, List.cons_append, List.append_assoc, List.append_assoc] at h
  obtain ⟨hab, hr⟩ := escaped_reads (List.cons.inj h).2
  exact ⟨String.toList_injective hab, hr⟩

theorem stringOrNull_reads : Reads stringOrNull := by
  intro a b r s h
  cases a with
  | none =>
    cases b with
    | none => exact ⟨rfl, List.append_cancel_left h⟩
    | some b =>
      rw [show stringOrNull (some b) = string b from rfl, string_toList] at h
      exact absurd (List.cons.inj h).1 (by decide)
  | some a =>
    cases b with
    | none =>
      rw [show stringOrNull (some a) = string a from rfl, string_toList] at h
      exact absurd (List.cons.inj h).1 (by decide)
    | some b =>
      obtain ⟨rfl, hr⟩ := string_reads (a := a) h
      exact ⟨rfl, hr⟩

/-! ## Arrays -/

/-- No rendered value begins like the end of an array. -/
def Opens {α : Type} (render : α → String) : Prop := ∀ a, ∃ c t, (render a).toList = c :: t ∧ c ≠ ']'

/-- What follows a value in an array. -/
def arrayRest {α : Type} (render : α → String) : List α → List Char
  | [] => [']']
  | a :: rest => ',' :: ((render a).toList ++ arrayRest render rest)

theorem array_toList_nil {α : Type} (render : α → String) : (array (([] : List α).map render)).toList = ['[', ']'] := by
  simp [array]

theorem array_toList_cons {α : Type} (render : α → String) (a : α) (rest : List α) :
    (array ((a :: rest).map render)).toList = '[' :: ((render a).toList ++ arrayRest render rest) := by
  have hjoin : ∀ (rest : List α) (a : α), (String.intercalate "," ((a :: rest).map render)).toList ++ [']'] =
      (render a).toList ++ arrayRest render rest := by
    intro rest
    induction rest with
    | nil => intro a; simp [arrayRest]
    | cons b rest ih =>
      intro a
      have := ih b
      simp only [List.map_cons] at this ⊢
      rw [String.intercalate_cons_cons]
      simp [arrayRest, ← this]
  rw [array, String.toList_append, String.toList_append, List.append_assoc]
  exact congrArg ('[' :: ·) (hjoin rest a)

theorem arrayRest_reads {α : Type} {render : α → String} (h : Reads render) :
    ∀ {xs ys : List α} {r s : List Char}, arrayRest render xs ++ r = arrayRest render ys ++ s → xs = ys ∧ r = s
  | [], [], _, _, heq => ⟨rfl, (List.cons.inj heq).2⟩
  | [], y :: ys, _, _, heq => absurd (List.cons.inj heq).1 (by decide)
  | x :: xs, [], _, _, heq => absurd (List.cons.inj heq).1 (by decide)
  | x :: xs, y :: ys, _, _, heq => by
    have heq' := (List.cons.inj heq).2
    simp only [List.append_eq, List.append_assoc] at heq'
    obtain ⟨rfl, hrest⟩ := h heq'
    obtain ⟨rfl, hr⟩ := arrayRest_reads h hrest
    exact ⟨rfl, hr⟩

theorem array_reads {α : Type} {render : α → String} (h : Reads render) (hopen : Opens render) :
    Reads fun values : List α => array (values.map render) := by
  intro xs ys r s heq
  cases xs with
  | nil =>
    cases ys with
    | nil => exact ⟨rfl, List.append_cancel_left heq⟩
    | cons y ys =>
      obtain ⟨c, t, hc, hne⟩ := hopen y
      dsimp only at heq
      rw [array_toList_cons, array_toList_nil, hc] at heq
      exact absurd (List.cons.inj (List.cons.inj heq).2).1.symm hne
  | cons x xs =>
    cases ys with
    | nil =>
      obtain ⟨c, t, hc, hne⟩ := hopen x
      dsimp only at heq
      rw [array_toList_cons, array_toList_nil, hc] at heq
      exact absurd (List.cons.inj (List.cons.inj heq).2).1 hne
    | cons y ys =>
      dsimp only at heq
      rw [array_toList_cons, array_toList_cons, List.cons_append, List.cons_append, List.append_assoc,
        List.append_assoc] at heq
      obtain ⟨rfl, hrest⟩ := h (List.cons.inj heq).2
      obtain ⟨rfl, hr⟩ := arrayRest_reads h hrest
      exact ⟨rfl, hr⟩

/-! ## Objects -/

/-- The value of a known key is read. -/
theorem entry_reads {α : Type} {render : α → String} (h : Reads render) {key : String} {a b : α} {r s : List Char}
    (heq : (string key).toList ++ (":".toList ++ ((render a).toList ++ r)) =
      (string key).toList ++ (":".toList ++ ((render b).toList ++ s))) : a = b ∧ r = s :=
  h (List.append_cancel_left (List.append_cancel_left heq))

theorem fields_opens (entries : List (String × String)) : ∃ c t, (fields entries).toList = c :: t ∧ c ≠ ']' := by
  unfold fields
  rw [String.toList_append, String.toList_append, List.append_assoc]
  exact ⟨_, _, rfl, by decide⟩

end Json
