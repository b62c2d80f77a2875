/-
Lists of optional texts written one after the other, each present text with its
length in bytes before it. Reading from the left tells the fields apart, so no
two lists are written alike.
-/
import Std.Data.String.ToNat
import Mathlib

namespace Netstring

/-- One field: its length in bytes, a colon and its text, or `-:` when it is absent. -/
def field : Option String → String
  | some value => toString value.utf8ByteSize ++ ":" ++ value
  | none => "-:"

/-- The fields, one after the other. -/
def fields : List (Option String) → String
  | [] => ""
  | value :: values => field value ++ fields values

theorem fields_append (xs ys : List (Option String)) : fields (xs ++ ys) = fields xs ++ fields ys := by
  induction xs with
  | nil => simp [fields]
  | cons x xs ih => simp only [List.cons_append, fields, ih, String.append_assoc]

/-- What stands before the first colon, when it has none, is determined. -/
theorem before_colon : ∀ {xs ys r r' : List Char}, ':' ∉ xs → ':' ∉ ys → xs ++ ':' :: r = ys ++ ':' :: r' →
    xs = ys ∧ r = r'
  | [], [], _, _, _, _, h => ⟨rfl, (List.cons.inj h).2⟩
  | [], y :: ys, _, _, _, hy, h => absurd (List.cons.inj h).1 fun he => hy (he ▸ List.mem_cons_self)
  | x :: xs, [], _, _, hx, _, h => absurd (List.cons.inj h).1 fun he => hx (he ▸ List.mem_cons_self)
  | x :: xs, y :: ys, _, _, hx, hy, h => by
    obtain ⟨rfl, htail⟩ := List.cons.inj (by simpa only [List.cons_append] using h)
    obtain ⟨rfl, hr⟩ := before_colon (fun hm => hx (List.mem_cons_of_mem _ hm)) (fun hm => hy (List.mem_cons_of_mem _ hm)) htail
    exact ⟨rfl, hr⟩

theorem isDigit_of_mem_repr {n : Nat} {c : Char} (h : c ∈ (toString n).toList) : c.isDigit = true := by
  rw [Nat.toString_eq_ofList_toDigits, String.toList_ofList] at h
  exact Nat.isDigit_of_mem_toDigits (by decide) (by decide) h

theorem colon_not_mem_repr (n : Nat) : ':' ∉ (toString n).toList := fun h =>
  absurd (isDigit_of_mem_repr h) (by decide)

theorem dash_not_mem_repr (n : Nat) : '-' ∉ (toString n).toList := fun h =>
  absurd (isDigit_of_mem_repr h) (by decide)

theorem field_toList (value : String) (rest : List Char) : (field (some value)).toList ++ rest =
    (toString value.utf8ByteSize).toList ++ ':' :: (value.toList ++ rest) := by
  simp [field]

theorem field_none_toList (rest : List Char) : (field none).toList ++ rest = ['-'] ++ ':' :: rest := by
  simp [field]

/-- Of two beginnings of one text that have the same size, neither is longer. -/
theorem eq_of_size : ∀ {x y : String} {r r' : List Char}, x.toList ++ r = y.toList ++ r' →
    x.utf8ByteSize = y.utf8ByteSize → x = y ∧ r = r' := by
  have hshort : ∀ {x y : String} {more : List Char}, y.toList = x.toList ++ more → x.utf8ByteSize = y.utf8ByteSize →
      more = [] := by
    intro x y more hy hsize
    have heq : y = x ++ String.ofList more := by
      rw [← String.toList_inj, hy, String.toList_append, String.toList_ofList]
    rw [heq, String.utf8ByteSize_append] at hsize
    have hzero : (String.ofList more).utf8ByteSize = 0 := by omega
    have hnil := congrArg String.toList (String.utf8ByteSize_eq_zero_iff.1 hzero)
    simpa using hnil
  intro x y r r' h hsize
  rcases List.append_eq_append_iff.1 h with ⟨more, hy, hr⟩ | ⟨more, hx, hr⟩
  · obtain rfl := hshort hy hsize
    exact ⟨(String.toList_inj.1 (by simpa using hy)).symm, by simpa using hr⟩
  · obtain rfl := hshort hx hsize.symm
    exact ⟨String.toList_inj.1 (by simpa using hx), by simpa using hr.symm⟩

/-- One field is read off the front. -/
theorem field_first {a b : Option String} {r r' : List Char} (h : (field a).toList ++ r = (field b).toList ++ r') :
    a = b ∧ r = r' := by
  have hdash : ':' ∉ ['-'] := by decide
  cases a with
  | none =>
    cases b with
    | none => exact ⟨rfl, List.append_cancel_left h⟩
    | some y =>
      rw [field_toList, field_none_toList] at h
      have hd := (before_colon hdash (colon_not_mem_repr _) h).1
      exact absurd (hd ▸ List.mem_cons_self) (dash_not_mem_repr _)
  | some x =>
    cases b with
    | none =>
      rw [field_toList, field_none_toList] at h
      have hd := (before_colon (colon_not_mem_repr _) hdash h).1
      exact absurd (hd ▸ List.mem_cons_self) (dash_not_mem_repr _)
    | some y =>
      rw [field_toList, field_toList] at h
      obtain ⟨hlen, hrest⟩ := before_colon (colon_not_mem_repr _) (colon_not_mem_repr _) h
      have hsize : x.utf8ByteSize = y.utf8ByteSize := Nat.repr_injective (String.toList_inj.1 hlen)
      obtain ⟨rfl, hr⟩ := eq_of_size hrest hsize
      exact ⟨rfl, hr⟩

theorem field_ne_empty (a : Option String) : (field a).toList ≠ [] := by
  cases a <;> simp [field]

/-- **No two lists of fields are written alike.** -/
theorem fields_injective : ∀ {xs ys : List (Option String)}, fields xs = fields ys → xs = ys
  | [], [], _ => rfl
  | [], y :: ys, h => by
    have h := congrArg String.toList h
    simp only [fields, String.toList_append] at h
    exact absurd (List.append_eq_nil_iff.1 h.symm).1 (field_ne_empty y)
  | x :: xs, [], h => by
    have h := congrArg String.toList h
    simp only [fields, String.toList_append] at h
    exact absurd (List.append_eq_nil_iff.1 h).1 (field_ne_empty x)
  | x :: xs, y :: ys, h => by
    have h := congrArg String.toList h
    simp only [fields, String.toList_append] at h
    obtain ⟨rfl, hr⟩ := field_first h
    rw [fields_injective (String.toList_inj.1 hr)]

end Netstring
