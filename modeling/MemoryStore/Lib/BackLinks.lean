/-
Lists, newest first, in which each entry names the one that comes next: what
following the names visits, and what sorting does with an entry that is newer
than all others.
-/
import MemoryStore.Lib.Table

namespace BackLinks

variable {α ι : Type}

/-- Each entry names the next one, and the last one names none. -/
def Linked (id : α → ι) (prev : α → Option ι) : List α → Prop
  | [] => True
  | a :: rest => prev a = rest.head?.map id ∧ Linked id prev rest

/-- The ids met from one on, following the names in a table for at most so many entries. -/
def follow [DecidableEq ι] (id : α → ι) (prev : α → Option ι) (table : List α) : Nat → ι → List ι
  | 0, _ => []
  | n + 1, i =>
    i :: match (table.find? fun a => id a = i).bind prev with
      | none => []
      | some j => follow id prev table n j

section Follow

variable [DecidableEq ι] {id : α → ι} {prev : α → Option ι} {table : List α}

/-- **Following the names visits every entry once**, in order. -/
theorem Linked.follow_eq (hids : (table.map id).Nodup) : ∀ {l : List α} {a : α} {n : Nat},
    Linked id prev (a :: l) → (∀ b ∈ a :: l, b ∈ table) → l.length < n →
      follow id prev table n (id a) = (a :: l).map id
  | l, a, n + 1, hl, hmem, hn => by
    rw [follow, (Table.find?_eq_some_of_nodup hids).2 ⟨hmem a List.mem_cons_self, rfl⟩, Option.bind_some, hl.1]
    match l, hl, hn with
    | [], _, _ => rfl
    | b :: l, hl, hn =>
      have ih := hl.2.follow_eq hids (fun x hx => hmem x (List.mem_cons_of_mem a hx)) (Nat.lt_of_succ_lt_succ hn)
      exact congrArg (id a :: ·) ih

end Follow

/-- **What is newer than everything sorts first.** -/
theorem insertionSort_append_newest (newer : α → α → Prop) [DecidableRel newer] {x : α} :
    ∀ {l : List α}, (∀ a ∈ l, ¬ newer a x) → (l ++ [x]).insertionSort newer = x :: l.insertionSort newer
  | [], _ => rfl
  | a :: l, h => by
    have ih := insertionSort_append_newest newer fun b hb => h b (List.mem_cons_of_mem a hb)
    rw [List.cons_append, List.insertionSort_cons, ih, List.orderedInsert_of_not_le newer _ (h a List.mem_cons_self),
      List.insertionSort_cons]

end BackLinks
