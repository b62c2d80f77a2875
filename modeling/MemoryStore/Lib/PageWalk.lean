/-
Keyset pagination: `WHERE key > after ORDER BY key LIMIT limit`. A page that is
not full is the last one and holds every row left; a full page holds exactly the
rows up to its own last key.
-/
import Mathlib

namespace Keyset

variable {α κ : Type} [LinearOrder κ]

/-- One page of the rows after a key. -/
def page (key : α → κ) (rows : List α) (after : κ) (limit : Nat) : List α :=
  ((rows.filter fun row => after < key row).mergeSort fun a b => key a ≤ key b).take limit

variable {key : α → κ} {rows : List α} {after : κ} {limit : Nat}

theorem sorted_after (key : α → κ) (rows : List α) :
    (rows.mergeSort fun a b => key a ≤ key b).Pairwise fun a b => key a ≤ key b := by
  have htrans : ∀ a b c : α, decide (key a ≤ key b) = true → decide (key b ≤ key c) = true →
      decide (key a ≤ key c) = true := by
    intro a b c hab hbc
    simp only [decide_eq_true_eq] at *
    exact le_trans hab hbc
  have htotal : ∀ a b : α, (decide (key a ≤ key b) || decide (key b ≤ key a)) = true := by
    intro a b
    simp only [Bool.or_eq_true, decide_eq_true_eq]
    exact le_total _ _
  exact (List.pairwise_mergeSort htrans htotal rows).imp fun hab => by simpa using hab

theorem mem_page {row : α} (h : row ∈ page key rows after limit) : row ∈ rows ∧ after < key row := by
  have hm := List.mem_of_mem_take h
  rw [List.mem_mergeSort, List.mem_filter] at hm
  exact ⟨hm.1, by simpa using hm.2⟩

/-- A page that is not full holds every row left. -/
theorem page_of_short (h : (page key rows after limit).length < limit) :
    (page key rows after limit).Perm (rows.filter fun row => after < key row) := by
  unfold page at h ⊢
  rw [List.length_take] at h
  rw [List.take_of_length_le (by omega)]
  exact List.mergeSort_perm _ _

/-- A sorted list of distinct keys, cut after some row: the rows up to that key. -/
theorem filter_le_of_append {front back : List α} {last : α}
    (hs : (front ++ last :: back).Pairwise fun a b => key a ≤ key b) (hn : ((front ++ last :: back).map key).Nodup) :
    (front ++ last :: back).filter (fun row => key row ≤ key last) = front ++ [last] := by
  rw [List.pairwise_append, List.pairwise_cons] at hs
  obtain ⟨-, ⟨hlast, -⟩, hfront⟩ := hs
  have hne : ∀ row ∈ back, key row ≠ key last := by
    intro row hrow heq
    rw [List.map_append, List.nodup_append, List.map_cons, List.nodup_cons] at hn
    exact hn.2.1.1 (heq ▸ List.mem_map_of_mem hrow)
  have hfront' : front.filter (fun row => key row ≤ key last) = front :=
    List.filter_eq_self.2 fun row hrow => by simpa using hfront row hrow last (List.mem_cons_self ..)
  have hback : back.filter (fun row => key row ≤ key last) = [] := by
    rw [List.filter_eq_nil_iff]
    intro row hrow hle
    exact hne row hrow (le_antisymm (by simpa using hle) (hlast row hrow))
  rw [List.filter_append, hfront', List.filter_cons_of_pos (by simp), hback]

/-- A page holds exactly the rows up to its last key. -/
theorem page_of_last {last : α} (hn : (rows.map key).Nodup) (h : (page key rows after limit).getLast? = some last) :
    (page key rows after limit).Perm (rows.filter fun row => after < key row ∧ key row ≤ key last) := by
  unfold page at h ⊢
  generalize hl : ((rows.filter fun row => after < key row).mergeSort fun a b => key a ≤ key b) = sorted at h ⊢
  have hperm : sorted.Perm (rows.filter fun row => after < key row) := hl ▸ List.mergeSort_perm _ _
  obtain ⟨front, hfront⟩ := List.getLast?_eq_some_iff.1 h
  have hcut : sorted = front ++ last :: sorted.drop limit := by
    conv_lhs => rw [← List.take_append_drop limit sorted, hfront, List.append_assoc, List.singleton_append]
  have hs : sorted.Pairwise fun a b => key a ≤ key b := hl ▸ sorted_after key _
  have hnd : (sorted.map key).Nodup :=
    ((hperm.map key).nodup_iff).2 (hn.sublist (List.filter_sublist.map key))
  have hle : sorted.filter (fun row => key row ≤ key last) = front ++ [last] := by
    rw [hcut] at hs hnd ⊢
    exact filter_le_of_append hs hnd
  rw [hfront, ← hle]
  refine (hperm.filter _).trans ?_
  rw [List.filter_filter]
  refine List.Perm.of_eq (List.filter_congr fun row _ => ?_)
  simp [Bool.and_comm]

end Keyset

/-!
Pages of a list in descending key order, each asked for below the last key of
the page before: a walk from the top with pages of any size lists the rows once
and in order. A page of two lists together is cut from one page of each.
-/

namespace PageWalk

variable {α κ : Type} [LinearOrder κ]

/-! ## Descending order -/

/-- `ORDER BY key DESC`. -/
def newest (key : α → κ) (rows : List α) : List α := rows.mergeSort fun a b => decide (key b ≤ key a)

/-- The keys go down. -/
def Descending (key : α → κ) (rows : List α) : Prop := rows.Pairwise fun a b => key b < key a

variable {key : α → κ} {rows rows' : List α}

theorem mem_newest {a : α} : a ∈ newest key rows ↔ a ∈ rows := List.mem_mergeSort

theorem newest_perm (key : α → κ) (rows : List α) : (newest key rows).Perm rows := List.mergeSort_perm _ _

theorem newest_sorted (key : α → κ) (rows : List α) : (newest key rows).Pairwise fun a b => key b ≤ key a := by
  have htrans : ∀ a b c : α, decide (key b ≤ key a) = true → decide (key c ≤ key b) = true →
      decide (key c ≤ key a) = true := by
    intro a b c hab hbc
    simp only [decide_eq_true_eq] at *
    exact le_trans hbc hab
  have htotal : ∀ a b : α, (decide (key b ≤ key a) || decide (key a ≤ key b)) = true := by
    intro a b
    simp only [Bool.or_eq_true, decide_eq_true_eq]
    exact le_total _ _
  exact (List.pairwise_mergeSort htrans htotal rows).imp fun hab => by simpa using hab

/-- Rows of distinct keys are sorted strictly. -/
theorem newest_descending (hn : (rows.map key).Nodup) : Descending key (newest key rows) := by
  have hnd : (newest key rows).Pairwise fun a b => key a ≠ key b :=
    List.pairwise_map.1 (((newest_perm key rows).map key).nodup_iff.2 hn)
  exact ((newest_sorted key rows).and hnd).imp fun ⟨hle, hne⟩ => lt_of_le_of_ne hle (Ne.symm hne)

theorem Descending.nodup_keys (h : Descending key rows) : (rows.map key).Nodup :=
  List.pairwise_map.2 (h.imp fun hab => ne_of_gt hab)

theorem Descending.nodup (h : Descending key rows) : rows.Nodup := h.nodup_keys.of_map

theorem Descending.filter (h : Descending key rows) (p : α → Bool) : Descending key (rows.filter p) :=
  h.sublist List.filter_sublist

theorem Descending.take (h : Descending key rows) (n : Nat) : Descending key (rows.take n) :=
  h.sublist (List.take_sublist n rows)

/-- Two descending lists of the same rows are one list. -/
theorem Descending.eq_of_mem (h : Descending key rows) (h' : Descending key rows') (hmem : ∀ a, a ∈ rows ↔ a ∈ rows') :
    rows = rows' := by
  have hperm : rows.Perm rows' := (List.perm_ext_iff_of_nodup h.nodup h'.nodup).2 hmem
  exact hperm.eq_of_pairwise (fun a b _ _ hab hba => absurd (hab.trans hba) (lt_irrefl _)) h h'

theorem newest_of_descending (h : Descending key rows) : newest key rows = rows :=
  (newest_descending h.nodup_keys).eq_of_mem h fun _ => mem_newest

/-! ## A cursor -/

/-- `key < cursor`, or no bound. -/
def isBelow (cursor : Option κ) (k : κ) : Bool := cursor.all (k < ·)

@[simp]
theorem isBelow_none (k : κ) : isBelow none k = true := rfl

@[simp]
theorem isBelow_some (c k : κ) : isBelow (some c) k = decide (k < c) := rfl

/-- In a descending list, the rows below the key of one of them are those after it. -/
theorem filter_below {front back : List α} {last : α} (h : Descending key (front ++ last :: back)) :
    (front ++ last :: back).filter (fun a => isBelow (some (key last)) (key a)) = back := by
  simp only [isBelow_some]
  unfold Descending at h
  rw [List.pairwise_append, List.pairwise_cons] at h
  obtain ⟨-, ⟨hlast, -⟩, hfront⟩ := h
  have hf : front.filter (fun a => decide (key a < key last)) = [] := by
    rw [List.filter_eq_nil_iff]
    intro a ha
    have := hfront a ha last List.mem_cons_self
    simpa using this.le
  have hb : back.filter (fun a => decide (key a < key last)) = back :=
    List.filter_eq_self.2 fun a ha => by simpa using hlast a ha
  rw [List.filter_append, hf, List.filter_cons_of_neg (by simp), hb, List.nil_append]

/-! ## The walk -/

/-- Page after page until one is empty, each below the last key of the page before. -/
def walk (key : α → κ) (page : Option κ → List α) : Nat → Option κ → Option (List α)
  | 0, _ => none
  | fuel + 1, cursor =>
    match (page cursor).getLast? with
    | none => some []
    | some last => (walk key page fuel (some (key last))).map (page cursor ++ ·)

/-- From any cursor the walk lists the rows below it. -/
theorem walk_below {page : Option κ → List α} {limit : Nat} (h : Descending key rows) (hlimit : 1 ≤ limit)
    (hpage : ∀ cursor, page cursor = (rows.filter fun a => isBelow cursor (key a)).take limit) :
    ∀ (fuel : Nat) (cursor : Option κ), (rows.filter fun a => isBelow cursor (key a)).length < fuel →
      walk key page fuel cursor = some (rows.filter fun a => isBelow cursor (key a)) := by
  intro fuel
  induction fuel with
  | zero => intro cursor hf; omega
  | succ fuel ih =>
    intro cursor hf
    unfold walk
    generalize hleft : (rows.filter fun a => isBelow cursor (key a)) = left at hf
    have hp : page cursor = left.take limit := by rw [hpage, hleft]
    rw [hp]
    split
    next hlast =>
      have : left.take limit = [] := List.getLast?_eq_none_iff.1 hlast
      rcases List.take_eq_nil_iff.1 this with hzero | hnil
      · omega
      · rw [hnil]
    next last hlast =>
      obtain ⟨front, hfront⟩ := List.getLast?_eq_some_iff.1 hlast
      have hcut : left = front ++ last :: left.drop limit := by
        conv_lhs => rw [← List.take_append_drop limit left, hfront, List.append_assoc, List.singleton_append]
      have hdesc : Descending key left := hleft ▸ h.filter _
      have hmem : last ∈ left := by
        rw [hcut]
        simp
      have hbelow : isBelow cursor (key last) = true := by
        rw [← hleft] at hmem
        exact (List.mem_filter.1 hmem).2
      have hrest : (rows.filter fun a => isBelow (some (key last)) (key a)) = left.drop limit := by
        calc (rows.filter fun a => isBelow (some (key last)) (key a))
            = left.filter fun a => isBelow (some (key last)) (key a) := by
              rw [← hleft, List.filter_filter]
              refine List.filter_congr fun a _ => ?_
              cases cursor with
              | none => simp
              | some c =>
                have : key a < key last → key a < c := fun hlt => hlt.trans (by simpa using hbelow)
                simpa using this
          _ = left.drop limit := by
              rw [hcut] at hdesc
              conv_lhs => rw [hcut]
              exact filter_below hdesc
      have hlen : (left.drop limit).length < fuel := by
        have hl := congrArg List.length hcut
        simp only [List.length_append, List.length_cons] at hl
        omega
      rw [ih (some (key last)) (by rw [hrest]; exact hlen), hrest]
      simp

/-- **A walk from the top lists every row once, in order, whatever the page size.** -/
theorem walk_exact {page : Option κ → List α} {limit : Nat} (h : Descending key rows) (hlimit : 1 ≤ limit)
    (hpage : ∀ cursor, page cursor = (rows.filter fun a => isBelow cursor (key a)).take limit) {fuel : Nat}
    (hfuel : rows.length < fuel) : walk key page fuel none = some rows := by
  have hall : (rows.filter fun a => isBelow none (key a)) = rows := List.filter_eq_self.2 fun _ _ => rfl
  have := walk_below h hlimit hpage fuel none (by rw [hall]; exact hfuel)
  rwa [hall] at this

/-! ## A page of two lists -/

/-- The first `n` rows of a descending list are those with fewer than `n` rows above them. -/
theorem mem_take_iff {n : Nat} (h : Descending key rows) {a : α} :
    a ∈ rows.take n ↔ a ∈ rows ∧ (rows.filter fun b => decide (key a < key b)).length < n := by
  have habove : ∀ {front back : List α}, Descending key (front ++ a :: back) →
      (front ++ a :: back).filter (fun b => decide (key a < key b)) = front := by
    intro front back h
    unfold Descending at h
    rw [List.pairwise_append, List.pairwise_cons] at h
    obtain ⟨-, ⟨hlast, -⟩, hfront⟩ := h
    have hf : front.filter (fun b => decide (key a < key b)) = front :=
      List.filter_eq_self.2 fun b hb => by simpa using hfront b hb a List.mem_cons_self
    have hb : back.filter (fun b => decide (key a < key b)) = [] := by
      rw [List.filter_eq_nil_iff]
      intro b hb
      simpa using (hlast b hb).le
    rw [List.filter_append, hf, List.filter_cons_of_neg (by simp), hb, List.append_nil]
  constructor
  · intro ha
    refine ⟨List.mem_of_mem_take ha, ?_⟩
    obtain ⟨front, back, hsplit⟩ := List.append_of_mem ha
    have hrows : rows = front ++ a :: (back ++ rows.drop n) := by
      conv_lhs => rw [← List.take_append_drop n rows, hsplit]
      simp
    have hlen : front.length + 1 ≤ n := by
      have := congrArg List.length hsplit
      have hle := List.length_take_le n rows
      simp only [List.length_append, List.length_cons] at this
      omega
    rw [hrows] at h ⊢
    rw [habove h]
    omega
  · rintro ⟨ha, hcount⟩
    obtain ⟨front, back, rfl⟩ := List.append_of_mem ha
    rw [habove h] at hcount
    rw [List.take_append, List.mem_append]
    right
    obtain ⟨m, hm⟩ : ∃ m, n - front.length = m + 1 := ⟨n - front.length - 1, by omega⟩
    rw [hm, List.take_succ_cons]
    exact List.mem_cons_self

/-- In a list with more rows, more are above a key. -/
theorem length_above_le {first all : List α} (h : Descending key first) (hsub : ∀ a ∈ first, a ∈ all) (k : κ) :
    (first.filter fun b => decide (k < key b)).length ≤ (all.filter fun b => decide (k < key b)).length := by
  refine (List.subperm_of_subset (h.filter _).nodup fun b hb => ?_).length_le
  obtain ⟨hb, hk⟩ := List.mem_filter.1 hb
  exact List.mem_filter.2 ⟨hsub b hb, hk⟩

/-- A row on the page of a list is on the page of its own part of the list. -/
theorem mem_take_of_part {first all : List α} {n : Nat} (h : Descending key first) (hall : Descending key all)
    (hsub : ∀ a ∈ first, a ∈ all) {a : α} (ha : a ∈ all.take n) (hfirst : a ∈ first) : a ∈ first.take n :=
  (mem_take_iff h).2 ⟨hfirst, lt_of_le_of_lt (length_above_le h hsub (key a)) ((mem_take_iff hall).1 ha).2⟩

/-- **The first rows of two lists together are those of the first rows of each.** -/
theorem take_merge {first second all merged : List α} {n : Nat} (hfirst : Descending key first)
    (hsecond : Descending key second) (hall : Descending key all) (hmem : ∀ a, a ∈ all ↔ a ∈ first ∨ a ∈ second)
    (hmerged : Descending key merged) (hpages : ∀ a, a ∈ merged ↔ a ∈ first.take n ∨ a ∈ second.take n) :
    merged.take n = all.take n := by
  have hsub : ∀ a ∈ merged, a ∈ all := fun a ha =>
    (hmem a).2 (((hpages a).1 ha).imp List.mem_of_mem_take List.mem_of_mem_take)
  have hfront : ∀ a ∈ all.take n, a ∈ merged.take n := by
    intro a ha
    have hm : a ∈ merged := by
      rw [hpages]
      rcases (hmem a).1 (List.mem_of_mem_take ha) with hpart | hpart
      · exact .inl (mem_take_of_part hfirst hall (fun b hb => (hmem b).2 (.inl hb)) ha hpart)
      · exact .inr (mem_take_of_part hsecond hall (fun b hb => (hmem b).2 (.inr hb)) ha hpart)
    exact mem_take_of_part hmerged hall hsub ha hm
  have hlen : (merged.take n).length ≤ (all.take n).length := by
    have := (List.subperm_of_subset hmerged.nodup hsub).length_le
    rw [List.length_take, List.length_take]
    omega
  have hperm : (all.take n).Perm (merged.take n) :=
    (List.subperm_of_subset (hall.take n).nodup hfront).perm_of_length_le hlen
  exact (hmerged.take n).eq_of_mem (hall.take n) fun a => hperm.symm.mem_iff

end PageWalk
