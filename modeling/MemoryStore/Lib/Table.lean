/-
Tables as lists of rows: the update of all rows that meet a condition, and
unique indexes, whole or partial. A partial index is `UniqueWhere p key`: among
the rows where `p` holds, no two share a key. Under it, looking a key up finds
the one row there is.
-/
import Mathlib

namespace Table

variable {α κ : Type}

/-- `UPDATE … WHERE`. -/
def modifyWhere (p : α → Bool) (f : α → α) (rows : List α) : List α :=
  rows.map fun a => if p a then f a else a

/-- A unique index over the rows where `p` holds. -/
def UniqueWhere (p : α → Bool) (key : α → κ) (rows : List α) : Prop :=
  ((rows.filter p).map key).Nodup

theorem mem_modifyWhere {p : α → Bool} {f : α → α} {rows : List α} {b : α} :
    b ∈ modifyWhere p f rows ↔ ∃ a ∈ rows, (if p a then f a else a) = b := by
  simp [modifyWhere]

theorem modifyWhere_of_none {p : α → Bool} {f : α → α} {rows : List α} (h : ∀ a ∈ rows, p a = false) :
    modifyWhere p f rows = rows := by
  unfold modifyWhere
  conv_rhs => rw [← List.map_id rows]
  refine List.map_congr_left fun a ha => ?_
  simp [h a ha]

/-- A projection the update leaves alone reads the same rows. -/
theorem map_modifyWhere {β : Type} {p : α → Bool} {f : α → α} {g : α → β} (h : ∀ a, p a = true → g (f a) = g a)
    (rows : List α) : (modifyWhere p f rows).map g = rows.map g := by
  unfold modifyWhere
  rw [List.map_map]
  refine List.map_congr_left fun a _ => ?_
  by_cases hp : p a = true <;> simp [hp, h]

/-! ## Lookups -/

/-- Looking a key up finds a row exactly when the one row with that key is it. -/
theorem UniqueWhere.find?_eq_some [DecidableEq κ] {p : α → Bool} {key : α → κ} :
    ∀ {rows : List α}, UniqueWhere p key rows → ∀ {k : κ} {r : α},
      rows.find? (fun a => key a = k && p a) = some r ↔ r ∈ rows ∧ p r = true ∧ key r = k
  | [], _, k, r => by simp
  | a :: rows, h, k, r => by
    have hrows : UniqueWhere p key rows := by
      unfold UniqueWhere at h ⊢
      exact h.sublist (((List.sublist_cons_self a rows).filter p).map key)
    by_cases ha : key a = k ∧ p a = true
    · rw [List.find?_cons_of_pos (by simp [ha])]
      constructor
      · rintro ⟨rfl⟩
        exact ⟨List.mem_cons_self, ha.2, ha.1⟩
      · rintro ⟨hr, hp, hk⟩
        rcases List.mem_cons.1 hr with rfl | hr
        · rfl
        · unfold UniqueWhere at h
          rw [List.filter_cons_of_pos ha.2, List.map_cons, List.nodup_cons] at h
          exact absurd (List.mem_map.2 ⟨r, List.mem_filter.2 ⟨hr, hp⟩, hk.trans ha.1.symm⟩) h.1
    · rw [List.find?_cons_of_neg (by simpa using fun h1 => by simpa using fun h2 => ha ⟨h1, h2⟩), hrows.find?_eq_some]
      constructor
      · rintro ⟨hr, hp, hk⟩
        exact ⟨List.mem_cons_of_mem a hr, hp, hk⟩
      · rintro ⟨hr, hp, hk⟩
        rcases List.mem_cons.1 hr with rfl | hr
        · exact absurd ⟨hk, hp⟩ ha
        · exact ⟨hr, hp, hk⟩

/-- Looking a key up under an index over all rows. -/
theorem find?_eq_some_of_nodup [DecidableEq κ] {key : α → κ} {rows : List α} (h : (rows.map key).Nodup) {k : κ}
    {r : α} : rows.find? (fun a => key a = k) = some r ↔ r ∈ rows ∧ key r = k := by
  have hu : UniqueWhere (fun _ => true) key rows := by simpa [UniqueWhere] using h
  simpa using hu.find?_eq_some

theorem find?_eq_none [DecidableEq κ] {p : α → Bool} {key : α → κ} {rows : List α} {k : κ} :
    rows.find? (fun a => key a = k && p a) = none ↔ ∀ r ∈ rows, p r = true → key r ≠ k := by
  rw [List.find?_eq_none]
  constructor
  · intro h r hr hp hk
    exact h r hr (by simp [hp, hk])
  · intro h r hr
    simpa using fun hk => by simpa using fun hp => h r hr hp hk

theorem find?_mem [DecidableEq κ] {p : α → Bool} {key : α → κ} {rows : List α} {k : κ} {r : α}
    (h : rows.find? (fun a => key a = k && p a) = some r) : r ∈ rows ∧ p r = true ∧ key r = k := by
  have hr := List.find?_some h
  simp only [Bool.and_eq_true, decide_eq_true_eq] at hr
  exact ⟨List.mem_of_find?_eq_some h, hr.2, hr.1⟩

theorem UniqueWhere.eq {p : α → Bool} {key : α → κ} {rows : List α} (h : UniqueWhere p key rows) {a b : α}
    (ha : a ∈ rows) (hpa : p a = true) (hb : b ∈ rows) (hpb : p b = true) (hk : key a = key b) : a = b :=
  List.inj_on_of_nodup_map h (List.mem_filter.2 ⟨ha, hpa⟩) (List.mem_filter.2 ⟨hb, hpb⟩) hk

/-- Looking a key up after an update that moves no row to another key. -/
theorem find?_modifyWhere_key [DecidableEq κ] (key : α → κ) {p : α → Bool} {f : α → α}
    (hf : ∀ a, p a = true → key (f a) = key a) (k : κ) :
    ∀ rows : List α, (modifyWhere p f rows).find? (fun a => key a = k) =
      (rows.find? (fun a => key a = k)).map fun a => if p a then f a else a
  | [] => rfl
  | a :: rows => by
    have ih := find?_modifyWhere_key key hf k rows
    have hkey : key (if p a then f a else a) = key a := by
      split
      · next hp => exact hf a hp
      · rfl
    simp only [modifyWhere, List.map_cons, List.find?_cons, hkey] at ih ⊢
    split
    · rfl
    · exact ih

/-- Looking a key up after a delete, under an index over all rows. -/
theorem find?_filter_of_nodup [DecidableEq κ] {key : α → κ} {rows : List α} (h : (rows.map key).Nodup)
    (q : α → Bool) (k : κ) :
    (rows.filter q).find? (fun a => key a = k) = (rows.find? (fun a => key a = k)).filter q := by
  have hq : ((rows.filter q).map key).Nodup := h.sublist (List.filter_sublist.map key)
  ext r
  rw [find?_eq_some_of_nodup hq, Option.filter_eq_some_iff, find?_eq_some_of_nodup h, List.mem_filter]
  exact ⟨fun ⟨⟨hr, hq⟩, hk⟩ => ⟨⟨hr, hk⟩, hq⟩, fun ⟨⟨hr, hk⟩, hq⟩ => ⟨⟨hr, hq⟩, hk⟩⟩

/-- The rows with the key of a row, under an index over all rows: that row. -/
theorem filter_key_of_nodup [DecidableEq κ] {key : α → κ} {rows : List α} (h : (rows.map key).Nodup) {a : α}
    (ha : a ∈ rows) : rows.filter (fun b => key b = key a) = [a] := by
  refine List.perm_singleton.1 ((List.perm_ext_iff_of_nodup ((h.of_map _).filter _) (List.nodup_singleton a)).2 fun b => ?_)
  rw [List.mem_filter, List.mem_singleton, decide_eq_true_eq]
  exact ⟨fun ⟨hb, hk⟩ => List.inj_on_of_nodup_map h hb ha hk, fun he => he.symm ▸ ⟨ha, rfl⟩⟩

/-- Looking a key up after an insert under a new key. -/
theorem find?_append_of_new [DecidableEq κ] (key : α → κ) {rows : List α} (a : α) (hn : ∀ r ∈ rows, key r ≠ key a)
    (k : κ) : (rows ++ [a]).find? (fun b => key b = k) =
      if k = key a then some a else rows.find? (fun b => key b = k) := by
  rw [List.find?_append]
  by_cases hk : k = key a
  · have hnone : rows.find? (fun b => key b = k) = none := by
      rw [List.find?_eq_none]
      intro r hr
      simpa [hk] using hn r hr
    rw [hnone, hk]
    simp
  · rw [if_neg hk]
    simp [Ne.symm hk]

/-! ## Writes -/

theorem UniqueWhere.nil {p : α → Bool} {key : α → κ} : UniqueWhere p key ([] : List α) := by
  simp [UniqueWhere]

/-- An insert that the index does not reject keeps it. -/
theorem UniqueWhere.append {p : α → Bool} {key : α → κ} {rows : List α} (h : UniqueWhere p key rows) {a : α}
    (hn : p a = true → ∀ r ∈ rows, p r = true → key r ≠ key a) : UniqueWhere p key (rows ++ [a]) := by
  unfold UniqueWhere at h ⊢
  by_cases hp : p a = true
  · rw [List.filter_append, List.map_append, List.filter_cons_of_pos hp, List.filter_nil, List.map_cons,
      List.map_nil, List.nodup_append]
    refine ⟨h, by simp, fun k hk k' hk' he => ?_⟩
    obtain ⟨r, hr, rfl⟩ := List.mem_map.1 hk
    obtain rfl := List.mem_singleton.1 hk'
    exact hn hp r (List.mem_filter.1 hr).1 (List.mem_filter.1 hr).2 he
  · rw [List.filter_append, List.filter_cons_of_neg hp]
    simpa using h

theorem UniqueWhere.filter {p : α → Bool} {key : α → κ} {rows : List α} (h : UniqueWhere p key rows)
    (q : α → Bool) : UniqueWhere p key (rows.filter q) :=
  List.Nodup.sublist ((List.Sublist.filter p (List.filter_sublist (p := q) (l := rows))).map key) h

/-- An update that puts no new row into the index, and moves none to another key, keeps it. -/
theorem UniqueWhere.modifyWhere {p q : α → Bool} {f : α → α} {key : α → κ} :
    ∀ {rows : List α}, UniqueWhere p key rows →
      (∀ a ∈ rows, q a = true → p (f a) = true → p a = true ∧ key (f a) = key a) →
      UniqueWhere p key (modifyWhere q f rows)
  | [], _, _ => UniqueWhere.nil
  | a :: rows, h, hf => by
    have hrows : UniqueWhere p key rows := by
      unfold UniqueWhere at h ⊢
      exact h.sublist (((List.sublist_cons_self a rows).filter p).map key)
    have ih := UniqueWhere.modifyWhere hrows fun b hb => hf b (List.mem_cons_of_mem a hb)
    have hsub : ∀ b ∈ rows, p (if q b then f b else b) = true → p b = true ∧ key (if q b then f b else b) = key b := by
      intro b hb hp
      by_cases hq : q b = true
      · simp only [hq, if_true] at hp ⊢
        exact hf b (List.mem_cons_of_mem a hb) hq hp
      · simp only [hq] at hp ⊢
        exact ⟨hp, rfl⟩
    have ha : p (if q a then f a else a) = true → p a = true ∧ key (if q a then f a else a) = key a := by
      intro hp
      by_cases hq : q a = true
      · simp only [hq, if_true] at hp ⊢
        exact hf a List.mem_cons_self hq hp
      · simp only [hq] at hp ⊢
        exact ⟨hp, rfl⟩
    unfold UniqueWhere at h ih ⊢
    simp only [Table.modifyWhere, List.map_cons]
    by_cases hp : p (if q a then f a else a) = true
    · rw [List.filter_cons_of_pos hp, List.map_cons, List.nodup_cons]
      refine ⟨fun hm => ?_, ih⟩
      obtain ⟨b', hb', hk⟩ := List.mem_map.1 hm
      obtain ⟨hb', hpb⟩ := List.mem_filter.1 hb'
      obtain ⟨b, hb, rfl⟩ := List.mem_map.1 hb'
      obtain ⟨hpa, hka⟩ := ha hp
      obtain ⟨hpb, hkb⟩ := hsub b hb hpb
      rw [List.filter_cons_of_pos hpa, List.map_cons, List.nodup_cons] at h
      exact h.1 (List.mem_map.2 ⟨b, List.mem_filter.2 ⟨hb, hpb⟩, by rw [← hkb, hk, hka]⟩)
    · rw [List.filter_cons_of_neg hp]
      exact ih

/-! ## Lookups after writes -/

section Lookups

variable [DecidableEq κ] {p q : α → Bool} {f : α → α} {key : α → κ} {rows : List α}

/-- Looking up after an update: the row found before, updated, if it is still in the index. -/
theorem UniqueWhere.find?_modifyWhere (h : UniqueWhere p key rows)
    (hf : ∀ a ∈ rows, q a = true → p (f a) = true → p a = true ∧ key (f a) = key a) (k : κ) :
    (Table.modifyWhere q f rows).find? (fun a => key a = k && p a) =
      (rows.find? (fun a => key a = k && p a)).bind fun a =>
        if q a then if p (f a) then some (f a) else none else some a := by
  ext r
  rw [(h.modifyWhere hf).find?_eq_some, Option.bind_eq_some_iff]
  constructor
  · rintro ⟨hr, hp, hk⟩
    obtain ⟨a, ha, rfl⟩ := mem_modifyWhere.1 hr
    by_cases hq : q a = true
    · simp only [hq, if_true] at hp hk ⊢
      obtain ⟨hpa, hka⟩ := hf a ha hq hp
      exact ⟨a, h.find?_eq_some.2 ⟨ha, hpa, hka.symm.trans hk⟩, by simp [hq, hp]⟩
    · simp only [hq] at hp hk ⊢
      exact ⟨a, h.find?_eq_some.2 ⟨ha, hp, hk⟩, by simp [hq]⟩
  · rintro ⟨a, ha, he⟩
    obtain ⟨hmem, hpa, hka⟩ := find?_mem ha
    by_cases hq : q a = true
    · simp only [hq, if_true] at he
      split at he
      · next hp =>
        obtain rfl := Option.some.inj he
        exact ⟨mem_modifyWhere.2 ⟨a, hmem, by simp [hq]⟩, hp, ((hf a hmem hq hp).2).trans hka⟩
      · simp at he
    · simp only [hq] at he
      obtain rfl : a = r := by simpa using he
      exact ⟨mem_modifyWhere.2 ⟨a, hmem, by simp [hq]⟩, hpa, hka⟩

/-- Looking up after a delete: the row found before, if it is still there. -/
theorem UniqueWhere.find?_filter (h : UniqueWhere p key rows) (q : α → Bool) (k : κ) :
    (rows.filter q).find? (fun a => key a = k && p a) = (rows.find? (fun a => key a = k && p a)).filter q := by
  ext r
  rw [(h.filter q).find?_eq_some, Option.filter_eq_some_iff, h.find?_eq_some, List.mem_filter]
  exact ⟨fun ⟨⟨hr, hq⟩, hp, hk⟩ => ⟨⟨hr, hp, hk⟩, hq⟩, fun ⟨⟨hr, hp, hk⟩, hq⟩ => ⟨⟨hr, hq⟩, hp, hk⟩⟩

/-- Looking up after an insert of a row with a new key. -/
theorem find?_append_new {a : α} (hp : p a = true) (hn : rows.find? (fun b => key b = key a && p b) = none) (k : κ) :
    (rows ++ [a]).find? (fun b => key b = k && p b) =
      if k = key a then some a else rows.find? (fun b => key b = k && p b) := by
  rw [List.find?_append]
  split
  · next hk => subst hk; simp [hn, hp]
  · next hk => simp [Ne.symm hk]

end Lookups

end Table
