/-
Walks up a relation that gives each node at most one parent, from several starts
one after the other: what a walk adds to the nodes known so far, parents before
children, and what all walks together have added. Some nodes are left out, and
the walks do not go past them.
-/
import Mathlib

namespace Ascent

open Relation (ReflTransGen TransGen)

variable {α : Type} {r : α → α → Prop} {out : α → Prop} {path seen added : List α} {start parent : α}

/-- **What a walk from a start adds**, on a path that leads to the start, when some nodes are known already. -/
structure Adds (r : α → α → Prop) (out : α → Prop) (path seen : List α) (start : α) (added : List α) : Prop where
  nodup : added.Nodup
  fresh : ∀ x ∈ added, x ∉ seen ∧ x ∉ path
  reached : ∀ x ∈ added, ReflTransGen r start x ∧ ¬out x
  present : start ∈ seen ∨ start ∈ path ∨ start ∈ added ∨ out start
  closed : ∀ x ∈ added, ∀ p, r x p → p ∈ seen ∨ p ∈ path ∨ p ∈ added ∨ out p
  ordered : ∀ before x after, added = before ++ x :: after → ∀ p, r x p →
    p ∈ seen ∨ p ∈ before ∨ out p ∨ ReflTransGen r p x

/-- A walk that stops at once. -/
theorem Adds.nothing (h : start ∈ seen ∨ start ∈ path ∨ out start) : Adds r out path seen start [] where
  nodup := List.nodup_nil
  fresh _ hx := absurd hx List.not_mem_nil
  reached _ hx := absurd hx List.not_mem_nil
  present := by
    rcases h with h | h | h
    · exact .inl h
    · exact .inr (.inl h)
    · exact .inr (.inr (.inr h))
  closed _ hx := absurd hx List.not_mem_nil
  ordered before x after h := absurd h (by simp)

/-- A walk that ends at a node without a parent. -/
theorem Adds.leaf (hseen : start ∉ seen) (hpath : start ∉ path) (hout : ¬out start) (hleaf : ∀ p, ¬r start p) :
    Adds r out path seen start [start] where
  nodup := List.nodup_singleton start
  fresh x hx := List.mem_singleton.1 hx ▸ ⟨hseen, hpath⟩
  reached x hx := by
    obtain rfl := List.mem_singleton.1 hx
    exact ⟨.refl, hout⟩
  present := .inr (.inr (.inl (List.mem_singleton_self start)))
  closed x hx p hp := absurd (List.mem_singleton.1 hx ▸ hp) (hleaf p)
  ordered before x after heq p hp := by
    have hx : x ∈ [start] := heq ▸ by simp
    exact absurd (List.mem_singleton.1 hx ▸ hp) (hleaf p)

/-- A walk that goes on to the parent and adds its start after what was added there. -/
theorem Adds.up (hseen : start ∉ seen) (hpath : start ∉ path) (hout : ¬out start)
    (hleads : ∀ x ∈ path, ReflTransGen r x start) (honly : ∀ p, r start p → p = parent)
    (h : Adds r out (start :: path) seen parent added) (hparent : r start parent) :
    Adds r out path seen start (added ++ [start]) where
  nodup := List.nodup_append.2 ⟨h.nodup, List.nodup_singleton start, fun x hx y hy he =>
    (h.fresh x hx).2 (he.trans (List.mem_singleton.1 hy) ▸ List.mem_cons_self)⟩
  fresh x hx := by
    rcases List.mem_append.1 hx with hx | hx
    · exact ⟨(h.fresh x hx).1, fun hmem => (h.fresh x hx).2 (List.mem_cons_of_mem _ hmem)⟩
    · exact List.mem_singleton.1 hx ▸ ⟨hseen, hpath⟩
  reached x hx := by
    rcases List.mem_append.1 hx with hx | hx
    · exact ⟨.head hparent (h.reached x hx).1, (h.reached x hx).2⟩
    · obtain rfl := List.mem_singleton.1 hx
      exact ⟨.refl, hout⟩
  present := .inr (.inr (.inl (by simp)))
  closed x hx p hp := by
    have hknown : p ∈ seen ∨ p ∈ start :: path ∨ p ∈ added ∨ out p := by
      rcases List.mem_append.1 hx with hx | hx
      · exact h.closed x hx p hp
      · rw [honly p (List.mem_singleton.1 hx ▸ hp)]
        exact h.present
    rcases hknown with hp | hp | hp | hp
    · exact .inl hp
    · rcases List.mem_cons.1 hp with rfl | hp
      · exact .inr (.inr (.inl (by simp)))
      · exact .inr (.inl hp)
    · exact .inr (.inr (.inl (List.mem_append_left _ hp)))
    · exact .inr (.inr (.inr hp))
  ordered before x after heq p hp := by
    rcases List.eq_nil_or_concat after with rfl | ⟨after, last, rfl⟩
    · obtain ⟨rfl, hx⟩ := List.append_inj' heq rfl
      obtain rfl := List.singleton_inj.1 hx
      rw [honly p hp]
      -- The start comes after everything added on the way up.
      rcases h.present with hp | hp | hp | hp
      · exact .inl hp
      · refine .inr (.inr (.inr ?_))
        rcases List.mem_cons.1 hp with he | hp
        · exact he ▸ .refl
        · exact hleads parent hp
      · exact .inr (.inl hp)
      · exact .inr (.inr (.inl hp))
    · rw [List.concat_eq_append, ← List.cons_append, ← List.append_assoc] at heq
      exact h.ordered before x after (List.append_inj' heq rfl).1 p hp

/-- Only which nodes are known counts. -/
theorem Adds.congr {seen' : List α} (h : Adds r out path seen start added) (hseen : ∀ x, x ∈ seen ↔ x ∈ seen') :
    Adds r out path seen' start added where
  nodup := h.nodup
  fresh x hx := ⟨fun hmem => (h.fresh x hx).1 ((hseen x).2 hmem), (h.fresh x hx).2⟩
  reached := h.reached
  present := h.present.imp_left (hseen start).1
  closed x hx p hp := (h.closed x hx p hp).imp_left (hseen p).1
  ordered before x after heq p hp := (h.ordered before x after heq p hp).imp_left (hseen p).1

/-- **What the walks from some starts have added.** -/
structure Climbed (r : α → α → Prop) (out : α → Prop) (starts all : List α) : Prop where
  nodup : all.Nodup
  reached : ∀ x ∈ all, (∃ start ∈ starts, ReflTransGen r start x) ∧ ¬out x
  present : ∀ start ∈ starts, start ∈ all ∨ out start
  closed : ∀ x ∈ all, ∀ p, r x p → p ∈ all ∨ out p
  ordered : ∀ before x after, all = before ++ x :: after → ∀ p, r x p → p ∈ before ∨ out p ∨ ReflTransGen r p x

variable {starts all : List α}

theorem Climbed.nil : Climbed r out [] [] where
  nodup := List.nodup_nil
  reached _ hx := absurd hx List.not_mem_nil
  present _ hx := absurd hx List.not_mem_nil
  closed _ hx := absurd hx List.not_mem_nil
  ordered before x after h := absurd h (by simp)

theorem Climbed.add (h : Climbed r out starts all) (ha : Adds r out [] all start added) :
    Climbed r out (starts ++ [start]) (all ++ added) where
  nodup := List.nodup_append.2 ⟨h.nodup, ha.nodup, fun x hx y hy he => (ha.fresh y hy).1 (he ▸ hx)⟩
  reached x hx := by
    rcases List.mem_append.1 hx with hx | hx
    · obtain ⟨⟨s, hs, hr⟩, hout⟩ := h.reached x hx
      exact ⟨⟨s, List.mem_append_left _ hs, hr⟩, hout⟩
    · exact ⟨⟨start, by simp, (ha.reached x hx).1⟩, (ha.reached x hx).2⟩
  present s hs := by
    rcases List.mem_append.1 hs with hs | hs
    · exact (h.present s hs).imp_left (List.mem_append_left _)
    · rw [List.mem_singleton.1 hs]
      rcases ha.present with hp | hp | hp | hp
      · exact .inl (List.mem_append_left _ hp)
      · exact absurd hp List.not_mem_nil
      · exact .inl (List.mem_append_right _ hp)
      · exact .inr hp
  closed x hx p hp := by
    rcases List.mem_append.1 hx with hx | hx
    · exact (h.closed x hx p hp).imp_left (List.mem_append_left _)
    · rcases ha.closed x hx p hp with hp | hp | hp | hp
      · exact .inl (List.mem_append_left _ hp)
      · exact absurd hp List.not_mem_nil
      · exact .inl (List.mem_append_right _ hp)
      · exact .inr hp
  ordered before x after heq p hp := by
    rcases List.append_eq_append_iff.1 heq with ⟨gap, rfl, hadded⟩ | ⟨gap, hall, hrest⟩
    · rcases ha.ordered gap x after hadded p hp with hp | hp | hp
      · exact .inl (List.mem_append_left _ hp)
      · exact .inl (List.mem_append_right _ hp)
      · exact .inr hp
    · cases gap with
      | nil =>
        rw [List.append_nil] at hall
        rcases ha.ordered [] x after hrest.symm p hp with hp | hp | hp
        · exact .inl (hall ▸ hp)
        · exact absurd hp List.not_mem_nil
        · exact .inr hp
      | cons y gap =>
        obtain ⟨rfl, -⟩ := List.cons.inj hrest
        exact h.ordered before x gap hall p hp

/-- **The walks add exactly what is reached from the starts**, but for what is left out. -/
theorem Climbed.mem_iff (h : Climbed r out starts all) (hr : ∀ x p, r x p → ¬out x) {x : α} :
    x ∈ all ↔ ¬out x ∧ ∃ start ∈ starts, ReflTransGen r start x := by
  constructor
  · intro hx
    exact ⟨(h.reached x hx).2, (h.reached x hx).1⟩
  · rintro ⟨hout, start, hstart, hreach⟩
    have hknown : x ∈ all ∨ out x := by
      clear hout
      induction hreach with
      | refl => exact h.present start hstart
      | tail _ hstep ih => exact h.closed _ (ih.resolve_right (hr _ _ hstep)) _ hstep
    exact hknown.resolve_right hout

end Ascent
