/-
Half-open spans of positions, and merging a list of them sorted by their start:
what touches or overlaps becomes one span, and the positions covered stay the
same.
-/
import Mathlib

namespace Spans

/-- The positions from the first component up to the second, which is excluded. -/
abbrev Span := ℕ × ℕ

/-- Some span covers the position. -/
def Covers (spans : List Span) (i : ℕ) : Prop := ∃ s ∈ spans, s.1 ≤ i ∧ i < s.2

/-- One span more, into spans kept latest first. -/
def absorb (s : Span) : List Span → List Span
  | [] => [s]
  | last :: rest => if s.1 ≤ last.2 then (last.1, max last.2 s.2) :: rest else s :: last :: rest

theorem absorb_cons (s last : Span) (rest : List Span) :
    absorb s (last :: rest) = if s.1 ≤ last.2 then (last.1, max last.2 s.2) :: rest else s :: last :: rest := rfl

/-- Merge spans that come in the order of their start. -/
def merge (spans : List Span) : List Span := (spans.foldl (fun merged s => absorb s merged) []).reverse

/-- Spans, latest first: none is empty, and between two there is a gap. -/
structure Apart (merged : List Span) : Prop where
  nonempty : ∀ s ∈ merged, s.1 < s.2
  gaps : merged.Pairwise fun later earlier => earlier.2 < later.1

theorem Apart.add {merged : List Span} (h : Apart merged) {s : Span} (hs : s.1 < s.2) : Apart (absorb s merged) := by
  match merged, h with
  | [], _ => exact ⟨fun t ht => by rw [List.mem_singleton.1 ht]; exact hs, List.pairwise_singleton _ _⟩
  | last :: rest, ⟨hne, hgaps⟩ =>
    have hlast := hne last List.mem_cons_self
    obtain ⟨hrest, hpair⟩ := List.pairwise_cons.1 hgaps
    rw [absorb_cons]
    split
    · refine ⟨fun t ht => ?_, List.pairwise_cons.2 ⟨hrest, hpair⟩⟩
      rcases List.mem_cons.1 ht with rfl | ht
      · exact lt_of_lt_of_le hlast (le_max_left _ _)
      · exact hne t (List.mem_cons_of_mem _ ht)
    next hgap =>
      refine ⟨fun t ht => ?_, List.pairwise_cons.2 ⟨fun t ht => ?_, hgaps⟩⟩
      · rcases List.mem_cons.1 ht with rfl | ht
        · exact hs
        · exact hne t ht
      · rcases List.mem_cons.1 ht with rfl | ht
        · omega
        · have := hrest t ht
          omega

/-- A span that starts no earlier than the last one is absorbed without loss. -/
theorem covers_absorb {merged : List Span} {s : Span} (h : ∀ t ∈ merged, t.1 ≤ s.1) (i : ℕ) :
    Covers (absorb s merged) i ↔ Covers merged i ∨ s.1 ≤ i ∧ i < s.2 := by
  unfold Covers
  match merged, h with
  | [], _ => simp [absorb]
  | last :: rest, h =>
    have hle := h last List.mem_cons_self
    rw [absorb_cons]
    split
    · rw [List.exists_mem_cons_iff, List.exists_mem_cons_iff]
      have hunion : (last.1 ≤ i ∧ i < max last.2 s.2) ↔ (last.1 ≤ i ∧ i < last.2) ∨ s.1 ≤ i ∧ i < s.2 := by
        rw [lt_max_iff]
        omega
      rw [hunion]
      exact or_right_comm
    · rw [List.exists_mem_cons_iff, or_comm]

/-- A bound of a merged span is a bound of one of the spans. -/
theorem bounds_absorb {merged : List Span} {s t : Span} (h : t ∈ absorb s merged) :
    (t.1 = s.1 ∨ ∃ u ∈ merged, t.1 = u.1) ∧ (t.2 = s.2 ∨ ∃ u ∈ merged, t.2 = u.2) := by
  match merged with
  | [] =>
    obtain rfl := List.mem_singleton.1 h
    exact ⟨.inl rfl, .inl rfl⟩
  | last :: rest =>
    rw [absorb_cons] at h
    split at h
    · rcases List.mem_cons.1 h with rfl | h
      · refine ⟨.inr ⟨last, List.mem_cons_self, rfl⟩, ?_⟩
        rcases max_choice last.2 s.2 with hmax | hmax
        · exact .inr ⟨last, List.mem_cons_self, hmax⟩
        · exact .inl hmax
      · exact ⟨.inr ⟨t, List.mem_cons_of_mem _ h, rfl⟩, .inr ⟨t, List.mem_cons_of_mem _ h, rfl⟩⟩
    · rcases List.mem_cons.1 h with rfl | h
      · exact ⟨.inl rfl, .inl rfl⟩
      · exact ⟨.inr ⟨t, h, rfl⟩, .inr ⟨t, h, rfl⟩⟩

/-- **What merging keeps**, for spans that are not empty and come by their start. -/
structure Merged (spans merged : List Span) : Prop where
  nonempty : ∀ s ∈ merged, s.1 < s.2
  gaps : merged.Pairwise fun earlier later => earlier.2 < later.1
  bounds : ∀ t ∈ merged, (∃ s ∈ spans, t.1 = s.1) ∧ ∃ s ∈ spans, t.2 = s.2
  covers : ∀ i, Covers merged i ↔ Covers spans i

theorem foldl_absorb : ∀ (spans before : List Span), (∀ s ∈ spans, s.1 < s.2) →
    spans.Pairwise (fun a b => a.1 ≤ b.1) → Apart before → (∀ t ∈ before, ∀ s ∈ spans, t.1 ≤ s.1) →
    Apart (spans.foldl (fun merged s => absorb s merged) before) ∧
      (∀ t ∈ spans.foldl (fun merged s => absorb s merged) before,
        (∃ s ∈ before ++ spans, t.1 = s.1) ∧ ∃ s ∈ before ++ spans, t.2 = s.2) ∧
      ∀ i, Covers (spans.foldl (fun merged s => absorb s merged) before) i ↔ Covers (before ++ spans) i
  | [], before, _, _, hapart, _ =>
    ⟨hapart, fun t ht => by rw [List.append_nil]; exact ⟨⟨t, ht, rfl⟩, t, ht, rfl⟩, fun i => by
      rw [List.append_nil]
      rfl⟩
  | s :: spans, before, hne, hsorted, hapart, hbefore => by
    obtain ⟨hfirst, hsorted⟩ := List.pairwise_cons.1 hsorted
    have hs := hne s List.mem_cons_self
    have hstarts : ∀ t ∈ absorb s before, ∀ u ∈ spans, t.1 ≤ u.1 := by
      intro t ht u hu
      rcases (bounds_absorb ht).1 with heq | ⟨v, hv, heq⟩
      · rw [heq]
        exact hfirst u hu
      · rw [heq]
        exact hbefore v hv u (List.mem_cons_of_mem _ hu)
    obtain ⟨h1, h2, h3⟩ := foldl_absorb spans (absorb s before)
      (fun t ht => hne t (List.mem_cons_of_mem _ ht)) hsorted (hapart.add hs) hstarts
    refine ⟨h1, fun t ht => ?_, fun i => ?_⟩
    · obtain ⟨⟨u, hu, hstart⟩, v, hv, hstop⟩ := h2 t ht
      refine ⟨?_, ?_⟩
      · rcases List.mem_append.1 hu with hu | hu
        · rcases (bounds_absorb hu).1 with heq | ⟨w, hw, heq⟩
          · exact ⟨s, by simp, hstart.trans heq⟩
          · exact ⟨w, List.mem_append_left _ hw, hstart.trans heq⟩
        · exact ⟨u, by simp [hu], hstart⟩
      · rcases List.mem_append.1 hv with hv | hv
        · rcases (bounds_absorb hv).2 with heq | ⟨w, hw, heq⟩
          · exact ⟨s, by simp, hstop.trans heq⟩
          · exact ⟨w, List.mem_append_left _ hw, hstop.trans heq⟩
        · exact ⟨v, by simp [hv], hstop⟩
    · have habsorb := covers_absorb (fun t ht => hbefore t ht s List.mem_cons_self) i
      have hsplit : ∀ l l' : List Span, Covers (l ++ l') i ↔ Covers l i ∨ Covers l' i := fun l l' => by
        unfold Covers
        simp only [List.mem_append, or_and_right, exists_or]
      have hcons : Covers (s :: spans) i ↔ (s.1 ≤ i ∧ i < s.2) ∨ Covers spans i := by
        unfold Covers
        rw [List.exists_mem_cons_iff]
      rw [List.foldl_cons, h3, hsplit, habsorb, hsplit, hcons, or_assoc]

/-- **Merging sorted spans.** -/
theorem merge_merged {spans : List Span} (hne : ∀ s ∈ spans, s.1 < s.2) (hsorted : spans.Pairwise fun a b => a.1 ≤ b.1) :
    Merged spans (merge spans) := by
  obtain ⟨⟨h1, h2⟩, h3, h4⟩ := foldl_absorb spans [] hne hsorted ⟨by simp, .nil⟩ (by simp)
  refine ⟨fun s hs => h1 s (List.mem_reverse.1 hs), List.pairwise_reverse.2 h2,
    fun t ht => h3 t (List.mem_reverse.1 ht), fun i => ?_⟩
  have hrev : Covers (merge spans) i ↔ Covers (spans.foldl (fun merged s => absorb s merged) []) i := by
    unfold Covers merge
    simp only [List.mem_reverse]
  rw [hrev, h4, List.nil_append]

end Spans
