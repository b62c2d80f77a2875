/-
What `select_parent_candidate` selects. The candidates of the maximal rank
decide alone: the map the loop fills keeps one of them for each pair of parent
and relation type, in the order of the pairs, and a rank tells the evidence, so
the list of winners is determined by the set of candidates that attain the
maximum.
-/
import MemoryStore.ThreadGroup.Domain

namespace MemoryStore.ThreadGroup

/-! ## Candidates and pairs -/

/-- A candidate of the list whose rank no other candidate of the list exceeds. -/
def Attains (candidates : List Candidate) (c : Candidate) : Prop :=
  c ∈ candidates ∧ ∃ rank, candidateRank c = some rank ∧
    ∀ d ∈ candidates, ∀ rank', candidateRank d = some rank' → rank' ≤ rank

/-- The evidence of a rank. -/
def evidenceOfRank : Nat → CandidateEvidence
  | 3 => .source .exact
  | 2 => .operatorConfirmation
  | _ => .source .strong

/-- A rank tells the evidence. -/
theorem evidence_of_rank {c : Candidate} {rank : Nat} (h : candidateRank c = some rank) :
    c.evidence = evidenceOfRank rank := by
  obtain ⟨p, r, e⟩ := c
  cases e with
  | operatorConfirmation =>
    obtain rfl : 2 = rank := Option.some.inj h
    rfl
  | source confidence =>
    cases confidence with
    | exact =>
      obtain rfl : 3 = rank := Option.some.inj h
      rfl
    | strong =>
      obtain rfl : 1 = rank := Option.some.inj h
      rfl
    | heuristic => exact (nomatch h)
    | unsupported => exact (nomatch h)

theorem eq_of_pair {c d : Candidate} {rank : Nat} (hpair : c.pair = d.pair) (hc : candidateRank c = some rank)
    (hd : candidateRank d = some rank) : c = d := by
  have he : c.evidence = d.evidence := (evidence_of_rank hc).trans (evidence_of_rank hd).symm
  obtain ⟨p, r, e⟩ := c
  obtain ⟨p', r', e'⟩ := d
  simp only [Candidate.pair, Prod.mk.injEq] at hpair
  obtain ⟨rfl, rfl⟩ := hpair
  exact congrArg _ he

/-! ## The order of the pairs -/

theorem RelationType.ordinal_inj {a b : RelationType} (h : a.ordinal = b.ordinal) : a = b := by
  cases a <;> cases b <;> simp_all [RelationType.ordinal]

theorem pairBefore_iff {a b : Key × RelationType} :
    pairBefore a b = true ↔ a.1 < b.1 ∨ a.1 = b.1 ∧ a.2.ordinal < b.2.ordinal := by
  simp [pairBefore]

theorem pairBefore_irrefl (a : Key × RelationType) : ¬ pairBefore a a = true := by
  simp [pairBefore_iff]

theorem pairBefore_trans {a b c : Key × RelationType} (h : pairBefore a b = true) (h' : pairBefore b c = true) :
    pairBefore a c = true := by
  rw [pairBefore_iff] at h h' ⊢
  rcases h with h | ⟨he, h⟩
  · rcases h' with h' | ⟨he', -⟩
    · exact .inl (lt_trans h h')
    · exact .inl (he' ▸ h)
  · rcases h' with h' | ⟨he', h'⟩
    · exact .inl (he.symm ▸ h')
    · exact .inr ⟨he.trans he', h.trans h'⟩

theorem pairBefore_total {a b : Key × RelationType} (hne : a ≠ b) (h : ¬ pairBefore a b = true) :
    pairBefore b a = true := by
  rw [pairBefore_iff] at h ⊢
  simp only [not_or, not_and] at h
  rcases lt_trichotomy a.1 b.1 with hlt | heq | hgt
  · exact absurd hlt h.1
  · refine .inr ⟨heq.symm, lt_of_le_of_ne (not_lt.1 (h.2 heq)) fun ho => hne ?_⟩
    exact Prod.ext heq (RelationType.ordinal_inj ho.symm)
  · exact .inl hgt

/-- Candidates in the order of their pairs, one for each pair. -/
def InPairOrder (best : List Candidate) : Prop := best.Pairwise fun a b => pairBefore a.pair b.pair = true

/-- Two such lists with the same candidates are equal. -/
theorem InPairOrder.ext {best best' : List Candidate} (h : InPairOrder best) (h' : InPairOrder best')
    (hmem : ∀ c, c ∈ best ↔ c ∈ best') : best = best' := by
  have hnodup : ∀ {l : List Candidate}, InPairOrder l → l.Nodup := by
    intro l hl
    refine List.Pairwise.imp (fun {a b} hab => ?_) hl
    rintro rfl
    exact pairBefore_irrefl a.pair hab
  refine List.Perm.eq_of_pairwise (fun a b _ _ hab hba => ?_) h h' ((List.perm_ext_iff_of_nodup (hnodup h) (hnodup h')).2 hmem)
  exact absurd (pairBefore_trans hab hba) (pairBefore_irrefl _)

/-! ## The loop -/

theorem keepBest_inPairOrder {candidate : Candidate} {rank : Nat} : ∀ {best : List Candidate},
    InPairOrder best → InPairOrder (keepBest candidate rank best)
  | [], _ => List.pairwise_singleton _ _
  | existing :: rest, h => by
    obtain ⟨hhead, hrest⟩ := List.pairwise_cons.1 h
    simp only [keepBest]
    split
    · next hpair =>
      split
      · exact h
      · exact List.pairwise_cons.2 ⟨fun c hc => hpair ▸ hhead c hc, hrest⟩
    · next hne =>
      split
      · next hbefore =>
        refine List.pairwise_cons.2 ⟨fun c hc => ?_, h⟩
        rcases List.mem_cons.1 hc with rfl | hc
        · exact hbefore
        · exact pairBefore_trans hbefore (hhead c hc)
      · next hbefore =>
        have hbefore' : pairBefore existing.pair candidate.pair = true := pairBefore_total (Ne.symm hne) hbefore
        refine List.pairwise_cons.2 ⟨fun c hc => ?_, keepBest_inPairOrder hrest⟩
        rcases mem_keepBest hc with rfl | hc
        · exact hbefore'
        · exact hhead c hc

/-- The candidate, or a better one, is kept for its pair. -/
theorem keepBest_keeps {candidate : Candidate} {rank : Nat} (hrank : candidateRank candidate = some rank) :
    ∀ best : List Candidate, ∃ b ∈ keepBest candidate rank best, b.pair = candidate.pair ∧
      ∃ kept, candidateRank b = some kept ∧ rank ≤ kept
  | [] => ⟨candidate, by simp [keepBest], rfl, rank, hrank, Nat.le_refl _⟩
  | existing :: rest => by
    simp only [keepBest]
    split
    · next hpair =>
      split
      · next hany =>
        obtain ⟨kept, hkept, hle⟩ : ∃ kept, candidateRank existing = some kept ∧ rank ≤ kept := by
          simpa [Option.any_eq_true] using hany
        exact ⟨existing, List.mem_cons_self, hpair, kept, hkept, hle⟩
      · exact ⟨candidate, List.mem_cons_self, rfl, rank, hrank, Nat.le_refl _⟩
    · split
      · exact ⟨candidate, List.mem_cons_self, rfl, rank, hrank, Nat.le_refl _⟩
      · obtain ⟨b, hb, h⟩ := keepBest_keeps hrank rest
        exact ⟨b, List.mem_cons_of_mem _ hb, h⟩

/-- What is kept stays, or gives way to a candidate of the same pair and a higher rank. -/
theorem keepBest_mono {candidate : Candidate} {rank : Nat} (hrank : candidateRank candidate = some rank) :
    ∀ {best : List Candidate} {c : Candidate} {r : Nat}, c ∈ best → candidateRank c = some r →
      ∃ b ∈ keepBest candidate rank best, b.pair = c.pair ∧ ∃ kept, candidateRank b = some kept ∧ r ≤ kept
  | [], _, _, hc, _ => by simp at hc
  | existing :: rest, c, r, hc, hr => by
    have hstays : ∀ {l : List Candidate}, c ∈ l → ∃ b ∈ l, b.pair = c.pair ∧ ∃ kept, candidateRank b = some kept ∧ r ≤ kept :=
      fun hl => ⟨c, hl, rfl, r, hr, Nat.le_refl _⟩
    simp only [keepBest]
    split
    · next hpair =>
      split
      · exact hstays hc
      · next hany =>
        rcases List.mem_cons.1 hc with rfl | hc
        · refine ⟨candidate, List.mem_cons_self, hpair.symm, rank, hrank, ?_⟩
          simp only [hr, Option.any_some, decide_eq_true_eq] at hany
          omega
        · exact hstays (List.mem_cons_of_mem _ hc)
    · split
      · exact hstays (List.mem_cons_of_mem _ hc)
      · rcases List.mem_cons.1 hc with rfl | hc
        · exact hstays List.mem_cons_self
        · obtain ⟨b, hb, h⟩ := keepBest_mono hrank hc hr
          exact ⟨b, List.mem_cons_of_mem _ hb, h⟩

/-- **The map after the loop**: in order, promotable candidates of the list, and for each promotable candidate one of its
pair that is no worse. -/
structure Collected (candidates best : List Candidate) : Prop where
  order : InPairOrder best
  offered : ∀ b ∈ best, b ∈ candidates
  ranked : ∀ b ∈ best, (candidateRank b).isSome = true
  kept : ∀ c ∈ candidates, ∀ r, candidateRank c = some r →
    ∃ b ∈ best, b.pair = c.pair ∧ ∃ kept, candidateRank b = some kept ∧ r ≤ kept

theorem Collected.step {candidates best : List Candidate} (h : Collected candidates best) (candidate : Candidate) :
    Collected (candidates ++ [candidate]) (keepCandidate best candidate) := by
  unfold keepCandidate
  cases hrank : candidateRank candidate with
  | none =>
    refine ⟨h.order, fun b hb => List.mem_append_left _ (h.offered b hb), h.ranked, fun c hc r hr => ?_⟩
    rcases List.mem_append.1 hc with hc | hc
    · exact h.kept c hc r hr
    · obtain rfl := List.mem_singleton.1 hc
      simp [hrank] at hr
  | some rank =>
    refine ⟨keepBest_inPairOrder h.order, fun b hb => ?_, fun b hb => ?_, fun c hc r hr => ?_⟩
    · rcases mem_keepBest hb with rfl | hb
      · simp
      · exact List.mem_append_left _ (h.offered b hb)
    · rcases mem_keepBest hb with rfl | hb
      · simp [hrank]
      · exact h.ranked b hb
    · rcases List.mem_append.1 hc with hc | hc
      · obtain ⟨b, hb, hpair, kept, hkept, hle⟩ := h.kept c hc r hr
        obtain ⟨b', hb', hpair', kept', hkept', hle'⟩ := keepBest_mono hrank hb hkept
        exact ⟨b', hb', hpair'.trans hpair, kept', hkept', hle.trans hle'⟩
      · obtain rfl := List.mem_singleton.1 hc
        obtain rfl := Option.some.inj (hrank.symm.trans hr)
        exact keepBest_keeps hrank best

theorem collected_bestByParent (candidates : List Candidate) : Collected candidates (bestByParent candidates) := by
  have hloop : ∀ (rest done best : List Candidate), Collected done best →
      Collected (done ++ rest) (rest.foldl keepCandidate best) := by
    intro rest
    induction rest with
    | nil => exact fun done best h => by simpa using h
    | cons c rest ih => exact fun done best h => by simpa using ih (done ++ [c]) _ (h.step c)
  exact hloop candidates [] [] ⟨List.Pairwise.nil, by simp, by simp, by simp⟩

/-! ## The winners -/

/-- The highest rank kept is the highest rank offered, and the winners are the candidates that attain it. -/
theorem Collected.winners {candidates best : List Candidate} (h : Collected candidates best) {highest : Nat}
    (hmax : (best.filterMap candidateRank).max? = some highest) (c : Candidate) :
    c ∈ best.filter (fun b => candidateRank b = some highest) ↔ Attains candidates c := by
  obtain ⟨hmem, hle⟩ := List.max?_eq_some_iff.1 hmax
  have hbest : ∀ b ∈ best, ∀ r, candidateRank b = some r → r ≤ highest := fun b hb r hr =>
    hle r (List.mem_filterMap.2 ⟨b, hb, hr⟩)
  have hall : ∀ d ∈ candidates, ∀ r, candidateRank d = some r → r ≤ highest := fun d hd r hr => by
    obtain ⟨b, hb, -, kept, hkept, hrk⟩ := h.kept d hd r hr
    exact hrk.trans (hbest b hb kept hkept)
  rw [List.mem_filter, decide_eq_true_eq]
  constructor
  · rintro ⟨hc, hrank⟩
    exact ⟨h.offered c hc, highest, hrank, hall⟩
  · rintro ⟨hc, rank, hrank, hattains⟩
    obtain ⟨d, hd, hdr⟩ := List.mem_filterMap.1 hmem
    have heq : rank = highest := Nat.le_antisymm (hall c hc rank hrank) (hattains d (h.offered d hd) highest hdr)
    subst heq
    obtain ⟨b, hb, hpair, kept, hkept, hrk⟩ := h.kept c hc rank hrank
    have hkeq : kept = rank := Nat.le_antisymm (hbest b hb kept hkept) hrk
    obtain rfl := eq_of_pair hpair (hkeq ▸ hkept) hrank
    exact ⟨hb, hrank⟩

/-- How a selection comes about: no candidate is promotable, or the winners, in the order of their pairs. -/
theorem selectParentCandidate_cases (candidates : List Candidate) :
    (selectParentCandidate candidates = .noSelection ∧ ∀ c ∈ candidates, candidateRank c = none) ∨
      ∃ winners, winners ≠ [] ∧ InPairOrder winners ∧ (∀ c, c ∈ winners ↔ Attains candidates c) ∧
        selectParentCandidate candidates =
          (match winners with | [winner] => .selected winner | winners => .conflict winners) := by
  have h := collected_bestByParent candidates
  cases hmax : ((bestByParent candidates).filterMap candidateRank).max? with
  | none =>
    refine .inl ⟨by simp only [selectParentCandidate, hmax], fun c hc => ?_⟩
    have hnil : (bestByParent candidates).filterMap candidateRank = [] := List.max?_eq_none_iff.1 hmax
    cases hr : candidateRank c with
    | none => rfl
    | some r =>
      obtain ⟨b, hb, -, kept, hkept, -⟩ := h.kept c hc r hr
      have : kept ∈ (bestByParent candidates).filterMap candidateRank := List.mem_filterMap.2 ⟨b, hb, hkept⟩
      simp [hnil] at this
  | some highest =>
    refine .inr ⟨(bestByParent candidates).filter (fun b => candidateRank b = some highest), ?_, ?_,
      h.winners hmax, ?_⟩
    · obtain ⟨b, hb, hr⟩ := List.mem_filterMap.1 (List.max?_eq_some_iff.1 hmax).1
      exact List.ne_nil_of_mem (List.mem_filter.2 ⟨hb, by simpa using hr⟩)
    · exact h.order.sublist List.filter_sublist
    · unfold selectParentCandidate
      dsimp only
      rw [hmax] <;> rfl

theorem not_attains_of_rankless {candidates : List Candidate} (h : ∀ c ∈ candidates, candidateRank c = none)
    (c : Candidate) : ¬ Attains candidates c := fun ⟨hc, _, hr, _⟩ => by simp [h c hc] at hr

/-- **The selection is a function of the candidates that attain the maximum.** -/
theorem selectParentCandidate_congr {candidates candidates' : List Candidate}
    (h : ∀ c, Attains candidates c ↔ Attains candidates' c) :
    selectParentCandidate candidates = selectParentCandidate candidates' := by
  rcases selectParentCandidate_cases candidates with ⟨hs, hnone⟩ | ⟨winners, hne, hord, hmem, hs⟩
  · rcases selectParentCandidate_cases candidates' with ⟨hs', -⟩ | ⟨winners', hne', -, hmem', -⟩
    · rw [hs, hs']
    · obtain ⟨c, hc⟩ := List.exists_mem_of_ne_nil _ hne'
      exact absurd ((h c).2 ((hmem' c).1 hc)) (not_attains_of_rankless hnone c)
  · rcases selectParentCandidate_cases candidates' with ⟨-, hnone'⟩ | ⟨winners', hne', hord', hmem', hs'⟩
    · obtain ⟨c, hc⟩ := List.exists_mem_of_ne_nil _ hne
      exact absurd ((h c).1 ((hmem c).1 hc)) (not_attains_of_rankless hnone' c)
    · obtain rfl := hord.ext hord' fun c => by rw [hmem, hmem', h]
      rw [hs, hs']

theorem attains_of_same {candidates candidates' : List Candidate} (h : ∀ c, c ∈ candidates' ↔ c ∈ candidates)
    (c : Candidate) : Attains candidates' c ↔ Attains candidates c := by
  simp only [Attains, h]

/-- A candidate below another attains nothing. -/
theorem attains_insert_below {front back : List Candidate} {c : Candidate}
    (hbelow : ∀ r, candidateRank c = some r → ∃ d ∈ front ++ back, ∃ r', candidateRank d = some r' ∧ r < r')
    (x : Candidate) : Attains (front ++ c :: back) x ↔ Attains (front ++ back) x := by
  have hmem : ∀ d, d ∈ front ++ c :: back ↔ d = c ∨ d ∈ front ++ back := fun d => by
    simp only [List.mem_append, List.mem_cons]
    tauto
  constructor
  · rintro ⟨hx, r, hr, hmax⟩
    refine ⟨((hmem x).1 hx).resolve_left ?_, r, hr, fun d hd => hmax d ((hmem d).2 (.inr hd))⟩
    rintro rfl
    obtain ⟨d, hd, r', hr', hlt⟩ := hbelow r hr
    exact absurd (hmax d ((hmem d).2 (.inr hd)) r' hr') (Nat.not_le.2 hlt)
  · rintro ⟨hx, r, hr, hmax⟩
    refine ⟨(hmem x).2 (.inr hx), r, hr, fun d hd r' hr' => ?_⟩
    rcases (hmem d).1 hd with rfl | hd
    · obtain ⟨e, he, r'', hr'', hlt⟩ := hbelow r' hr'
      exact hlt.le.trans (hmax e he r'' hr'')
    · exact hmax d hd r' hr'

theorem selected_iff {candidates : List Candidate} {c : Candidate} : selectParentCandidate candidates = .selected c ↔
    Attains candidates c ∧ ∀ d, Attains candidates d → d.pair = c.pair := by
  rcases selectParentCandidate_cases candidates with ⟨hs, hnone⟩ | ⟨winners, hne, hord, hmem, hs⟩
  · simp [hs, not_attains_of_rankless hnone]
  · rw [hs]
    cases winners with
    | nil => exact absurd rfl hne
    | cons w rest =>
      cases rest with
      | nil =>
        simp only [List.mem_singleton] at hmem
        constructor
        · intro h
          obtain rfl := CandidateSelection.selected.inj h
          exact ⟨(hmem w).1 rfl, fun d hd => congrArg Candidate.pair ((hmem d).2 hd)⟩
        · rintro ⟨hc, -⟩
          exact congrArg _ ((hmem c).2 hc).symm
      | cons w' rest =>
        refine iff_of_false (by simp) ?_
        rintro ⟨-, hsame⟩
        have hw := hsame w ((hmem w).1 (by simp))
        have hw' := hsame w' ((hmem w').1 (by simp))
        have hlt : pairBefore w.pair w'.pair = true := (List.pairwise_cons.1 hord).1 w' (by simp)
        rw [hw, hw'] at hlt
        exact pairBefore_irrefl c.pair hlt

theorem conflict_iff {candidates winners : List Candidate} : selectParentCandidate candidates = .conflict winners ↔
    InPairOrder winners ∧ 2 ≤ winners.length ∧ ∀ c, c ∈ winners ↔ Attains candidates c := by
  rcases selectParentCandidate_cases candidates with ⟨hs, hnone⟩ | ⟨best, hne, hord, hmem, hs⟩
  · rw [hs]
    refine iff_of_false (by simp) ?_
    rintro ⟨-, hlen, hmem⟩
    cases winners with
    | nil => simp at hlen
    | cons w _ => exact not_attains_of_rankless hnone w ((hmem w).1 List.mem_cons_self)
  · rw [hs]
    have hexact : (InPairOrder winners ∧ ∀ c, c ∈ winners ↔ Attains candidates c) ↔ best = winners := by
      constructor
      · rintro ⟨hord', hmem'⟩
        exact hord.ext hord' fun c => (hmem c).trans (hmem' c).symm
      · rintro rfl
        exact ⟨hord, hmem⟩
    cases best with
    | nil => exact absurd rfl hne
    | cons w rest =>
      cases rest with
      | nil =>
        refine iff_of_false (by simp) ?_
        rintro ⟨hord', hlen, hmem'⟩
        obtain rfl := hexact.1 ⟨hord', hmem'⟩
        simp at hlen
      | cons w' rest =>
        constructor
        · intro h
          obtain rfl := CandidateSelection.conflict.inj h
          exact ⟨hord, by simp, hmem⟩
        · rintro ⟨hord', -, hmem'⟩
          exact congrArg _ (hexact.1 ⟨hord', hmem'⟩)

theorem noSelection_iff {candidates : List Candidate} : selectParentCandidate candidates = .noSelection ↔
    ∀ c ∈ candidates, candidateRank c = none := by
  rcases selectParentCandidate_cases candidates with ⟨hs, hnone⟩ | ⟨winners, hne, -, hmem, hs⟩
  · exact iff_of_true hs hnone
  · refine iff_of_false ?_ fun hnone => ?_
    · rw [hs]
      split <;> simp
    · obtain ⟨c, hc⟩ := List.exists_mem_of_ne_nil _ hne
      exact not_attains_of_rankless hnone c ((hmem c).1 hc)

/-! ## The characterisation -/

/-- **The parent selection.** It sees the set of candidates only. It selects the candidate of the one pair that attains the
maximal rank, conflicts on exactly the pairs that attain it when there are several, and selects nothing when no
candidate is promotable; a candidate of strictly lower rank, or of none, changes nothing. -/
theorem selectParentCandidate_exact (candidates : List Candidate) :
    (∀ candidates', (∀ c, c ∈ candidates' ↔ c ∈ candidates) →
      selectParentCandidate candidates' = selectParentCandidate candidates) ∧
    (∀ c, selectParentCandidate candidates = .selected c ↔
      Attains candidates c ∧ ∀ d, Attains candidates d → d.pair = c.pair) ∧
    ((∃ winners, selectParentCandidate candidates = .conflict winners) ↔
      ∃ c d, Attains candidates c ∧ Attains candidates d ∧ c.pair ≠ d.pair) ∧
    (∀ winners, selectParentCandidate candidates = .conflict winners → (winners.map Candidate.pair).Nodup ∧
      (∀ pair, pair ∈ winners.map Candidate.pair ↔ ∃ c, Attains candidates c ∧ c.pair = pair) ∧
      ∀ c, c ∈ winners ↔ Attains candidates c) ∧
    (selectParentCandidate candidates = .noSelection ↔ ∀ c ∈ candidates, candidateRank c = none) ∧
    (∀ front c back, candidates = front ++ back →
      (∀ r, candidateRank c = some r → ∃ d ∈ candidates, ∃ r', candidateRank d = some r' ∧ r < r') →
      selectParentCandidate (front ++ c :: back) = selectParentCandidate candidates) := by
  refine ⟨fun candidates' h => selectParentCandidate_congr (attains_of_same h), fun c => selected_iff, ?_,
    fun winners h => ?_, noSelection_iff, ?_⟩
  · constructor
    · rintro ⟨winners, h⟩
      obtain ⟨hord, hlen, hmem⟩ := conflict_iff.1 h
      match winners, hord, hlen, hmem with
      | w :: w' :: rest, hord, _, hmem =>
        refine ⟨w, w', (hmem w).1 (by simp), (hmem w').1 (by simp), fun he => ?_⟩
        have hlt : pairBefore w.pair w'.pair = true := (List.pairwise_cons.1 hord).1 w' (by simp)
        exact pairBefore_irrefl w'.pair (he ▸ hlt)
    · rintro ⟨c, d, hc, hd, hne⟩
      cases hs : selectParentCandidate candidates with
      | conflict winners => exact ⟨winners, rfl⟩
      | selected w =>
        have hall := (selected_iff.1 hs).2
        exact absurd ((hall c hc).trans (hall d hd).symm) hne
      | noSelection => exact absurd hc (not_attains_of_rankless (noSelection_iff.1 hs) c)
  · obtain ⟨hord, -, hmem⟩ := conflict_iff.1 h
    refine ⟨List.pairwise_map.2 (List.Pairwise.imp (fun {a b} hab he => ?_) hord), fun pair => ?_, hmem⟩
    · rw [he] at hab
      exact pairBefore_irrefl b.pair hab
    · simp only [List.mem_map, hmem]
  · rintro front c back rfl hbelow
    exact selectParentCandidate_congr (attains_insert_below hbelow)

/-- A strong candidate below an exact one. -/
theorem strong_candidate_ignored :
    selectParentCandidate [⟨"p", .delegated, .source .exact⟩, ⟨"q", .fork, .source .strong⟩] =
      selectParentCandidate [⟨"p", .delegated, .source .exact⟩] := by
  refine (selectParentCandidate_exact [⟨"p", .delegated, .source .exact⟩]).2.2.2.2.2 [⟨"p", .delegated, .source .exact⟩]
    ⟨"q", .fork, .source .strong⟩ [] rfl fun r hr => ?_
  obtain rfl : 1 = r := Option.some.inj hr
  exact ⟨⟨"p", .delegated, .source .exact⟩, by simp, 3, rfl, by decide⟩

end MemoryStore.ThreadGroup
