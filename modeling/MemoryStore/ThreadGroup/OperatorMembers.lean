/-
Members an operator placed, under automation. No step of the reconciler touches
one, and none moves the keys below it out of its group: a step either keeps
every active relation, so that cohesion holds the descendants where they are, or
retracts one and moves nobody.
-/
import MemoryStore.ThreadGroup.Cohesion
import MemoryStore.ThreadGroup.Forecast
import MemoryStore.ThreadGroup.Scenario

namespace MemoryStore.ThreadGroup

open Tx Table Forest

section Stable

variable [KeyHash]

/-- A property of stores that survives the two kinds of placement survives the placement of a subject. -/
theorem Ensured.preserves {I : Store → Prop} {s s' : Store} {e : Edge} (hens : Ensured e s s') (hs : Sound s)
    (hopen : ∀ {s s' rootKey owner g}, Opened s rootKey owner g s' → I s → I s')
    (hplaced : ∀ {s s' threadId key endpoint target anchorKey}, Memberships s → s.Automatic key →
      Placed threadId key endpoint target anchorKey s s' → I s → I s') (hi : I s) : I s' := by
  have hspec := hens.rule (I := fun _ _ _ _ s => I s)
    (fun _ => ⟨id, fun h _ => h, fun h _ _ _ => h, fun h _ hauto hm _ hp => hplaced hm hauto hp h⟩)
    hs.memberships hs.forest fun hauto target anchor s₁ s₂ ha hre hp => ?_
  · rcases hspec with ⟨rfl, -⟩ | ⟨_, ⟨_, h⟩, -⟩
    · exact hi
    · exact h
  · have hauto₁ : s₁.Automatic e.subjectKey := (ha.automatic_iff hs).2 hauto
    cases ha with
    | member _ m _ hm => exact hplaced hs.memberships hauto hp hi
    | root _ t endpoint _ s₃ _ hroot hnone _ hopened hp₁ =>
      have hn : s₃.findCurrent anchor = none := (hopened.findCurrent anchor).trans (hnone anchor hroot.1)
      have h₁ : I s₁ := hplaced (hopened.memberships hs.memberships) (fun m hm => by simp [hn] at hm) hp₁
        (hopen hopened hi)
      exact hplaced hre.memberships hauto₁ hp h₁

/-- No step of the reconciler touches a member an operator placed. -/
theorem operatorMember_stable {key : Key} {m : MemberRow} (hop : m.provenance = .operator) :
    Stable fun s => s.findCurrent key = some m := by
  have hplaced : ∀ {s s' : Store} {threadId k endpoint target anchorKey}, Memberships s → s.Automatic k →
      Placed threadId k endpoint target anchorKey s s' → s.findCurrent key = some m → s'.findCurrent key = some m := by
    intro s s' threadId k endpoint target anchorKey hs hauto hp hm
    have hne : key ≠ k := by
      rintro rfl
      simp [hauto m hm] at hop
    rw [hp.findCurrent_of_ne hs hne, hm]
  have hopen : ∀ {s s' : Store} {rootKey owner g}, Opened s rootKey owner g s' → s.findCurrent key = some m →
      s'.findCurrent key = some m := fun h hm => (h.findCurrent key).trans hm
  exact
    { evidence := fun _ hm he => (findCurrent_congr he.members key).trans hm
      mapping := fun _ hm h => (findCurrent_congr h.members key).trans hm
      ended := fun _ hm _ _ => hm
      ensured := fun hs hm _ _ hens => hens.preserves hs hopen hplaced hm
      adopted := fun hs hm _ hrow hn hno hens => hens.preserves
        (hs.relate hrow.active (hrow.child ▸ hn) (hrow.child ▸ hrow.parent ▸ hno)) hopen hplaced hm
      housed := fun _ hm _ hh => by
        cases hh with
        | already => exact hm
        | alone g identity s₁ hn hopened =>
          rw [findCurrent_join rfl ((hopened.findCurrent _).trans hn), automaticRow_key, hopened.findCurrent]
          split
          · next he => rw [he, hn] at hm; simp at hm
          · exact hm }

/-- No step of the reconciler makes a member an operator's. -/
theorem automatic_stable (key : Key) : Stable fun s => s.Automatic key := by
  have hplaced : ∀ {s s' : Store} {threadId k endpoint target anchorKey}, Memberships s → s.Automatic k →
      Placed threadId k endpoint target anchorKey s s' → s.Automatic key → s'.Automatic key := by
    intro s s' threadId k endpoint target anchorKey hs _ hp h m hm
    by_cases hk : key = k
    · subst hk
      have hself := hp.findCurrent_self hs
      rw [hm] at hself
      unfold Store.placedMember at hself
      split at hself
      · rcases hself with ⟨h, -⟩ | ⟨_, _, -, hrow⟩
        · simp at h
        · obtain rfl := Option.some.inj hrow
          rfl
      · next m₀ hm₀ =>
        rcases hself with ⟨hrow, -⟩ | ⟨-, -, ⟨hrow, -⟩ | ⟨_, _, -, hrow⟩⟩
        · obtain rfl := Option.some.inj hrow
          exact h m hm₀
        · simp at hrow
        · obtain rfl := Option.some.inj hrow
          rfl
    · rw [hp.findCurrent_of_ne hs hk] at hm
      exact h m hm
  have hopen : ∀ {s s' : Store} {rootKey owner g}, Opened s rootKey owner g s' → s.Automatic key →
      s'.Automatic key := fun h ha m hm => ha m ((h.findCurrent key).symm.trans hm)
  exact
    { evidence := fun _ h he m hm => h m ((findCurrent_congr he.members key).symm.trans hm)
      mapping := fun _ h hm m hm' => h m ((findCurrent_congr hm.members key).symm.trans hm')
      ended := fun _ h _ _ => h
      ensured := fun hs h _ _ hens => hens.preserves hs hopen hplaced h
      adopted := fun hs h _ hrow hn hno hens => hens.preserves
        (hs.relate hrow.active (hrow.child ▸ hn) (hrow.child ▸ hrow.parent ▸ hno)) hopen hplaced h
      housed := fun _ h _ hh m hm => by
        cases hh with
        | already => exact h m hm
        | alone g identity s₁ hn hopened =>
          rw [findCurrent_join rfl ((hopened.findCurrent _).trans hn), automaticRow_key, hopened.findCurrent] at hm
          split at hm
          · obtain rfl := Option.some.inj hm
            rfl
          · exact h m hm }

end Stable

/-! ## Descendants -/

/-- The child of an active relation, placed by the reconciler. -/
def AutomaticChild (s : Store) (child parent : Key) : Prop :=
  (∃ r ∈ s.relations, r.isActive = true ∧ r.childThreadCanonicalKey = child ∧ r.parentThreadCanonicalKey = parent) ∧
    ∃ m, s.findCurrent child = some m ∧ m.provenance = .reconciler

/-- The automatic descendants of a key: the keys from which a chain of automatic children climbs to it. -/
abbrev AutomaticDescendant (s : Store) (key descendant : Key) : Prop :=
  Relation.TransGen (AutomaticChild s) descendant key

section Descendants

variable {s s' : Store}

/-- Automatic descendants of a member are in its group. -/
theorem Lineage.descendants (h : Lineage s) {key d : Key} {m : MemberRow} (hm : s.findCurrent key = some m)
    (hd : AutomaticDescendant s key d) : s.InGroup d m.groupId := by
  have hstep : ∀ {child parent g}, AutomaticChild s child parent → s.InGroup parent g → s.InGroup child g := by
    rintro child parent g ⟨⟨r, hr, ha, rfl, rfl⟩, mc, hmc, hprov⟩ ⟨mp, hmp, hg⟩
    exact ⟨mc, hmc, (h.cohesive r hr ha mc mp hmc hprov hmp).trans hg⟩
  induction hd using Relation.TransGen.head_induction_on with
  | single hc => exact hstep hc ⟨m, hm, rfl⟩
  | head hc _ ih => exact hstep hc ih

/-- Descendants stay descendants where no relation goes away and nobody becomes an operator's. -/
theorem AutomaticDescendant.mono (hrel : ∀ r ∈ s.relations, r.isActive = true → r ∈ s'.relations) (h' : Lineage s')
    (hauto : ∀ k, s.Automatic k → s'.Automatic k) {key d : Key} (hd : AutomaticDescendant s key d) :
    AutomaticDescendant s' key d := by
  refine Relation.TransGen.mono ?_ _ _ hd
  rintro child parent ⟨⟨r, hr, ha, rfl, rfl⟩, m, hm, hprov⟩
  have hr' := hrel r hr ha
  obtain ⟨m', hm'⟩ := (h'.kin r hr' ha).child
  refine ⟨⟨r, hr', ha, rfl, rfl⟩, m', hm', hauto _ (fun m₁ h₁ => ?_) m' hm'⟩
  obtain rfl := Option.some.inj (hm.symm.trans h₁)
  exact hprov

variable [KeyHash]

/-- Adopting a parent keeps every active relation, or moves nobody. -/
theorem Adopts.keeps_or_stays {threadId : Nat} {key : Key} {subject : ObservedEndpoint}
    {offers : List OfferedCandidate} {owner : Int} (h : Adopts threadId key subject offers owner s s') (hs : Sound s) :
    (∀ r ∈ s.relations, r.isActive = true → r ∈ s'.relations) ∨
      (s.findActiveByChild key).isSome = true ∧ ∀ k, s'.findCurrent k = s.findCurrent k := by
  rcases h.by_choice hs.forest with ⟨-, hev⟩ | ⟨-, hev⟩ | ⟨winner, offer, out, s₁, hc, -, happ, hev⟩
  · exact .inl fun r hr _ => hev.relations.symm ▸ hr
  · cases hex : s.findActiveByChild key with
    | none =>
      refine .inl fun r hr _ => hev.relations.symm ▸ ?_
      simpa [Store.retracted, hex] using hr
    | some existing =>
      refine .inr ⟨rfl, fun k => (findCurrent_congr hev.members k).trans ?_⟩
      simp [Store.retracted, hex, Store.endRelation, Store.findCurrent]
  · cases happ with
    | same _ _ _ _ hens =>
      exact .inl fun r hr _ => hev.relations.symm ▸ (hens.reassigning hs).2.1.relations.symm ▸ hr
    | conflicting existing _ hex _ hev' =>
      exact .inr ⟨Option.isSome_iff_exists.2 ⟨existing, hex⟩, fun k =>
        (findCurrent_congr hev.members k).trans (findCurrent_congr hev'.members k)⟩
    | adopted pi ci selection s₂ _ hn _ hens hev' =>
      obtain ⟨-, hno⟩ := hs.forest.choose_eq_parent.1 hc
      have hreg := (hens.reassigning (hs.relate rfl hn hno)).2.1
      exact .inl fun r hr _ => hev.relations.symm ▸ hev'.relations.symm ▸ hreg.relations.symm ▸ List.mem_append_left _ hr

theorem Reconciles.keeps_or_stays {threadId : Nat} {subject : ObservedEndpoint} {observations : List ObservationInput}
    {owner : Int} (ho : Reconciles threadId subject observations owner s s') (hs : Sound s) (h : Lineage s) :
    (∀ r ∈ s.relations, r.isActive = true → r ∈ s'.relations) ∨ ∀ k, s'.findCurrent k = s.findCurrent k := by
  cases ho with
  | evidence _ _ hev => exact .inl fun r hr _ => hev.relations.symm ▸ hr
  | subject identity key ids s₁ s₂ s₃ _ _ hassigned hev _ hadopts hhoused =>
    have hs₂ := (hassigned.mapping.tables hs).evidence hev
    have hrel : s₂.relations = s.relations := hev.relations.trans hassigned.mapping.relations
    have hmem : ∀ k, s₂.findCurrent k = s.findCurrent k :=
      findCurrent_congr (hev.members.trans hassigned.mapping.members)
    rcases hadopts.keeps_or_stays hs₂ with hkeep | ⟨hsome, hstay⟩
    · exact .inl fun r hr ha => hhoused.regroups.relations.symm ▸ hkeep r (hrel.symm ▸ hr) ha
    · -- The child of the retracted relation is a member, so it gets no group of its own.
      refine .inr fun k => ?_
      obtain ⟨r, hr⟩ := Option.isSome_iff_exists.1 hsome
      obtain ⟨hr', ha, hc⟩ := findActiveByChild_mem hr
      obtain ⟨m, hm⟩ := (h.kin r (hrel ▸ hr') ha).child
      have hm₃ : s₃.findCurrent key = some m := (hstay key).trans ((hmem key).trans (hc ▸ hm))
      cases hhoused with
      | already => exact (hstay k).trans (hmem k)
      | alone _ _ _ hn => simp [hm₃] at hn

theorem Discovers.keeps_or_stays {observationId : Nat} (ho : Discovers observationId s s') (hs : Sound s) :
    (∀ r ∈ s.relations, r.isActive = true → r ∈ s'.relations) ∨ ∀ k, s'.findCurrent k = s.findCurrent k := by
  cases ho with
  | nothing => exact .inr fun _ => rfl
  | adopts _ _ _ late _ _ _ _ _ hadopts => exact (hadopts.keeps_or_stays hs).imp_right And.right

variable [PurgeDigest]

/-- An automatic step keeps every active relation, or moves nobody. -/
theorem Action.keeps_or_stays (hs : Sound s) (h : Lineage s) {a : Action} (hauto : a.automatic = true) :
    (∀ r ∈ s.relations, r.isActive = true → r ∈ (a.exec s).relations) ∨
      ∀ k, (a.exec s).findCurrent k = s.findCurrent k := by
  rcases a.exec_cases hs with he | ho
  · exact .inr fun _ => by rw [he]
  cases a with
  | reconcile => exact Reconciles.keeps_or_stays ho hs h
  | late => exact Discovers.keeps_or_stays ho hs
  | _ => simp [Action.automatic] at hauto

theorem Action.stable_automatic {I : Store → Prop} (hI : Stable I) (hs : Sound s) {a : Action}
    (hauto : a.automatic = true) (hi : I s) : I (a.exec s) := by
  rcases a.exec_cases hs with he | ho
  · exact he.symm ▸ hi
  cases a with
  | reconcile => exact Reconciles.stable hI ho hs hi
  | late => exact Discovers.stable hI ho hs hi
  | _ => simp [Action.automatic] at hauto

end Descendants

end MemoryStore.ThreadGroup
