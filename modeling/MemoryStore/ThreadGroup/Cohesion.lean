/-
Cohesion over runs. Placing a subject restores it (`Ensured.lineage`), so every
transaction of the reconciler keeps it; so do the operator's regroupings, which
take whole groups, and deletes and revivals, which move nobody.
-/
import MemoryStore.ThreadGroup.Lineage

namespace MemoryStore.ThreadGroup

open Tx Table Forest

section Frames

variable {s s' : Store}

/-- A store whose active relations, members and keys are among those of another. -/
theorem Lineage.congr (h : Lineage s) (hr : ∀ r ∈ s'.relations, r.isActive = true → r ∈ s.relations)
    (hm : ∀ k, s'.findCurrent k = s.findCurrent k) (hk : s.canonicalKeys ⊆ s'.canonicalKeys) (hkeys : KeysSound s') :
    Lineage s' where
  keys := hkeys
  childKey r hr' ha t ht := by
    obtain ⟨row, hrow, hrk⟩ := h.childKey r (hr r hr' ha) ha t ht
    exact ⟨row, hk hrow, hrk⟩
  kin r hr' ha := by
    have := h.kin r (hr r hr' ha) ha
    exact ⟨by simpa only [hm] using this.child, by simpa only [hm] using this.detached,
      by simpa only [hm] using this.parent⟩
  cohesive r hr' ha := by simpa only [Cohesive, hm] using h.cohesive r (hr r hr' ha) ha

theorem findCurrent_congr (h : s'.members = s.members) (k : Key) : s'.findCurrent k = s.findCurrent k := by
  unfold Store.findCurrent
  rw [h]

theorem KeysSound.congr (h : KeysSound s) (he : s'.canonicalKeys = s.canonicalKeys) : KeysSound s' :=
  ⟨he ▸ h.thread, he ▸ h.key⟩

theorem RegroupOnly.canonicalKeys (h : RegroupOnly s s') : s'.canonicalKeys = s.canonicalKeys :=
  h.read Store.canonicalKeys fun _ => rfl

end Frames

/-! ## Placing a subject -/

/-- Everything about a relation but, for the relation of one child, what placing the child restores. -/
structure LineageBut (key : Key) (s : Store) : Prop where
  others : ∀ r ∈ s.relations, r.isActive = true → r.childThreadCanonicalKey ≠ key → Kin s r ∧ Cohesive s r
  detached : ∀ r ∈ s.relations, r.isActive = true → r.childThreadCanonicalKey = key → r.childThreadId = none →
    ∃ m, s.findCurrent key = some m ∧ m.state.isActive = false

section Placement

variable [KeyHash] {s s' : Store}

/-- Resolving the anchor of a parent whose thread is known leaves the parent in the anchor's group. -/
theorem Anchored.lineage {parentThreadId : Option Nat} {key parentKey : Key} {parent : ObservedEndpoint}
    {owner : Option Int} {g : Nat} {anchor : Key} (h : Anchored parentThreadId parentKey parent owner s g anchor s')
    (hs : Sound s) (hbut : LineageBut key s) (hup : s.activeParent key = some parentKey)
    (hp : parentThreadId.isSome = true) :
    s'.InGroup parentKey g ∧ s'.findCurrent key = s.findCurrent key ∧
      ∀ r ∈ s.relations, r.isActive = true → r.childThreadCanonicalKey ≠ key → Kin s' r ∧ Cohesive s' r := by
  have hne : parentKey ≠ key := fun he => hs.forest.acyclic key (.single (he ▸ hup))
  -- A parent that is no member has no relation of its own.
  have hroot : s.findCurrent parentKey = none → s.activeParent parentKey = none := by
    intro hn
    cases hpp : s.activeParent parentKey with
    | none => rfl
    | some q =>
      obtain ⟨r, hr, -⟩ := activeParent_eq_some.1 hpp
      obtain ⟨hmem, hact, hchild⟩ := findActiveByChild_mem hr
      obtain ⟨m, hm⟩ := (hbut.others r hmem hact (hchild ▸ hne)).1.child
      rw [hchild, hn] at hm
      simp at hm
  cases h with
  | member _ m hc hm hfirst =>
    have hanchor : anchor = parentKey := by
      rcases hfirst parentKey .refl with hn | hback
      · exact (climbs_of_none (hroot hn) hc).symm
      · rcases Relation.reflTransGen_iff_eq_or_transGen.1 hc with he | hd
        · exact he
        · exact absurd (hd.trans_left hback) (hs.forest.acyclic parentKey)
    exact ⟨⟨m, hanchor ▸ hm, rfl⟩, rfl, hbut.others⟩
  | root _ threadId endpoint _ s₁ _ hr hnone horigin hopen hplaced =>
    have hn : s.findCurrent parentKey = none := hnone parentKey .refl
    have hanchor : anchor = parentKey := (climbs_of_none (hroot hn) hr.1).symm
    subst hanchor
    obtain ⟨-, horigin⟩ : s.activeParent anchor = none ∧ (anchor, threadId, endpoint) = (anchor, parentThreadId, parent) := by
      rcases horigin with h | ⟨hsome, -⟩
      · exact h
      · exact absurd (hroot hn) hsome
    obtain ⟨rfl, rfl⟩ := Prod.mk.inj (Prod.mk.inj horigin).2
    have hn₁ : s₁.findCurrent anchor = none := (hopen.findCurrent anchor).trans hn
    have hplacing : Placing anchor g s₁ s' := hplaced.placing (hopen.memberships hs.memberships)
      (fun m hm => by simp [hn₁] at hm) fun hnone' => by simp [hnone'] at hp
    refine ⟨hplacing.inGroup, (hplacing.other key hne.symm).trans (hopen.findCurrent key), fun r hr ha hc => ?_⟩
    have hsame : ∀ {r}, Kin s r ∧ Cohesive s r → Kin s₁ r ∧ Cohesive s₁ r := fun ⟨hk, hcoh⟩ =>
      ⟨⟨by simpa only [hopen.findCurrent] using hk.child, by simpa only [hopen.findCurrent] using hk.detached,
        by simpa only [hopen.findCurrent] using hk.parent⟩, by simpa only [Cohesive, hopen.findCurrent] using hcoh⟩
    obtain ⟨hk, hcoh⟩ := hsame (hbut.others r hr ha hc)
    exact ⟨hplacing.kin hk, hplacing.cohesive_new hn₁ hk hcoh⟩

/-- **Placing a subject restores cohesion**, its own and its descendants'. -/
theorem Ensured.lineage {e : Edge} (h : Ensured e s s') (hs : Sound s) (hknown : e.Known s)
    (hup : s.activeParent e.subjectKey = some e.parentKey) (hbut : LineageBut e.subjectKey s) :
    ∀ r ∈ s.relations, r.isActive = true → Kin s' r ∧ Cohesive s' r := by
  have hne : e.parentKey ≠ e.subjectKey := fun he => hs.forest.acyclic e.subjectKey (.single (he ▸ hup))
  obtain ⟨r₀, hr₀, hparent₀⟩ := activeParent_eq_some.1 hup
  have huniq : ∀ r ∈ s.relations, r.isActive = true → r.childThreadCanonicalKey = e.subjectKey → r = r₀ :=
    fun r hr ha hc => by
      have := hs.forest.findActiveByChild_eq_some.2 ⟨hr, ha, hc⟩
      exact Option.some.inj (this.symm.trans hr₀)
  have hspec := h.rule (I := Cohering s) (Cohering.reassigns s hs.forest) hs.memberships hs.forest
    fun hauto target anchor s₁ s₂ ha hre hp => ?_
  · rcases hspec with ⟨rfl, m, hm, hop⟩ | ⟨target, ⟨enqueued, hi⟩, -⟩
    · intro r hr ha
      by_cases hc : r.childThreadCanonicalKey = e.subjectKey
      · have hm' : s'.findCurrent r.childThreadCanonicalKey = some m := hc ▸ hm
        refine ⟨⟨⟨m, hm'⟩, fun hnone m₁ h₁ => ?_, .inr ⟨m, hm', hop⟩⟩, cohesive_of_operator hm' hop⟩
        obtain ⟨m₂, h₂, hin⟩ := hbut.detached r hr ha hc hnone
        obtain rfl := Option.some.inj (h₁.symm.trans (hc ▸ h₂))
        exact hin
      · exact hbut.others r hr ha hc
    · intro r hr ha
      refine ⟨hi.kin r hr ha, ?_⟩
      rcases hi.cohesive r hr ha with hq | ht | hc
      · simp at hq
      · simp at ht
      · exact hc
  · obtain ⟨hin, hsame, hothers⟩ := ha.lineage hs hbut hup hknown.parent
    have hplacing : Placing e.subjectKey target s₁ s₂ := hp.placing hre.memberships
      (fun m hm => hauto m (hsame ▸ hm)) fun hnone => by simp at hnone
    have hin₂ := hplacing.inGroup_of hin
    have hkin : ∀ r ∈ s.relations, r.isActive = true → Kin s₂ r := by
      intro r hr ha'
      by_cases hc : r.childThreadCanonicalKey = e.subjectKey
      · obtain rfl := huniq r hr ha' hc
        obtain ⟨m', hm', -⟩ := hplacing.here
        obtain ⟨mp, hmp, -⟩ := hin₂
        refine ⟨⟨m', hc ▸ hm'⟩, fun hnone m₁ h₁ => ?_, .inl ⟨mp, hparent₀ ▸ hmp⟩⟩
        obtain ⟨m₂, h₂, hin⟩ := hbut.detached r hr ha' hc hnone
        exact hplacing.inactive m₂ (hsame.trans h₂) hin m₁ (hc ▸ h₁)
      · exact hplacing.kin (hothers r hr ha' hc).1
    refine ⟨hre.keeps.trans hp.keeps, hkin, fun k hk => ?_, fun k hk => ?_, by simp, fun r hr ha' => ?_⟩
    · obtain rfl := List.mem_singleton.1 hk
      exact .inl hplacing.inGroup
    · obtain rfl := List.mem_singleton.1 hk
      exact ⟨hk, hplacing.inGroup⟩
    · by_cases hp' : r.parentThreadCanonicalKey = e.subjectKey
      · exact .inl (by simp [hp'])
      · refine .inr (.inr ?_)
        by_cases hc : r.childThreadCanonicalKey = e.subjectKey
        · obtain rfl := huniq r hr ha' hc
          exact cohesive_of_inGroup (hc ▸ hplacing.inGroup) (hparent₀ ▸ hin₂)
        · exact hplacing.cohesive_of_ne hc hp' (hothers r hr ha' hc).2

/-! ## The reconciler -/

/-- A subject that was no member gets a group of its own. -/
theorem Opened.housing {threadId : Nat} {key : Key} {subject : ObservedEndpoint} {owner : Option Int} {g : Nat}
    {identity : SourceTriple} (h : Opened s key owner g s') (hn : s.findCurrent key = none) :
    Placing key g s (s'.join (automaticRow key subject identity g key (.active threadId))) where
  other k hk := by
    rw [findCurrent_join rfl ((h.findCurrent key).trans hn), automaticRow_key, if_neg hk, h.findCurrent]
  automatic m hm := by simp [hn] at hm
  here := by
    refine ⟨automaticRow key subject identity g key (.active threadId), ?_, rfl, rfl⟩
    rw [findCurrent_join rfl ((h.findCurrent key).trans hn), automaticRow_key, if_pos rfl]
  inactive m hm := by simp [hn] at hm

/-- The lineage of a store that a placement ended in. -/
theorem Lineage.of_ensured {e : Edge} (hens : Ensured e s s') (hs : Sound s) (hknown : e.Known s)
    (hup : s.activeParent e.subjectKey = some e.parentKey) (hbut : LineageBut e.subjectKey s) (hkeys : KeysSound s)
    (hchild : ∀ r ∈ s.relations, r.isActive = true → ∀ t, r.childThreadId = some t →
      s.HasKey t r.childThreadCanonicalKey) : Lineage s' := by
  have hreg := (hens.reassigning hs).2.1
  have hall := hens.lineage hs hknown hup hbut
  exact ⟨hkeys.congr hreg.canonicalKeys, fun r hr ha t ht =>
      (hchild r (hreg.relations ▸ hr) ha t ht).congr hreg.canonicalKeys,
    fun r hr ha => (hall r (hreg.relations ▸ hr) ha).1, fun r hr ha => (hall r (hreg.relations ▸ hr) ha).2⟩

theorem lineage_stable : Stable Lineage where
  evidence _ h he := h.congr (fun r hr _ => he.relations ▸ hr) (findCurrent_congr he.members)
    (he.canonicalKeys ▸ List.Subset.refl _) (h.keys.congr he.canonicalKeys)
  mapping _ h hm := h.congr (fun r hr _ => hm.relations ▸ hr) (findCurrent_congr hm.members) hm.keys (hm.sound h.keys)
  ended {s state} _ h id hstate := h.congr (fun r hr ha => by
    obtain ⟨r', hr', rfl⟩ := mem_modifyWhere.1 hr
    split at ha
    · simp [isActive_ended hstate] at ha
    · next hq => rw [if_neg hq]; exact hr') (fun _ => rfl) (List.Subset.refl _) (h.keys.congr rfl)
  ensured hs h hknown hup hens := by
    refine .of_ensured hens hs hknown hup ⟨fun r hr ha _ => ⟨h.kin r hr ha, h.cohesive r hr ha⟩,
      fun r hr ha hc hnone => ?_⟩ h.keys h.childKey
    obtain ⟨m, hm⟩ := (h.kin r hr ha).child
    exact ⟨m, hc ▸ hm, (h.kin r hr ha).detached hnone m hm⟩
  adopted {s s' e row} hs h hknown hrow hn hno hens := by
    have hn' : s.findActiveByChild row.childThreadCanonicalKey = none := hrow.child ▸ hn
    have hs₁ : Sound (s.relate row) := hs.relate hrow.active hn' (hrow.child ▸ hrow.parent ▸ hno)
    have hup : (s.relate row).activeParent e.subjectKey = some e.parentKey :=
      activeParent_eq_some.2 ⟨row, by rw [findActiveByChild_relate hrow.active hn', if_pos hrow.child.symm], hrow.parent⟩
    have hmem : ∀ {r}, r ∈ (s.relate row).relations → r ∈ s.relations ∨ r = row := fun hr => by
      simpa [Store.relate] using hr
    refine .of_ensured hens hs₁ ⟨hknown.subject, hknown.parent⟩ hup ⟨fun r hr ha hc => ?_, fun r hr ha hc hnone => ?_⟩
      (h.keys.congr rfl) fun r hr ha t ht => ?_
    · rcases hmem hr with hr | rfl
      · exact ⟨⟨(h.kin r hr ha).child, (h.kin r hr ha).detached, (h.kin r hr ha).parent⟩, h.cohesive r hr ha⟩
      · exact absurd hrow.child hc
    · rcases hmem hr with hr | rfl
      · exact absurd hc (find?_eq_none.1 hn r hr ha)
      · simp [hrow.childThreadId] at hnone
    · rcases hmem hr with hr | rfl
      · exact h.childKey r hr ha t ht
      · obtain rfl : e.subjectThreadId = t := by simpa [hrow.childThreadId] using ht
        exact hrow.child ▸ hknown.subject
  housed {s s' threadId key subject owner} hs h _ hh := by
    have hreg := hh.regroups
    refine ⟨h.keys.congr hreg.canonicalKeys, fun r hr ha t ht =>
      (h.childKey r (hreg.relations ▸ hr) ha t ht).congr hreg.canonicalKeys, ?_, ?_⟩
    all_goals
      rw [hreg.relations]
      intro r hr ha
    · cases hh with
      | already => exact h.kin r hr ha
      | alone g identity s₁ hn hopen => exact (hopen.housing hn).kin (h.kin r hr ha)
    · cases hh with
      | already => exact h.cohesive r hr ha
      | alone g identity s₁ hn hopen => exact (hopen.housing hn).cohesive_new hn (h.kin r hr ha) (h.cohesive r hr ha)

end Placement

/-! ## Operators, batches and deletes -/

section Others

variable {s s' : Store}

/-- An operator takes whole groups, so a child it left alone is still with its parent. -/
theorem OperatorStep.lineage (ho : OperatorStep s s') (h : Lineage s) : Lineage s' := by
  obtain ⟨touched, htouched⟩ := ho.touched
  have hafter : ∀ k m, s.findCurrent k = some m → ∃ m', s'.findCurrent k = some m' ∧ m'.state = m.state ∧
      (m.provenance = .operator → m'.provenance = .operator) := by
    intro k m hm
    by_cases ht : touched m.groupId
    · obtain ⟨g, hg⟩ := (htouched k m hm).1 ht
      exact ⟨_, hg, rfl, fun _ => rfl⟩
    · exact ⟨m, (htouched k m hm).2 ht, rfl, id⟩
  refine ⟨h.keys.congr ho.keeps.canonicalKeys, fun r hr ha t ht =>
    (h.childKey r (ho.keeps.relations ▸ hr) ha t ht).congr ho.keeps.canonicalKeys, ?_, ?_⟩
  all_goals
    rw [ho.keeps.relations]
    intro r hr ha
    have hk := h.kin r hr ha
    obtain ⟨m, hm⟩ := hk.child
  · obtain ⟨m', hm', hst, -⟩ := hafter _ m hm
    refine ⟨⟨m', hm'⟩, fun hnone m₁ h₁ => ?_, ?_⟩
    · obtain rfl := Option.some.inj (hm'.symm.trans h₁)
      exact hst ▸ hk.detached hnone m hm
    · rcases hk.parent with ⟨mp, hmp⟩ | ⟨mo, hmo, hop⟩
      · obtain ⟨mp', hmp', -⟩ := hafter _ mp hmp
        exact .inl ⟨mp', hmp'⟩
      · obtain ⟨mo', hmo', -, hop'⟩ := hafter _ mo hmo
        exact .inr ⟨mo', hmo', hop' hop⟩
  · intro mc mp hmc hprov hmp
    have hnot : ¬ touched m.groupId := fun ht => by
      obtain ⟨g, hg⟩ := (htouched _ m hm).1 ht
      obtain rfl := Option.some.inj (hg.symm.trans hmc)
      simp at hprov
    obtain rfl := Option.some.inj (((htouched _ m hm).2 hnot).symm.trans hmc)
    rcases hk.parent with ⟨mq, hmq⟩ | ⟨mo, hmo, hop⟩
    · have hg := h.cohesive r hr ha m mq hm hprov hmq
      obtain rfl := Option.some.inj (((htouched _ mq hmq).2 (hg ▸ hnot)).symm.trans hmp)
      exact hg
    · obtain rfl := Option.some.inj (hm.symm.trans hmo)
      simp [hprov] at hop

/-- Members change their state only. -/
structure Restated (s s' : Store) (state : MemberRow → MemberState) : Prop where
  members : ∀ k, s'.findCurrent k = (s.findCurrent k).map fun m => { m with state := state m }

theorem Restated.kin {state : MemberRow → MemberState} (h : Restated s s' state) {r r' : RelationRow} (hk : Kin s r)
    (hchild : r'.childThreadCanonicalKey = r.childThreadCanonicalKey)
    (hparent : r'.parentThreadCanonicalKey = r.parentThreadCanonicalKey)
    (hdetached : r'.childThreadId = none → ∀ m, s.findCurrent r.childThreadCanonicalKey = some m →
      (state m).isActive = false) : Kin s' r' where
  child := by
    obtain ⟨m, hm⟩ := hk.child
    exact ⟨_, by rw [hchild, h.members, hm]; rfl⟩
  detached hnone m' hm' := by
    rw [hchild, h.members] at hm'
    obtain ⟨m, hm, rfl⟩ := Option.map_eq_some_iff.1 hm'
    exact hdetached hnone m hm
  parent := by
    rcases hk.parent with ⟨mp, hmp⟩ | ⟨mo, hmo, hop⟩
    · exact .inl ⟨_, by rw [hparent, h.members, hmp]; rfl⟩
    · exact .inr ⟨{ mo with state := state mo }, by rw [hchild, h.members, hmo]; rfl, hop⟩

theorem Restated.cohesive {state : MemberRow → MemberState} (h : Restated s s' state) {r r' : RelationRow}
    (hc : Cohesive s r) (hchild : r'.childThreadCanonicalKey = r.childThreadCanonicalKey)
    (hparent : r'.parentThreadCanonicalKey = r.parentThreadCanonicalKey) : Cohesive s' r' := by
  intro mc mp hmc hprov hmp
  rw [hchild, h.members] at hmc
  rw [hparent, h.members] at hmp
  obtain ⟨mc', hmc', rfl⟩ := Option.map_eq_some_iff.1 hmc
  obtain ⟨mp', hmp', rfl⟩ := Option.map_eq_some_iff.1 hmp
  exact hc mc' mp' hmc' hprov hmp'

theorem Memberships.restated (hs : Memberships s) {q : MemberRow → Bool} {f : MemberRow → MemberState}
    (hq : ∀ m, m.state.current = true → q m = true → (f m).current = true)
    (hq' : ∀ m, q m = true → m.state.current = true) :
    Restated s { s with members := modifyWhere q (fun m => { m with state := f m }) s.members }
      (fun m => if q m then f m else m.state) where
  members k := by
    rw [hs.findCurrent_modify (by exact fun m hm _ => ⟨hq' m hm, rfl⟩)]
    cases hm : s.findCurrent k with
    | none => rfl
    | some m =>
      have hcur : m.state.current = true := (findCurrent_mem hm).2.1
      by_cases hqm : q m = true
      · simp [hqm, MemberRow.current, hq m hcur hqm]
      · simp [hqm]

theorem Sound.revived_restated (hs : Sound s) (key : Key) (threadId : Nat) : Restated s (s.revived key threadId)
    (fun m => if m.threadCanonicalKey = key && m.state.isDeleted then .active threadId else m.state) :=
  ⟨(hs.memberships.restated (q := fun m => m.threadCanonicalKey = key && m.state.isDeleted)
    (f := fun _ => .active threadId) (fun _ _ _ => rfl) fun m hq => by
      cases hst : m.state <;> simp_all [MemberState.isDeleted, MemberState.current]).members⟩

theorem Sound.deleted_restated (hs : Sound s) (threadId : Nat) (key : Option Key) (now : Int) :
    Restated s (s.deleted threadId key now)
      (fun m => if some m.threadCanonicalKey = key && m.state.isActive then .deleted now else m.state) :=
  ⟨(hs.memberships.restated (q := fun m => some m.threadCanonicalKey = key && m.state.isActive)
    (f := fun _ => .deleted now) (fun _ _ _ => rfl) fun m hq => by
      cases hst : m.state <;> simp_all [MemberState.isActive, MemberState.current]).members⟩

/-- Reviving a key attaches its relations to the thread that has the key. -/
theorem Lineage.revived (h : Lineage s) (hs : Sound s) {key : Key} {threadId : Nat} (hkey : s.HasKey threadId key) :
    Lineage (s.revived key threadId) := by
  have hre := hs.revived_restated key threadId
  have hfrom : ∀ r' ∈ (s.revived key threadId).relations, ∃ r ∈ s.relations, r'.isActive = r.isActive ∧
      r'.childThreadCanonicalKey = r.childThreadCanonicalKey ∧
      r'.parentThreadCanonicalKey = r.parentThreadCanonicalKey ∧
      r'.childThreadId = (if r.childThreadCanonicalKey = key ∧ r.childThreadId = none then some threadId
        else r.childThreadId) := by
    intro r' hr'
    obtain ⟨r₁, hr₁, rfl⟩ := mem_modifyWhere.1 hr'
    obtain ⟨r, hr, rfl⟩ := mem_modifyWhere.1 hr₁
    refine ⟨r, hr, ?_⟩
    split <;> split <;> simp_all [RelationRow.isActive]
  refine ⟨h.keys.congr rfl, fun r' hr' ha t ht => ?_, fun r' hr' ha => ?_, fun r' hr' ha => ?_⟩
  all_goals obtain ⟨r, hr, hact, hchild, hparent, hthread⟩ := hfrom r' hr'
  · rw [hthread] at ht
    split at ht
    · next hc =>
      obtain rfl := Option.some.inj ht
      rw [hchild, hc.1]
      exact hkey
    · rw [hchild]
      exact h.childKey r hr (hact ▸ ha) t ht
  · refine hre.kin (h.kin r hr (hact ▸ ha)) hchild hparent fun hnone m hm => ?_
    rw [hthread] at hnone
    split at hnone
    · simp at hnone
    · next hc =>
      have hne : m.threadCanonicalKey ≠ key := fun he => hc ⟨(findCurrent_mem hm).2.2.symm.trans he, hnone⟩
      simpa [hne] using (h.kin r hr (hact ▸ ha)).detached hnone m hm
  · exact hre.cohesive (h.cohesive r hr (hact ▸ ha)) hchild hparent

/-- A delete detaches the relations of a thread, and makes a placeholder of the key it had. -/
theorem Lineage.deleted (h : Lineage s) (hs : Sound s) {threadId : Nat} {key : Option Key} {now : Int}
    (hkey : ∀ k, s.HasKey threadId k → key = some k) : Lineage (s.deleted threadId key now) := by
  have hre := hs.deleted_restated threadId key now
  have hfrom : ∀ r' ∈ (s.deleted threadId key now).relations, ∃ r ∈ s.relations, r'.isActive = r.isActive ∧
      r'.childThreadCanonicalKey = r.childThreadCanonicalKey ∧
      r'.parentThreadCanonicalKey = r.parentThreadCanonicalKey ∧
      r'.childThreadId = (if r.childThreadId = some threadId then none else r.childThreadId) := by
    intro r' hr'
    obtain ⟨r₁, hr₁, rfl⟩ := mem_modifyWhere.1 hr'
    obtain ⟨r, hr, rfl⟩ := mem_modifyWhere.1 hr₁
    refine ⟨r, hr, ?_⟩
    split <;> split <;> simp_all [RelationRow.isActive]
  refine ⟨⟨h.keys.thread.filter _, h.keys.key.filter _⟩, fun r' hr' ha t ht => ?_, fun r' hr' ha => ?_,
    fun r' hr' ha => ?_⟩
  all_goals obtain ⟨r, hr, hact, hchild, hparent, hthread⟩ := hfrom r' hr'
  · rw [hthread] at ht
    split at ht
    · simp at ht
    · next hne =>
      obtain ⟨row, hrow, hrt, hrk⟩ := h.childKey r hr (hact ▸ ha) t ht
      refine ⟨row, List.mem_filter.2 ⟨hrow, ?_⟩, hrt, hrk.trans hchild.symm⟩
      have : t ≠ threadId := fun he => hne (he ▸ ht)
      simpa [hrt] using this
  · have hk := h.kin r hr (hact ▸ ha)
    refine hre.kin hk hchild hparent fun hnone m hm => ?_
    rw [hthread] at hnone
    split at hnone
    · next he =>
      have : some m.threadCanonicalKey = key :=
        (congrArg some (findCurrent_mem hm).2.2).trans (hkey _ (h.childKey r hr (hact ▸ ha) _ he)).symm
      cases hst : m.state <;> simp [this, MemberState.isActive]
    · simp [hk.detached hnone m hm]
  · exact hre.cohesive (h.cohesive r hr (hact ▸ ha)) hchild hparent

theorem SameGraph.lineage (hg : SameGraph s s') (h : Lineage s) : Lineage s' :=
  h.congr (fun _ hr _ => hg.relations ▸ hr) (findCurrent_congr hg.members) (hg.canonicalKeys ▸ List.Subset.refl _)
    (h.keys.congr hg.canonicalKeys)

theorem Deletes.lineage {keyOf : Nat → Option Key} {now : Int} (hd : Deletes keyOf now s s') (hs : Sound s)
    (h : Lineage s) (hkeys : ∀ t k, s.HasKey t k → keyOf t = some k) : Lineage s' := by
  induction hd with
  | done => exact h
  | next threadId s s₁ s' hg _ ih =>
    refine ih (hg.sound (hs.deleted threadId (keyOf threadId) now))
      (hg.lineage (h.deleted hs fun k hk => hkeys threadId k hk)) fun t k hk => hkeys t k ?_
    obtain ⟨row, hrow, hr⟩ := hk
    rw [hg.canonicalKeys] at hrow
    exact ⟨row, (List.mem_filter.1 hrow).1, hr⟩

theorem MappingOnly.lineage (hm : MappingOnly s s') (h : Lineage s) : Lineage s' :=
  h.congr (fun _ hr _ => hm.relations ▸ hr) (findCurrent_congr hm.members) hm.keys (hm.sound h.keys)

theorem Batches.lineage (hb : Batches s s') (hs : Sound s) (h : Lineage s) : Lineage s' := by
  cases hb with
  | maps _ hm => exact hm.lineage h
  | revives key threadId row s₁ _ h₁ hkey hrow h₂ =>
    exact h₂.lineage ((h₁.lineage h).revived (h₁.tables hs) ⟨row, hkey, hrow⟩)

theorem KeysSound.keyOf_eq (h : KeysSound s) {threadId : Nat} {key : Key} (hk : s.HasKey threadId key) :
    s.keyOf threadId = some key := by
  obtain ⟨row, hrow, ht, rfl⟩ := hk
  simp [Store.keyOf, h.findKeyByThreadId_eq_some.2 ⟨hrow, ht⟩]

end Others

section Runs

variable [KeyHash] [PurgeDigest]

theorem Action.exec_lineage {s : Store} (hs : Sound s) (h : Lineage s) {a : Action} (hp : a.isPurge = false) :
    Lineage (a.exec s) := by
  rcases a.exec_cases hs with he | ho
  · exact he.symm ▸ h
  · cases a with
    | reconcile => exact Reconciles.stable lineage_stable ho hs h
    | late => exact Discovers.stable lineage_stable ho hs h
    | decide => exact Decides.stable lineage_stable ho hs h
    | createThread => exact MappingOnly.lineage ho h
    | ensureKey => exact MappingOnly.lineage ho h
    | batch => exact Batches.lineage ho hs h
    | delete => exact Deletes.lineage ho hs h fun t k hk => h.keys.keyOf_eq hk
    | merge => exact OperatorStep.lineage ho h
    | split => exact OperatorStep.lineage ho h
    | attach => exact OperatorStep.lineage ho h
    | purge => simp [Action.isPurge] at hp

/-- A delete takes keys away only. -/
theorem Deletes.keysSound {keyOf : Nat → Option Key} {now : Int} {s s' : Store} (h : Deletes keyOf now s s')
    (hk : KeysSound s) : KeysSound s' := by
  induction h with
  | done => exact hk
  | next threadId s s₁ _ h _ ih =>
    refine ih (KeysSound.congr (s := s.deleted threadId (keyOf threadId) now) ?_ h.canonicalKeys)
    exact ⟨hk.thread.filter _, hk.key.filter _⟩

theorem Batches.keysSound {s s' : Store} (h : Batches s s') (hk : KeysSound s) : KeysSound s' := by
  cases h with
  | maps _ hm => exact hm.sound hk
  | revives key threadId row s₁ _ h₁ _ _ h₂ => exact h₂.sound ((h₁.sound hk).congr rfl)

theorem keysSound_stable : Stable KeysSound where
  evidence _ h he := h.congr he.canonicalKeys
  mapping _ h hm := hm.sound h
  ended _ h _ _ := h.congr rfl
  ensured hs h _ _ hens := h.congr (RegroupOnly.canonicalKeys (hens.reassigning hs).2.1)
  adopted hs h _ hrow hn hno hens := by
    have hs' := hs.relate hrow.active (hrow.child ▸ hn) (hrow.child ▸ hrow.parent ▸ hno)
    exact h.congr (hens.reassigning hs').2.1.canonicalKeys
  housed _ h _ hh := h.congr (RegroupOnly.canonicalKeys hh.regroups)

theorem Action.exec_keysSound {s : Store} (hs : Sound s) (h : KeysSound s) (a : Action) : KeysSound (a.exec s) := by
  rcases a.exec_cases hs with he | ho
  · exact he.symm ▸ h
  · cases a with
    | reconcile => exact Reconciles.stable keysSound_stable ho hs h
    | late => exact Discovers.stable keysSound_stable ho hs h
    | decide => exact Decides.stable keysSound_stable ho hs h
    | createThread => exact MappingOnly.sound ho h
    | ensureKey => exact MappingOnly.sound ho h
    | batch => exact Batches.keysSound ho h
    | delete => exact Deletes.keysSound ho h
    | merge => exact h.congr (RegroupOnly.canonicalKeys (OperatorStep.keeps ho))
    | split => exact h.congr (RegroupOnly.canonicalKeys (OperatorStep.keeps ho))
    | attach => exact h.congr (RegroupOnly.canonicalKeys (OperatorStep.keeps ho))
    | purge => exact h.congr (Purges.canonicalKeys ho)

theorem Reachable.keysSound {s : Store} (h : Reachable s) : KeysSound s := by
  have hs : Sound s ∧ KeysSound s := Run.Reaches.invariant (I := fun s => Sound s ∧ KeysSound s)
    (fun s a hs _ => ⟨a.exec_sound hs.1, a.exec_keysSound hs.1 hs.2⟩) h
    ⟨Sound.empty, ⟨UniqueWhere.nil, UniqueWhere.nil⟩⟩
  exact hs.2

theorem Lineage.empty : Lineage Store.empty :=
  ⟨⟨UniqueWhere.nil, UniqueWhere.nil⟩, by simp [Store.empty], by simp [Store.empty], by simp [Store.empty]⟩

theorem lineage_of_unpurged {s : Store} (h : ReachesWhen (fun _ a => a.isPurge = false) Store.empty s) : Lineage s := by
  have hs : Sound s ∧ Lineage s := Run.Reaches.invariant (I := fun s => Sound s ∧ Lineage s)
    (fun s a hs hp => ⟨a.exec_sound hs.1, Action.exec_lineage hs.1 hs.2 hp⟩) h ⟨Sound.empty, Lineage.empty⟩
  exact hs.2

end Runs

end MemoryStore.ThreadGroup
