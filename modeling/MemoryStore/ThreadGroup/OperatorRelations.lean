/-
Relations an operator adopted, under automation. Late discovery leaves a
subject with such a relation alone; the subject's own transaction does not look
who adopted the incumbent, and retracts it when the evidence it is given ties
or selects another parent or type. Those are the only steps that touch it.
-/
import MemoryStore.ThreadGroup.Forecast
import MemoryStore.ThreadGroup.Scenario

namespace MemoryStore.ThreadGroup

open Tx Table Forest

/-! ## Relation ids -/

/-- Relation ids are distinct, and none is still to be drawn. -/
structure RelationIds (s : Store) : Prop where
  unique : UniqueWhere (fun _ => true) RelationRow.id s.relations
  fresh : ∀ r ∈ s.relations, r.id < s.nextId

theorem RelationIds.empty : RelationIds Store.empty := ⟨UniqueWhere.nil, by simp [Store.empty]⟩

section Ids

variable {s s' : Store}

theorem RelationIds.congr (h : RelationIds s) (hr : s'.relations = s.relations) (hn : s.nextId ≤ s'.nextId) :
    RelationIds s' :=
  ⟨hr ▸ h.unique, fun r hr' => lt_of_lt_of_le (h.fresh r (hr ▸ hr')) hn⟩

theorem RelationIds.sublist (h : RelationIds s) (hr : s'.relations.Sublist s.relations) (hn : s.nextId ≤ s'.nextId) :
    RelationIds s' where
  unique := List.Nodup.sublist ((hr.filter _).map _) h.unique
  fresh r hr' := lt_of_lt_of_le (h.fresh r (hr.subset hr')) hn

/-- An update of relations that keeps their ids. -/
theorem RelationIds.modify (h : RelationIds s) {q : RelationRow → Bool} {f : RelationRow → RelationRow}
    (hf : ∀ r, (f r).id = r.id) : RelationIds { s with relations := modifyWhere q f s.relations } where
  unique := h.unique.modifyWhere fun r _ _ _ => ⟨rfl, hf r⟩
  fresh r hr := by
    obtain ⟨r', hr', rfl⟩ := mem_modifyWhere.1 hr
    split
    · exact hf r' ▸ h.fresh r' hr'
    · exact h.fresh r' hr'

theorem RelationIds.relate (h : RelationIds s) {row : RelationRow} (hid : row.id = s.nextId) :
    RelationIds (s.relate row) where
  unique := h.unique.append fun _ r hr _ he => by
    have := h.fresh r hr
    omega
  fresh r hr := by
    rcases List.mem_append.1 hr with hr | hr
    · exact Nat.lt_succ_of_lt (h.fresh r hr)
    · obtain rfl := List.mem_singleton.1 hr
      exact hid ▸ Nat.lt_succ_self _

theorem RelationIds.deleted (h : RelationIds s) (threadId : Nat) (key : Option Key) (now : Int) :
    RelationIds (s.deleted threadId key now) :=
  ((h.modify (q := fun r => r.parentThreadId = some threadId) (f := fun r => { r with parentThreadId := none })
    fun _ => rfl).modify (q := fun r => r.childThreadId = some threadId)
    (f := fun r => { r with childThreadId := none }) fun _ => rfl).congr rfl le_rfl

theorem RelationIds.revived (h : RelationIds s) (key : Key) (threadId : Nat) : RelationIds (s.revived key threadId) :=
  ((h.modify (q := fun r => r.parentThreadCanonicalKey = key && r.parentThreadId = none)
    (f := fun r => { r with parentThreadId := some threadId }) fun _ => rfl).modify
    (q := fun r => r.childThreadCanonicalKey = key && r.childThreadId = none)
    (f := fun r => { r with childThreadId := some threadId }) fun _ => rfl).congr rfl le_rfl

theorem Deletes.relationIds {keyOf : Nat → Option Key} {now : Int} (h : Deletes keyOf now s s') (hi : RelationIds s) :
    RelationIds s' := by
  induction h with
  | done => exact hi
  | next threadId _ _ _ h _ ih => exact ih ((hi.deleted threadId _ now).congr h.relations h.nextId.ge)

theorem Batches.relationIds (h : Batches s s') (hi : RelationIds s) : RelationIds s' := by
  cases h with
  | maps _ h => exact hi.congr h.relations h.keeps.nextId
  | revives key threadId _ s₁ _ h₁ _ _ h₂ =>
    exact ((hi.congr h₁.relations h₁.keeps.nextId).revived key threadId).congr h₂.relations h₂.keeps.nextId

variable [KeyHash]

theorem relationIds_stable : Stable RelationIds where
  evidence _ h he := h.congr he.relations he.nextId
  mapping _ h hm := h.congr hm.relations hm.keeps.nextId
  ended _ h _ _ := h.modify fun _ => rfl
  ensured hs h _ _ hens := h.congr (hens.reassigning hs).2.1.relations (hens.reassigning hs).2.1.nextId
  adopted hs h _ hrow hn hno hens := by
    have hreg := (hens.reassigning (hs.relate hrow.active (hrow.child ▸ hn) (hrow.child ▸ hrow.parent ▸ hno))).2.1
    exact (h.relate hrow.id).congr hreg.relations hreg.nextId
  housed _ h _ hh := h.congr hh.regroups.relations hh.regroups.nextId

theorem Action.exec_relationIds [PurgeDigest] (hs : Sound s) (h : RelationIds s) (a : Action) :
    RelationIds (a.exec s) := by
  rcases a.exec_cases hs with he | ho
  · exact he.symm ▸ h
  · cases a with
    | reconcile => exact Reconciles.stable relationIds_stable ho hs h
    | late => exact Discovers.stable relationIds_stable ho hs h
    | decide => exact Decides.stable relationIds_stable ho hs h
    | createThread => exact h.congr (MappingOnly.relations ho) (MappingOnly.keeps ho).nextId
    | ensureKey => exact h.congr (MappingOnly.relations ho) (MappingOnly.keeps ho).nextId
    | batch => exact Batches.relationIds ho h
    | delete => exact Deletes.relationIds ho h
    | merge => exact h.congr (OperatorStep.keeps ho).relations (OperatorStep.keeps ho).nextId
    | split => exact h.congr (OperatorStep.keeps ho).relations (OperatorStep.keeps ho).nextId
    | attach => exact h.congr (OperatorStep.keeps ho).relations (OperatorStep.keeps ho).nextId
    | purge => exact h.sublist (Purges.relations ho) (Purges.nextId ho).ge

end Ids

/-! ## What a choice does to an active relation -/

/-- Whether a choice for the child of an active relation speaks against the relation. -/
def Choice.contradicts (r : RelationRow) : Choice → Bool
  | .nothing => false
  | .tie => true
  | .parent winner => !(r.parentThreadCanonicalKey = winner.parentKey && r.relationType = winner.relationType)

section Choices

variable {s s' : Store} {r : RelationRow} {key : Key}

theorem findActiveByChild_retracted_self (hf : RelationForest s) (key : Key) :
    (s.retracted key).findActiveByChild key = none := by
  unfold Store.retracted
  split
  · next hn => exact hn
  · next existing hex =>
    rw [hf.findActiveByChild_endRelation _ (by decide), hex]
    simp [Option.filter]

/-- Ending the relation of one child leaves the relation of another. -/
theorem findActiveByChild_endRelation_of_ne (hf : RelationForest s) (hids : RelationIds s) {existing : RelationRow}
    (hex : s.findActiveByChild key = some existing) {k : Key} (hk : k ≠ key) {state : RelationState}
    (hstate : state ≠ .active) : (s.endRelation existing.id state).findActiveByChild k = s.findActiveByChild k := by
  rw [hf.findActiveByChild_endRelation _ hstate]
  cases hr : s.findActiveByChild k with
  | none => rfl
  | some r =>
    have hne : r.id ≠ existing.id := by
      intro he
      obtain ⟨hm, -, hc⟩ := findActiveByChild_mem hr
      obtain ⟨hm', -, hc'⟩ := findActiveByChild_mem hex
      obtain rfl := hids.unique.eq hm rfl hm' rfl he
      exact hk (hc.symm.trans hc')
    simp [Option.filter, hne]

theorem findActiveByChild_retracted_of_ne (hf : RelationForest s) (hids : RelationIds s) {k : Key} (hk : k ≠ key) :
    (s.retracted key).findActiveByChild k = s.findActiveByChild k := by
  unfold Store.retracted
  split
  · rfl
  · next existing hex => exact findActiveByChild_endRelation_of_ne hf hids hex hk (by decide)

variable [KeyHash] {threadId : Nat} {subject : ObservedEndpoint} {offers : List OfferedCandidate} {owner : Int}

/-- **What adopting a parent leaves of an active relation.** The relations of other children stay.
The one of the child itself stays if the choice does not speak against it, and is ended if it does. -/
theorem Adopts.active_relation (h : Adopts threadId key subject offers owner s s') (hs : Sound s)
    (hids : RelationIds s) (hr : s.findActiveByChild r.childThreadCanonicalKey = some r) :
    s'.findActiveByChild r.childThreadCanonicalKey =
      if r.childThreadCanonicalKey = key ∧
        (s.choose key (offers.map OfferedCandidate.candidate)).contradicts r = true then none else some r := by
  rcases h.by_choice hs.forest with ⟨hc, hev⟩ | ⟨hc, hev⟩ | ⟨winner, offer, out, s₁, hc, -, happ, hev⟩
  · rw [findActiveByChild_congr hev.relations, hr, hc]
    simp [Choice.contradicts]
  · rw [findActiveByChild_congr hev.relations, hc]
    by_cases hk : r.childThreadCanonicalKey = key
    · rw [if_pos ⟨hk, rfl⟩, hk, findActiveByChild_retracted_self hs.forest]
    · rw [if_neg fun h => hk h.1, findActiveByChild_retracted_of_ne hs.forest hids hk, hr]
  · rw [findActiveByChild_congr hev.relations, hc]
    cases happ with
    | same existing _ hex hsame hens =>
      rw [findActiveByChild_congr (hens.reassigning hs).2.1.relations, hr]
      by_cases hk : r.childThreadCanonicalKey = key
      · obtain rfl : r = existing := Option.some.inj ((hk ▸ hr).symm.trans hex)
        simp [Choice.contradicts, hsame.1, hsame.2]
      · rw [if_neg fun h => hk h.1]
    | conflicting existing _ hex hother hev' =>
      rw [findActiveByChild_congr hev'.relations]
      by_cases hk : r.childThreadCanonicalKey = key
      · obtain rfl : r = existing := Option.some.inj ((hk ▸ hr).symm.trans hex)
        rw [if_pos ⟨hk, by simpa [Choice.contradicts, imp_iff_not_or] using hother⟩,
          hs.forest.findActiveByChild_endRelation _ (by decide), hr]
        simp [Option.filter]
      · rw [if_neg fun h => hk h.1, findActiveByChild_endRelation_of_ne hs.forest hids hex hk (by decide), hr]
    | adopted pi ci selection s₂ _ hn _ hens hev' =>
      have hk : r.childThreadCanonicalKey ≠ key := by
        rintro hk
        rw [hk] at hr
        exact absurd (hr.symm.trans hn) (by simp)
      obtain ⟨-, hno⟩ := hs.forest.choose_eq_parent.1 hc
      have hreg := (hens.reassigning (hs.relate rfl hn hno)).2.1
      rw [if_neg fun h => hk h.1, findActiveByChild_congr hev'.relations, findActiveByChild_congr hreg.relations,
        findActiveByChild_relate rfl hn]
      exact (if_neg hk).trans hr

end Choices

/-! ## Steps and runs -/

section Steps

variable [KeyHash]

/-- Whether an action's choice speaks against a relation: only the subject's transaction makes one
that an operator's relation is exposed to. -/
def Action.contradicts (s : Store) (r : RelationRow) : Action → Bool
  | .reconcile threadId subject observations .. =>
    match subject.key? with
    | none => false
    | some identity => r.childThreadCanonicalKey = s.subjectKey threadId identity &&
        (s.forecast threadId identity observations).contradicts r
  | _ => false

theorem Reconciles.active_relation {s s' : Store} {threadId : Nat} {subject : ObservedEndpoint}
    {observations : List ObservationInput} {owner : Int} {operationId : String} {now : Int} {importGuard : Bool}
    (h : Reconciles threadId subject observations owner s s') (hs : Sound s) (hids : RelationIds s) {r : RelationRow}
    (hr : s.findActiveByChild r.childThreadCanonicalKey = some r) :
    s'.findActiveByChild r.childThreadCanonicalKey =
      if (Action.reconcile threadId subject observations owner operationId now importGuard).contradicts s r = true
        then none else some r := by
  cases h with
  | evidence _ hk hev => simp [Action.contradicts, hk, findActiveByChild_congr hev.relations, hr]
  | subject identity key ids s₁ s₂ s₃ _ hk hassigned hev hids' hadopts hhoused =>
    obtain ⟨hkey, hs₁'⟩ := hassigned.eq
    have hs₁ := hassigned.mapping.tables hs
    have hrel : s₂.relations = s.relations := hev.relations.trans hassigned.mapping.relations
    have hids₂ : RelationIds s₂ := hids.congr hrel (hassigned.mapping.keeps.nextId.trans hev.nextId)
    have hr₂ := (findActiveByChild_congr hrel _).trans hr
    have hchoose := forecast_eq hassigned hev hids'
    rw [findActiveByChild_congr hhoused.regroups.relations, hadopts.active_relation (hs₁.evidence hev) hids₂ hr₂, hchoose, hkey]
    simp [Action.contradicts, hk]

theorem Discovers.active_relation {s s' : Store} {observationId : Nat} (h : Discovers observationId s s')
    (hs : Sound s) (hids : RelationIds s) {r : RelationRow}
    (hr : s.findActiveByChild r.childThreadCanonicalKey = some r) (hop : r.selection.byOperator = true) :
    s'.findActiveByChild r.childThreadCanonicalKey = some r := by
  cases h with
  | nothing => exact hr
  | adopts _ _ _ late _ _ _ _ hlate hadopts =>
    have hne : r.childThreadCanonicalKey ≠ late.key := by
      intro he
      have := (lateSubject_known hlate).1.automatic
      rw [← he, hr] at this
      simp [hop] at this
    rw [hadopts.active_relation hs hids hr, if_neg fun h => hne h.1]

variable [PurgeDigest]

/-- An automatic step that goes through ends an operator's relation exactly if it contradicts it. -/
theorem Action.operator_relation_iff {s : Store} (hs : Sound s) (hids : RelationIds s) {r : RelationRow}
    (hr : r ∈ s.relations) (ha : r.isActive = true) (hop : r.selection.byOperator = true) {a : Action}
    (hauto : a.automatic = true) (hok : a.error? s = none) :
    r ∈ (a.exec s).relations ↔ a.contradicts s r = false := by
  have hr' : s.findActiveByChild r.childThreadCanonicalKey = some r :=
    hs.forest.findActiveByChild_eq_some.2 ⟨hr, ha, rfl⟩
  have ho : a.Outcome s (a.exec s) := by
    have hspec := a.tx_spec hs
    unfold Action.error? at hok
    unfold Action.exec Tx.commit
    cases hrun : a.tx.2 s with
    | ok p => exact hspec.ok hrun
    | error e => simp [hrun] at hok
  have hf := (a.exec_sound hs).forest
  have hmem : r ∈ (a.exec s).relations ↔ (a.exec s).findActiveByChild r.childThreadCanonicalKey = some r := by
    rw [hf.findActiveByChild_eq_some]
    simp [ha]
  rw [hmem]
  cases a with
  | reconcile threadId subject observations owner operationId now importGuard =>
    have hactive : _ = if (Action.reconcile threadId subject observations owner operationId now importGuard).contradicts
      s r = true then none else some r := Reconciles.active_relation ho hs hids hr'
    rw [hactive]
    split
    · next hc => simp [hc]
    · next hc => simpa using hc
  | late => simp [Discovers.active_relation ho hs hids hr' hop, Action.contradicts]
  | _ => simp [Action.automatic] at hauto

theorem Action.keeps_operator_relation {s : Store} (hs : Sound s) (hids : RelationIds s) {r : RelationRow}
    (hr : r ∈ s.relations) (ha : r.isActive = true) (hop : r.selection.byOperator = true) {a : Action}
    (hauto : a.automatic = true) (hc : a.contradicts s r = false) : r ∈ (a.exec s).relations := by
  cases he : a.error? s with
  | none => exact (Action.operator_relation_iff hs hids hr ha hop hauto he).2 hc
  | some e =>
    unfold Action.error? at he
    unfold Action.exec Tx.commit
    cases hrun : a.tx.2 s with
    | ok p => simp [hrun] at he
    | error e => exact hr

theorem Reachable.relationIds {s : Store} (h : Reachable s) : RelationIds s := by
  have hs : Sound s ∧ RelationIds s := Run.Reaches.invariant (I := fun s => Sound s ∧ RelationIds s)
    (fun s a hs _ => ⟨a.exec_sound hs.1, a.exec_relationIds hs.1 hs.2⟩) h ⟨Sound.empty, RelationIds.empty⟩
  exact hs.2

end Steps

end MemoryStore.ThreadGroup
