/-
Who owns what. Every table names owners next to canonical keys and thread ids:
threads, key rows, source identities, deletion markers, current members and
active relations. The owners agree when one owner for each key and one for each
thread fits all of these rows (`Owned`). Each writer copies an owner from some
row to another, so agreement is kept by every step that brings in no owner of
its own.
-/
import MemoryStore.ThreadGroup.Stability

namespace MemoryStore.ThreadGroup

open Tx Table Forest

/-- `thread_id` of a live row. -/
def MemberState.liveThread? : MemberState → Option Nat
  | .active threadId => some threadId
  | _ => none

section Rows

variable {named named' : Key → Int → Prop} {held held' : Nat → Int → Prop}

/-- The owner of a member is one of its key and of its live thread. -/
@[mk_iff]
structure MemberRow.Agrees (named : Key → Int → Prop) (held : Nat → Int → Prop) (m : MemberRow) : Prop where
  key : named m.threadCanonicalKey m.userId
  thread : ∀ threadId ∈ m.state.liveThread?, held threadId m.userId

/-- The owners of a relation are those of its endpoints. -/
@[mk_iff]
structure RelationRow.Agrees (named : Key → Int → Prop) (held : Nat → Int → Prop) (r : RelationRow) : Prop where
  parentKey : named r.parentThreadCanonicalKey r.parentUserId
  parentThread : ∀ threadId ∈ r.parentThreadId, held threadId r.parentUserId
  childKey : named r.childThreadCanonicalKey r.childUserId
  childThread : ∀ threadId ∈ r.childThreadId, held threadId r.childUserId

/-- Every owner a row gives to a key is one of `named`, and every owner it gives to a thread one of `held`. -/
@[mk_iff]
structure Agrees (named : Key → Int → Prop) (held : Nat → Int → Prop) (s : Store) : Prop where
  thread : ∀ row ∈ s.threads, held row.id row.userId
  key : ∀ row ∈ s.canonicalKeys, named row.key row.userId ∧ held row.threadId row.userId
  identity : ∀ row ∈ s.sourceIdentities, held row.threadId row.identity.userId
  marker : ∀ row ∈ s.markers, ∀ key ∈ row.threadCanonicalKey, named key row.identity.userId
  member : ∀ m ∈ s.members, m.current = true → m.Agrees named held
  relation : ∀ r ∈ s.relations, r.isActive = true → r.Agrees named held

instance [∀ k u, Decidable (named k u)] [∀ t u, Decidable (held t u)] (m : MemberRow) :
    Decidable (m.Agrees named held) := decidable_of_iff _ (MemberRow.agrees_iff named held m).symm

instance [∀ k u, Decidable (named k u)] [∀ t u, Decidable (held t u)] (r : RelationRow) :
    Decidable (r.Agrees named held) := decidable_of_iff _ (RelationRow.agrees_iff named held r).symm

instance [∀ k u, Decidable (named k u)] [∀ t u, Decidable (held t u)] (s : Store) :
    Decidable (Agrees named held s) := decidable_of_iff _ (agrees_iff named held s).symm

theorem MemberRow.Agrees.mono {m : MemberRow} (h : m.Agrees named held) (hn : ∀ k u, named k u → named' k u)
    (hh : ∀ t u, held t u → held' t u) : m.Agrees named' held' :=
  ⟨hn _ _ h.key, fun t ht => hh _ _ (h.thread t ht)⟩

theorem RelationRow.Agrees.mono {r : RelationRow} (h : r.Agrees named held) (hn : ∀ k u, named k u → named' k u)
    (hh : ∀ t u, held t u → held' t u) : r.Agrees named' held' :=
  ⟨hn _ _ h.parentKey, fun t ht => hh _ _ (h.parentThread t ht), hn _ _ h.childKey,
    fun t ht => hh _ _ (h.childThread t ht)⟩

variable {s s' : Store}

theorem Agrees.mono (h : Agrees named held s) (hn : ∀ k u, named k u → named' k u)
    (hh : ∀ t u, held t u → held' t u) : Agrees named' held' s where
  thread row hr := hh _ _ (h.thread row hr)
  key row hr := ⟨hn _ _ (h.key row hr).1, hh _ _ (h.key row hr).2⟩
  identity row hr := hh _ _ (h.identity row hr)
  marker row hr key hk := hn _ _ (h.marker row hr key hk)
  member m hm hc := (h.member m hm hc).mono hn hh
  relation r hr ha := (h.relation r hr ha).mono hn hh

/-- Two agreements are one. -/
theorem Agrees.and (h : Agrees named held s) (h' : Agrees named' held' s) :
    Agrees (fun k u => named k u ∧ named' k u) (fun t u => held t u ∧ held' t u) s where
  thread row hr := ⟨h.thread row hr, h'.thread row hr⟩
  key row hr := ⟨⟨(h.key row hr).1, (h'.key row hr).1⟩, (h.key row hr).2, (h'.key row hr).2⟩
  identity row hr := ⟨h.identity row hr, h'.identity row hr⟩
  marker row hr key hk := ⟨h.marker row hr key hk, h'.marker row hr key hk⟩
  member m hm hc :=
    ⟨⟨(h.member m hm hc).key, (h'.member m hm hc).key⟩,
      fun t ht => ⟨(h.member m hm hc).thread t ht, (h'.member m hm hc).thread t ht⟩⟩
  relation r hr ha :=
    ⟨⟨(h.relation r hr ha).parentKey, (h'.relation r hr ha).parentKey⟩,
      fun t ht => ⟨(h.relation r hr ha).parentThread t ht, (h'.relation r hr ha).parentThread t ht⟩,
      ⟨(h.relation r hr ha).childKey, (h'.relation r hr ha).childKey⟩,
      fun t ht => ⟨(h.relation r hr ha).childThread t ht, (h'.relation r hr ha).childThread t ht⟩⟩

theorem Agrees.evidence (h : Agrees named held s) (he : EvidenceOnly s s') : Agrees named held s' where
  thread := he.read Store.threads (fun _ => rfl) ▸ h.thread
  key := he.canonicalKeys ▸ h.key
  identity := he.read Store.sourceIdentities (fun _ => rfl) ▸ h.identity
  marker := he.read Store.markers (fun _ => rfl) ▸ h.marker
  member := he.members ▸ h.member
  relation := he.relations ▸ h.relation

/-! ## Members -/

theorem Agrees.join (h : Agrees named held s) {row : MemberRow} (hrow : row.Agrees named held) :
    Agrees named held (s.join row) :=
  { h with
    member := fun m hm hc => by
      rcases List.mem_append.1 hm with hm | hm
      · exact h.member m hm hc
      · exact List.mem_singleton.1 hm ▸ hrow }

/-- Rows that are changed keep key and owner, are current only if they were, and live only in a thread of their owner. -/
theorem Agrees.modifyMembers (h : Agrees named held s) {p : MemberRow → Bool} {f : MemberRow → MemberRow}
    (hf : ∀ m, p m = true → (f m).current = true → m.current = true ∧ (m.Agrees named held → (f m).Agrees named held)) :
    Agrees named held { s with members := modifyWhere p f s.members } :=
  { h with
    member := fun m hm hcur => by
      obtain ⟨m₀, hm₀, rfl⟩ := mem_modifyWhere.1 hm
      split at hcur <;> rename_i hp
      · rw [if_pos hp]
        exact (hf m₀ hp hcur).2 (h.member m₀ hm₀ (hf m₀ hp hcur).1)
      · rw [if_neg hp]
        exact h.member m₀ hm₀ hcur }

theorem Agrees.leave (h : Agrees named held s) (key : Key) (groupId : Nat) :
    Agrees named held (s.leave key groupId) :=
  h.modifyMembers fun m _ hc => by simp [MemberRow.current] at hc

theorem Vacated.agrees {old target : Nat} (hv : Vacated s old target s') (h : Agrees named held s) :
    Agrees named held s' := by
  cases hv with
  | kept => exact h
  | closed => exact { h with }

theorem Agrees.addGroup (h : Agrees named held s) (userId : Int) (key : Key) (title : Option String)
    (authority : GroupingAuthority) : Agrees named held (s.addGroup userId key title authority) := { h with }

theorem Opened.agrees [KeyHash] {rootKey : Key} {owner : Option Int} {g : Nat} (ho : Opened s rootKey owner g s')
    (h : Agrees named held s) : Agrees named held s' := by
  cases ho with
  | found => exact h
  | made => exact h.addGroup ..

theorem automaticRow_agrees {key anchorKey : Key} {endpoint : ObservedEndpoint} {identity : SourceTriple}
    {target : Nat} {state : MemberState} (hk : named key endpoint.userId)
    (ht : ∀ threadId ∈ state.liveThread?, held threadId endpoint.userId) :
    (automaticRow key endpoint identity target anchorKey state).Agrees named held := ⟨hk, ht⟩

/-- A placed row lives in the thread given for it, if it lives. -/
theorem placedState_liveThread {deletedAt : Option Int} {threadId : Option Nat} {state : MemberState}
    (h : placedState deletedAt threadId = some state) {t : Nat} (ht : t ∈ state.liveThread?) : t ∈ threadId := by
  cases deletedAt with
  | some deletedAt =>
    obtain rfl := Option.some.inj h
    simp [MemberState.liveThread?] at ht
  | none =>
    obtain ⟨tid, htid, rfl⟩ := Option.map_eq_some_iff.1 h
    simp only [MemberState.liveThread?, Option.mem_def, Option.some.injEq] at ht
    exact ht ▸ htid

/-- A placement gives the key and the thread the endpoint's owner. -/
theorem Placed.agrees {threadId : Option Nat} {key : Key} {endpoint : ObservedEndpoint} {target : Nat}
    {anchorKey : Key} (hp : Placed threadId key endpoint target anchorKey s s') (h : Agrees named held s)
    (hk : named key endpoint.userId) (ht : ∀ t ∈ threadId, held t endpoint.userId) : Agrees named held s' := by
  cases hp with
  | stays => exact h
  | absent => exact h
  | enters tid identity _ htid =>
    refine h.join (automaticRow_agrees hk fun t hlive => ht t ?_)
    simp only [MemberState.liveThread?, Option.mem_def, Option.some.injEq] at hlive
    exact hlive ▸ htid
  | moves m s₁ identity state _ _ _ hv hstate =>
    exact (hv.agrees (h.leave key m.groupId)).join
      (automaticRow_agrees hk fun t hlive => ht t (placedState_liveThread hstate hlive))
  | loses m s₁ _ _ _ hv _ => exact hv.agrees (h.leave key m.groupId)

theorem Housed.agrees [KeyHash] {threadId : Nat} {key : Key} {subject : ObservedEndpoint} {owner : Int}
    (hh : Housed threadId key subject owner s s') (h : Agrees named held s) (hk : named key subject.userId)
    (ht : held threadId subject.userId) : Agrees named held s' := by
  cases hh with
  | already => exact h
  | alone g identity s₁ _ hopen =>
    refine (hopen.agrees h).join (automaticRow_agrees hk fun t hlive => ?_)
    simp only [MemberState.liveThread?, Option.mem_def, Option.some.injEq] at hlive
    exact hlive ▸ ht

/-! ## Relations -/

theorem Agrees.relate (h : Agrees named held s) {row : RelationRow} (hrow : row.Agrees named held) :
    Agrees named held (s.relate row) :=
  { h with
    relation := fun r hr ha => by
      rcases List.mem_append.1 hr with hr | hr
      · exact h.relation r hr ha
      · exact List.mem_singleton.1 hr ▸ hrow }

theorem Agrees.modifyRelations (h : Agrees named held s) {p : RelationRow → Bool} {f : RelationRow → RelationRow}
    (hf : ∀ r, p r = true → (f r).isActive = true → r.isActive = true ∧ (r.Agrees named held → (f r).Agrees named held)) :
    Agrees named held { s with relations := modifyWhere p f s.relations } :=
  { h with
    relation := fun r hr ha => by
      obtain ⟨r₀, hr₀, rfl⟩ := mem_modifyWhere.1 hr
      split at ha <;> rename_i hp
      · rw [if_pos hp]
        exact (hf r₀ hp ha).2 (h.relation r₀ hr₀ (hf r₀ hp ha).1)
      · rw [if_neg hp]
        exact h.relation r₀ hr₀ ha }

theorem Agrees.endRelation (h : Agrees named held s) (id : Nat) {state : RelationState} (hstate : state ≠ .active) :
    Agrees named held (s.endRelation id state) :=
  h.modifyRelations fun r _ ha => by simp [isActive_ended hstate] at ha

theorem Agrees.retracted (h : Agrees named held s) (key : Key) : Agrees named held (s.retracted key) := by
  unfold Store.retracted
  split
  · exact h
  · exact h.endRelation _ (by decide)

theorem parentEndpoint_userId (r : RelationRow) : r.parentEndpoint.userId = r.parentUserId := by
  unfold RelationRow.parentEndpoint
  cases r.parentIdentity <;> rfl

theorem childEndpoint_userId (r : RelationRow) : r.childEndpoint.userId = r.childUserId := by
  unfold RelationRow.childEndpoint
  cases r.childIdentity <;> rfl

/-- The owners of an edge are those of its endpoints. -/
structure Edge.Agrees (named : Key → Int → Prop) (held : Nat → Int → Prop) (e : Edge) : Prop where
  subjectKey : named e.subjectKey e.subject.userId
  subjectThread : held e.subjectThreadId e.subject.userId
  parentKey : named e.parentKey e.parent.userId
  parentThread : ∀ threadId ∈ e.parentThreadId, held threadId e.parent.userId

theorem Edge.Agrees.row {e : Edge} (h : e.Agrees named held) (parentIdentity childIdentity : SourceTriple)
    (relationType : RelationType) (selection : Selection) (id : Nat) :
    (adoptedRow e parentIdentity childIdentity relationType selection id).Agrees named held :=
  ⟨h.parentKey, h.parentThread, h.subjectKey, fun t ht => by
    obtain rfl := Option.some.inj (Option.mem_def.1 ht)
    exact h.subjectThread⟩

variable [KeyHash]

theorem Anchored.agrees {e : Edge} {g : Nat} {anchor : Key}
    (ha : Anchored e.parentThreadId e.parentKey e.parent e.owner s g anchor s') (he : e.Agrees named held)
    (h : Agrees named held s) : Agrees named held s' := by
  cases ha with
  | member => exact h
  | root _ threadId endpoint _ s₁ _ _ _ horigin hopen hp =>
    have h₁ := hopen.agrees h
    rcases horigin with ⟨-, heq⟩ | ⟨-, r, hr, hact, heq⟩
    · obtain ⟨rfl, rfl, rfl⟩ := by simpa only [Prod.mk.injEq] using heq
      exact hp.agrees h₁ he.parentKey he.parentThread
    · obtain ⟨rfl, rfl, rfl⟩ := by simpa only [Prod.mk.injEq] using heq
      have hrow := h.relation r hr hact
      exact hp.agrees h₁ (parentEndpoint_userId r ▸ hrow.parentKey) (parentEndpoint_userId r ▸ hrow.parentThread)

/-- The placement of a subject gives owners from the edge, and from the relations above the parent and below the subject. -/
theorem Ensured.agrees {e : Edge} (hens : Ensured e s s') (hs : Sound s) (he : e.Agrees named held)
    (h : Agrees named held s) : Agrees named held s' := by
  have hI : ∀ target, Reassigns target fun todo _ _ s =>
      (∀ r ∈ todo, r.Agrees named held) ∧ Agrees named held s := fun target =>
    { pop := fun {parent _ _ s} hi => ⟨fun r hr => by
        obtain ⟨hmem, -, hact⟩ := mem_listActiveByParent.1 hr
        exact hi.2.relation r hmem hact, hi.2⟩
      seen := fun hi _ => ⟨fun r hr => hi.1 r (List.mem_cons_of_mem _ hr), hi.2⟩
      fixed := fun hi _ _ _ => ⟨fun r hr => hi.1 r (List.mem_cons_of_mem _ hr), hi.2⟩
      placed := fun {r _ _ _ _ _} hi _ _ _ _ hp => by
        have hrow := hi.1 r List.mem_cons_self
        exact ⟨fun r hr => hi.1 r (List.mem_cons_of_mem _ hr),
          hp.agrees hi.2 (childEndpoint_userId r ▸ hrow.childKey) (childEndpoint_userId r ▸ hrow.childThread)⟩ }
  rcases hens.rule hI hs.memberships hs.forest fun _ target anchor s₁ s₂ ha _ hp =>
    ⟨by simp, hp.agrees (ha.agrees he h) he.subjectKey fun t ht => by
      obtain rfl := Option.some.inj (Option.mem_def.1 ht)
      exact he.subjectThread⟩ with ⟨rfl, -⟩ | ⟨_, ⟨_, -, h'⟩, -⟩
  · exact h
  · exact h'

theorem Applied.agrees {e : Edge} {winner : Candidate} {out : Option Nat} (happ : Applied e winner s out s')
    (hs : Sound s) (hno : ¬ Climbs s.activeParent e.parentKey e.subjectKey) (he : e.Agrees named held)
    (h : Agrees named held s) : Agrees named held s' := by
  cases happ with
  | same _ _ _ _ hens => exact hens.agrees hs he h
  | conflicting existing _ _ _ hev => exact (h.endRelation existing.id (by decide)).evidence hev
  | adopted _ _ _ _ _ hn _ hens hev =>
    exact (hens.agrees (hs.relate rfl hn hno) he (h.relate (he.row ..))).evidence hev

end Rows

end MemoryStore.ThreadGroup
