/-
What normalizing a session answers: it does not depend on the order of the rows
or of the hash maps; its messages come parents first, the earliest ready one
next, with their parts in the order of their ids; and every parent of an entry is
an entry before it. Assistant messages in a circle make it fail.

Only the `parentID` of an assistant message orders messages; that of another
message is kept as metadata.
-/
import MemoryStore.AgentImport.OpenCode.Normalize
import MemoryStore.Lib.Chunks
import MemoryStore.Lib.Netstring
import MemoryStore.Lib.ReadyOrder

namespace MemoryStore.AgentImport.OpenCode

open ClaudeCode (CanonicalEntry)
open ReadyOrder
open Relation (TransGen)

/-! ## Parents -/

/-- The message an assistant message names as its parent. -/
def assistantParent (message : MessageRow) : Option Text :=
  if (message.data.get "role").bind Data.asStr = some "assistant".toList then
    (message.data.get "parentID").bind Data.asStr
  else none

/-- The parent of a message, when it is one of the messages. -/
def parentRow (messages : List MessageRow) (message : MessageRow) : Option MessageRow :=
  (assistantParent message).bind fun p => messages.find? fun m => m.id = p

/-- An assistant message and the id of its parent. -/
def NamesParent (messages : List MessageRow) (id parentId : Text) : Prop :=
  ∃ message ∈ messages, message.id = id ∧ assistantParent message = some parentId

theorem required_ok {α : Type} {text : String} {o : Option α} {a : α} : required text o = .ok a ↔ o = some a := by
  cases o <;> simp [required]

theorem refuse_ok {c : Prop} [Decidable c] {text : String} {u : Unit} : refuse c text = .ok u ↔ ¬c := by
  unfold refuse
  split <;> simp_all

theorem object_ok {value : Data} {what : String} {fields : Fields} :
    object value what = .ok fields ↔ value = .object fields := by
  unfold object
  rw [required_ok]
  cases value <;> simp [Data.asObject]

theorem nonEmptyString_ok {value : Option Data} {what : String} {s : Text} :
    nonEmptyString value what = .ok s ↔ value.bind Data.asStr = some s ∧ s ≠ [] := by
  unfold nonEmptyString nonEmptyOrEmptyString
  simp only [Except.bind_eq_ok, required_ok, refuse_ok]
  constructor
  · rintro ⟨s', hs, _, hne, heq⟩
    obtain rfl := Except.ok.inj heq
    exact ⟨hs, hne⟩
  · rintro ⟨hs, hne⟩
    exact ⟨s, hs, (), hne, rfl⟩

theorem validateId_ok {value start : Text} {label : String} {u : Unit} :
    validateId value label start = .ok u ↔ validId start value = true := by
  unfold validateId
  split <;> simp_all

theorem discard_ok {α : Type} {x : Except String α} {u : Unit} : discard x = .ok u ↔ ∃ a, x = .ok a := by
  cases x <;> simp [discard, Functor.mapConst, Except.map]

/-! ## Maps -/

/-- A message that the loop over the messages accepts. -/
def MessageAccepted (sessionId : Text) (message : MessageRow) : Prop :=
  validId "msg".toList message.id = true ∧ ¬(message.createdAtMs < 0 ∨ message.updatedAtMs < 0) ∧
    message.sessionId = sessionId

theorem addMessage_ok {sessionId : Text} {byId byId' : KeyMap Text MessageRow} {message : MessageRow} :
    addMessage sessionId byId message = .ok byId' ↔
      MessageAccepted sessionId message ∧ byId.lookup message.id = none ∧ byId' = byId.insert message.id message := by
  unfold addMessage MessageAccepted
  simp only [Except.bind_eq_ok, validateId_ok, refuse_ok]
  constructor
  · rintro ⟨_, hid, _, htimes, _, hsession, _, hnew, heq⟩
    exact ⟨⟨hid, htimes, not_not.1 hsession⟩, Option.not_isSome_iff_eq_none.1 hnew, (Except.ok.inj heq).symm⟩
  · rintro ⟨⟨hid, htimes, hsession⟩, hnew, rfl⟩
    exact ⟨(), hid, (), htimes, (), not_not.2 hsession, (), by simp [hnew], rfl⟩

theorem addMessages_ok {sessionId : Text} : ∀ {messages : List MessageRow} {byId byId' : KeyMap Text MessageRow},
    messages.foldlM (addMessage sessionId) byId = .ok byId' ↔
      (∀ m ∈ messages, MessageAccepted sessionId m ∧ byId.lookup m.id = none) ∧ (messages.map MessageRow.id).Nodup ∧
        byId' = messages.foldl (fun map m => map.insert m.id m) byId
  | [], byId, byId' => by
    constructor
    · intro h
      exact ⟨by simp, List.nodup_nil, (Except.ok.inj h).symm⟩
    · rintro ⟨-, -, rfl⟩
      rfl
  | message :: messages, byId, byId' => by
    have hlookup : ∀ m : MessageRow, m.id ≠ message.id →
        (byId.insert message.id message).lookup m.id = byId.lookup m.id := fun m h => AList.lookup_insert_ne h
    rw [List.foldlM_cons, Except.bind_eq_ok]
    simp only [addMessage_ok, addMessages_ok]
    constructor
    · rintro ⟨_, ⟨haccepted, hnew, rfl⟩, hall, hn, rfl⟩
      have hne : ∀ m ∈ messages, m.id ≠ message.id := by
        intro m hm heq
        have hnone := (hall m hm).2
        rw [heq, AList.lookup_insert] at hnone
        cases hnone
      refine ⟨?_, ?_, rfl⟩
      · intro m hm
        rcases List.mem_cons.1 hm with rfl | hm
        · exact ⟨haccepted, hnew⟩
        · have h := hall m hm
          rw [hlookup m (hne m hm)] at h
          exact h
      · rw [List.map_cons, List.nodup_cons]
        refine ⟨fun hmem => ?_, hn⟩
        obtain ⟨m, hm, heq⟩ := List.mem_map.1 hmem
        exact hne m hm heq
    · rintro ⟨hall, hn, rfl⟩
      rw [List.map_cons, List.nodup_cons] at hn
      have hhead := hall message List.mem_cons_self
      refine ⟨_, ⟨hhead.1, hhead.2, rfl⟩, fun m hm => ?_, hn.2, rfl⟩
      have hne : m.id ≠ message.id := fun heq => hn.1 (heq ▸ List.mem_map_of_mem hm)
      rw [hlookup m hne]
      exact hall m (List.mem_cons_of_mem _ hm)

/-- A part that the loop over the parts accepts. -/
def PartAccepted (sessionId : Text) (messages : List MessageRow) (part : PartRow) : Prop :=
  validId "prt".toList part.id = true ∧ ¬(part.createdAtMs < 0 ∨ part.updatedAtMs < 0) ∧
    part.sessionId = sessionId ∧ ∃ m ∈ messages, m.id = part.messageId

theorem addPart_ok {sessionId : Text} {messages : List MessageRow} {messagesById : KeyMap Text MessageRow}
    (hlookup : ∀ k, messagesById.lookup k = messages.find? fun m => m.id = k)
    {byMessage byMessage' : KeyMap Text (List PartRow)} {part : PartRow} :
    addPart sessionId messagesById byMessage part = .ok byMessage' ↔
      PartAccepted sessionId messages part ∧ byMessage' = byMessage.push part.messageId part := by
  have hfound : (messagesById.lookup part.messageId).isNone = true ↔ ¬∃ m ∈ messages, m.id = part.messageId := by
    rw [hlookup, Option.isNone_iff_eq_none, List.find?_eq_none]
    simp
  unfold addPart PartAccepted
  simp only [Except.bind_eq_ok, validateId_ok, refuse_ok, hfound]
  constructor
  · rintro ⟨_, hid, _, htimes, _, hplace, heq⟩
    rw [not_or, not_not, not_not] at hplace
    exact ⟨⟨hid, htimes, hplace⟩, (Except.ok.inj heq).symm⟩
  · rintro ⟨⟨hid, htimes, hplace⟩, rfl⟩
    refine ⟨(), hid, (), htimes, (), ?_, rfl⟩
    rw [not_or, not_not, not_not]
    exact hplace

theorem addParts_ok {sessionId : Text} {messages : List MessageRow} {messagesById : KeyMap Text MessageRow}
    (hlookup : ∀ k, messagesById.lookup k = messages.find? fun m => m.id = k) :
    ∀ {parts : List PartRow} {byMessage byMessage' : KeyMap Text (List PartRow)},
      parts.foldlM (addPart sessionId messagesById) byMessage = .ok byMessage' ↔
        (∀ p ∈ parts, PartAccepted sessionId messages p) ∧
          byMessage' = parts.foldl (fun map p => map.push p.messageId p) byMessage
  | [], byMessage, byMessage' => by
    constructor
    · intro h
      exact ⟨by simp, (Except.ok.inj h).symm⟩
    · rintro ⟨-, rfl⟩
      rfl
  | part :: parts, byMessage, byMessage' => by
    rw [List.foldlM_cons, Except.bind_eq_ok]
    simp only [addPart_ok hlookup, addParts_ok hlookup, List.forall_mem_cons]
    constructor
    · rintro ⟨_, ⟨haccepted, rfl⟩, hall, rfl⟩
      exact ⟨⟨haccepted, hall⟩, rfl⟩
    · rintro ⟨⟨haccepted, hall⟩, rfl⟩
      exact ⟨_, ⟨haccepted, rfl⟩, hall, rfl⟩

/-- The data of a part has a type. -/
def Typed (part : PartRow) : Prop := ∃ kind, (part.data.get "type").bind Data.asStr = some kind ∧ kind ≠ []

theorem checkPart_ok {seen seen' : List Text} {part : PartRow} :
    checkPart seen part = .ok seen' ↔ part.id ∉ seen ∧ Typed part ∧ seen' = part.id :: seen := by
  unfold checkPart Typed
  simp only [Except.bind_eq_ok, refuse_ok, discard_ok, object_ok, nonEmptyString_ok]
  constructor
  · rintro ⟨_, hnew, fields, hdata, _, ⟨kind, hkind⟩, heq⟩
    rw [hdata]
    exact ⟨hnew, ⟨kind, hkind⟩, (Except.ok.inj heq).symm⟩
  · rintro ⟨hnew, ⟨kind, hkind, hne⟩, rfl⟩
    cases hdata : part.data with
    | object fields =>
      rw [hdata] at hkind
      exact ⟨(), hnew, fields, rfl, (), ⟨kind, hkind, hne⟩, rfl⟩
    | _ =>
      rw [hdata] at hkind
      cases hkind

theorem checkParts_ok : ∀ {parts : List PartRow} {seen seen' : List Text},
    parts.foldlM checkPart seen = .ok seen' ↔
      (∀ p ∈ parts, Typed p ∧ p.id ∉ seen) ∧ (parts.map PartRow.id).Nodup ∧
        seen' = (parts.map PartRow.id).reverse ++ seen
  | [], seen, seen' => by
    constructor
    · intro h
      exact ⟨by simp, List.nodup_nil, (Except.ok.inj h).symm⟩
    · rintro ⟨-, -, rfl⟩
      rfl
  | part :: parts, seen, seen' => by
    rw [List.foldlM_cons, Except.bind_eq_ok]
    simp only [checkPart_ok, checkParts_ok]
    constructor
    · rintro ⟨_, ⟨hnew, htyped, rfl⟩, hall, hn, rfl⟩
      refine ⟨?_, ?_, by simp⟩
      · intro p hp
        rcases List.mem_cons.1 hp with rfl | hp
        · exact ⟨htyped, hnew⟩
        · exact ⟨(hall p hp).1, fun h => (hall p hp).2 (List.mem_cons_of_mem _ h)⟩
      · rw [List.map_cons, List.nodup_cons]
        refine ⟨fun hmem => ?_, hn⟩
        obtain ⟨p, hp, heq⟩ := List.mem_map.1 hmem
        exact (hall p hp).2 (heq ▸ List.mem_cons_self)
    · rintro ⟨hall, hn, rfl⟩
      rw [List.map_cons, List.nodup_cons] at hn
      have hhead := hall part List.mem_cons_self
      refine ⟨_, ⟨hhead.2, hhead.1, rfl⟩, fun p hp => ?_, hn.2, by simp⟩
      have hp' := hall p (List.mem_cons_of_mem _ hp)
      refine ⟨hp'.1, fun hmem => ?_⟩
      rcases List.mem_cons.1 hmem with heq | hmem
      · exact hn.1 (heq ▸ List.mem_map_of_mem hp)
      · exact hp'.2 hmem

/-- A message with a role and, from the assistant, a parent reference. -/
def ParentAccepted (message : MessageRow) : Prop :=
  ∃ role, (message.data.get "role").bind Data.asStr = some role ∧ role ≠ [] ∧
    (role = "assistant".toList → ∃ p, (message.data.get "parentID").bind Data.asStr = some p ∧ p ≠ [] ∧
      validId "msg".toList p = true)

/-- The parents with that of a message. -/
def withParent (parents : KeyMap Text Text) (message : MessageRow) : KeyMap Text Text :=
  match assistantParent message with
  | some p => parents.insert message.id p
  | none => parents

theorem addParent_ok {parents parents' : KeyMap Text Text} {message : MessageRow} :
    addParent parents message = .ok parents' ↔ ParentAccepted message ∧ parents' = withParent parents message := by
  unfold addParent ParentAccepted withParent assistantParent
  simp only [Except.bind_eq_ok, object_ok, nonEmptyString_ok]
  constructor
  · rintro ⟨fields, hdata, role, ⟨hrole, hne⟩, h⟩
    rw [hdata]
    have hget : ∀ key, (Data.object fields).get key = fields.lookup key := fun _ => rfl
    simp only [hget, hrole, Option.some.injEq]
    split at h
    next hassistant =>
      simp only [Except.bind_eq_ok, nonEmptyString_ok, validateId_ok] at h
      obtain ⟨p, ⟨hp, hpne⟩, _, hid, heq⟩ := h
      simp only [hp, hassistant, if_true]
      exact ⟨⟨_, rfl, hassistant ▸ hne, fun _ => ⟨p, rfl, hpne, hid⟩⟩, (Except.ok.inj heq).symm⟩
    next hassistant =>
      simp only [hassistant, if_false]
      exact ⟨⟨role, rfl, hne, fun h => absurd h hassistant⟩, (Except.ok.inj h).symm⟩
  · rintro ⟨⟨role, hrole, hne, hassistant⟩, rfl⟩
    cases hdata : message.data with
    | object fields =>
      rw [hdata] at hrole hassistant
      refine ⟨fields, rfl, role, ⟨hrole, hne⟩, ?_⟩
      simp only [hrole, Option.some.injEq]
      split
      next h =>
        obtain ⟨p, hp, hpne, hid⟩ := hassistant h
        simp only [Except.bind_eq_ok, nonEmptyString_ok, validateId_ok]
        exact ⟨p, ⟨hp, hpne⟩, (), hid, by rw [hp]; rfl⟩
      next h => rfl
    | _ =>
      rw [hdata] at hrole
      cases hrole

theorem addParents_ok : ∀ {messages : List MessageRow} {parents parents' : KeyMap Text Text},
    messages.foldlM addParent parents = .ok parents' ↔
      (∀ m ∈ messages, ParentAccepted m) ∧ parents' = messages.foldl withParent parents
  | [], parents, parents' => by
    constructor
    · intro h
      exact ⟨by simp, (Except.ok.inj h).symm⟩
    · rintro ⟨-, rfl⟩
      rfl
  | message :: messages, parents, parents' => by
    rw [List.foldlM_cons, Except.bind_eq_ok]
    simp only [addParent_ok, addParents_ok, List.forall_mem_cons]
    constructor
    · rintro ⟨_, ⟨haccepted, rfl⟩, hall, rfl⟩
      exact ⟨⟨haccepted, hall⟩, rfl⟩
    · rintro ⟨⟨haccepted, hall⟩, rfl⟩
      exact ⟨_, ⟨haccepted, rfl⟩, hall, rfl⟩

theorem lookup_withParent (parents : KeyMap Text Text) (message : MessageRow) (k : Text) :
    (withParent parents message).lookup k =
      if message.id = k then (assistantParent message).or (parents.lookup k) else parents.lookup k := by
  unfold withParent
  split
  next p hp =>
    split
    next h => rw [hp, ← h, AList.lookup_insert]; rfl
    next h => rw [AList.lookup_insert_ne (Ne.symm h)]
  next hp => rw [hp, Option.none_or, ite_self]

/-- Of messages with ids of their own, each has its parent in the map. -/
theorem lookup_withParents (k : Text) : ∀ {messages : List MessageRow} {parents : KeyMap Text Text},
    (messages.map MessageRow.id).Nodup → parents.lookup k = none →
      (messages.foldl withParent parents).lookup k = (messages.find? fun m => m.id = k).bind assistantParent
  | [], parents, _, hnone => hnone
  | message :: messages, parents, hn, hnone => by
    rw [List.map_cons, List.nodup_cons] at hn
    rw [List.foldl_cons]
    by_cases hk : message.id = k
    · have hlater : ∀ {ms : List MessageRow} {ps : KeyMap Text Text}, (∀ m ∈ ms, m.id ≠ k) →
          (ms.foldl withParent ps).lookup k = ps.lookup k := by
        intro ms
        induction ms with
        | nil => intro ps _; rfl
        | cons m ms ih =>
          intro ps hms
          rw [List.foldl_cons, ih fun m hm => hms m (List.mem_cons_of_mem _ hm), lookup_withParent,
            if_neg (hms m List.mem_cons_self)]
      have hothers : ∀ m ∈ messages, m.id ≠ k := fun m hm heq => hn.1 (hk ▸ heq ▸ List.mem_map_of_mem hm)
      rw [hlater hothers, lookup_withParent, if_pos hk, hnone, Option.or_none,
        List.find?_cons_of_pos (by simpa using hk)]
      rfl
    · rw [List.find?_cons_of_neg (by simpa using hk)]
      refine lookup_withParents k hn.2 ?_
      rw [lookup_withParent, if_neg hk, hnone]

/-- **The rows of a session that can be normalized**, up to the order of its messages. -/
structure Acceptable (session : Session) (messages : List MessageRow) (parts : List PartRow) : Prop where
  checked : checkSession session = .ok ()
  messagesAccepted : ∀ m ∈ messages, MessageAccepted session.row.id m ∧ ParentAccepted m
  messageIds : (messages.map MessageRow.id).Nodup
  partsAccepted : ∀ p ∈ parts, PartAccepted session.row.id messages p ∧ Typed p
  partIds : (parts.map PartRow.id).Nodup

/-- What the maps hold. -/
structure Prepares (messages : List MessageRow) (parts : List PartRow) (p : Prepared) : Prop where
  values : p.messagesById.values.Perm messages
  lookup : ∀ k, p.messagesById.lookup k = messages.find? fun m => m.id = k
  partsOf : ∀ k, p.partsOf k = sortParts (parts.filter fun part => part.messageId = k)
  parents : ∀ k, p.parentMessages.lookup k = (messages.find? fun m => m.id = k).bind assistantParent

/-- A message is found by its id, wherever it stands. -/
theorem find?_id_perm {messages messages' : List MessageRow} (hn : (messages.map MessageRow.id).Nodup)
    (hp : messages'.Perm messages) (k : Text) :
    messages'.find? (fun m => m.id = k) = messages.find? fun m => m.id = k := by
  have hn' : (messages'.map MessageRow.id).Nodup := (hp.map _).nodup_iff.2 hn
  have hiff : ∀ {ms : List MessageRow}, (ms.map MessageRow.id).Nodup → ∀ m,
      ms.find? (fun m => m.id = k) = some m ↔ m ∈ ms ∧ m.id = k := by
    intro ms hms m
    rw [← KeyMap.lookup_collect hms]
    constructor
    · intro h
      have hid := KeyMap.keyed_collect ms k m h
      rw [← hid] at h
      exact ⟨(KeyMap.mem_values_collect hms).1 ((KeyMap.mem_values (KeyMap.keyed_collect ms)).2 h), hid⟩
    · rintro ⟨hm, rfl⟩
      exact (KeyMap.mem_values (KeyMap.keyed_collect ms)).1 ((KeyMap.mem_values_collect hms).2 hm)
  refine Option.ext fun m => ?_
  rw [hiff hn', hiff hn, hp.mem_iff]

section Prepare

variable {orders : Orders} {session : Session} {messages : List MessageRow} {parts : List PartRow} {p : Prepared}

theorem values_collect_perm (hn : (messages.map MessageRow.id).Nodup) :
    (KeyMap.collect MessageRow.id messages).values.Perm messages := by
  have hvalues := List.Nodup.of_map _ (KeyMap.nodup_values (@KeyMap.keyed_collect _ _ _ MessageRow.id messages))
  rw [List.perm_ext_iff_of_nodup hvalues hn.of_map]
  exact fun m => KeyMap.mem_values_collect hn

theorem partsOf_group {messagesById : KeyMap Text MessageRow} {parents : KeyMap Text Text} (k : Text) :
    Prepared.partsOf ⟨messagesById, KeyMap.group PartRow.messageId id parts, parents⟩ k =
      sortParts (parts.filter fun part => part.messageId = k) := by
  unfold Prepared.partsOf
  rw [KeyMap.lookup_group, List.map_id]
  split
  · rfl
  next h =>
    have hnone : (parts.filter fun part => part.messageId = k) = [] := by
      rw [List.filter_eq_nil_iff]
      intro part hpart hk
      exact h (List.any_eq_true.2 ⟨part, hpart, hk⟩)
    rw [hnone]
    rfl

theorem values_group_perm (orders : Orders) (parts : List PartRow) :
    (orders.parts.arrange (KeyMap.group PartRow.messageId id parts).values).flatten.Perm parts := by
  have hflatten := (orders.parts.perm (KeyMap.group PartRow.messageId id parts).values).flatten
  have hgroup := @KeyMap.flatten_values_group _ _ _ _ PartRow.messageId id parts
  rw [List.map_id] at hgroup
  exact hflatten.trans hgroup

/-- **The maps are made when the rows are acceptable**, and are those of the rows. -/
theorem prepare_ok : prepare orders session messages parts = .ok p ↔
    Acceptable session messages parts ∧
      p = ⟨KeyMap.collect MessageRow.id messages, KeyMap.group PartRow.messageId id parts,
        (orders.messages.arrange (KeyMap.collect MessageRow.id messages).values).foldl withParent ∅⟩ := by
  have hmap : ∀ rows : List MessageRow,
      rows.foldl (fun map m => map.insert m.id m) ∅ = KeyMap.collect MessageRow.id rows := fun _ => rfl
  have hgroup : ∀ rows : List PartRow,
      rows.foldl (fun map p => map.push p.messageId p) ∅ = KeyMap.group PartRow.messageId id rows := fun _ => rfl
  have hperm := values_group_perm orders parts
  unfold prepare
  simp only [Except.bind_eq_ok, addMessages_ok, discard_ok]
  constructor
  · rintro ⟨_, hsession, _, ⟨hmessages, hn, rfl⟩, _, hparts, _, ⟨_, hchecks⟩, _, hparents, heq⟩
    rw [hmap] at hparts hparents heq
    rw [addParts_ok (KeyMap.lookup_collect hn)] at hparts
    obtain ⟨hparts, rfl⟩ := hparts
    rw [hgroup] at hchecks heq
    obtain ⟨htyped, hids, -⟩ := checkParts_ok.1 hchecks
    obtain ⟨haccepted, rfl⟩ := addParents_ok.1 hparents
    have hvalues := (orders.messages.perm _).trans (values_collect_perm hn)
    refine ⟨⟨hsession, fun m hm => ?_, hn, fun part hpart => ?_, ?_⟩, (Except.ok.inj heq).symm⟩
    · exact ⟨(hmessages m hm).1, haccepted m (hvalues.mem_iff.2 hm)⟩
    · exact ⟨hparts part hpart, (htyped part (hperm.mem_iff.2 hpart)).1⟩
    · exact (hperm.map _).nodup_iff.1 hids
  · rintro ⟨⟨hsession, hmessages, hn, hparts, hids⟩, rfl⟩
    have hvalues := (orders.messages.perm _).trans (values_collect_perm hn)
    refine ⟨(), hsession, _, ⟨fun m hm => ⟨(hmessages m hm).1, AList.lookup_empty _⟩, hn, rfl⟩, _,
      (addParts_ok (KeyMap.lookup_collect hn)).2 ⟨fun part hpart => (hparts part hpart).1, rfl⟩, (),
      ⟨_, checkParts_ok.2 ⟨fun part hpart => ?_, ?_, rfl⟩⟩, _, addParents_ok.2 ⟨fun m hm => ?_, rfl⟩, rfl⟩
    · exact ⟨(hparts part (hperm.mem_iff.1 hpart)).2, List.not_mem_nil⟩
    · exact (hperm.map _).nodup_iff.2 hids
    · exact (hmessages m (hvalues.mem_iff.1 hm)).2

theorem prepares (h : prepare orders session messages parts = .ok p) : Prepares messages parts p := by
  obtain ⟨haccept, rfl⟩ := prepare_ok.1 h
  have hn := haccept.messageIds
  have hvalues := (orders.messages.perm (KeyMap.collect MessageRow.id messages).values).trans (values_collect_perm hn)
  refine ⟨values_collect_perm hn, KeyMap.lookup_collect hn, partsOf_group, fun k => ?_⟩
  rw [lookup_withParents k ((hvalues.map _).nodup_iff.2 hn) (AList.lookup_empty k)]
  rw [find?_id_perm hn hvalues]

theorem prepare_or (orders : Orders) (session : Session) (messages : List MessageRow) (parts : List PartRow) :
    (∃ p, prepare orders session messages parts = .ok p) ∨
      ¬Acceptable session messages parts ∧ ∃ e, prepare orders session messages parts = .error e := by
  rcases h : prepare orders session messages parts with e | p
  · refine .inr ⟨fun haccept => ?_, e, rfl⟩
    have hok : prepare orders session messages parts = .ok _ := prepare_ok.2 ⟨haccept, rfl⟩
    rw [h] at hok
    cases hok
  · exact .inl ⟨p, rfl⟩

end Prepare

/-! ## The order of the messages -/

instance : Std.Total readyBefore where
  total a b := by
    unfold readyBefore createdBefore
    rcases lt_trichotomy a.createdAtMs b.createdAtMs with h | h | h
    · exact .inl (.inl h)
    · rcases le_total a.id b.id with hid | hid
      · exact .inl (.inr ⟨h, hid⟩)
      · exact .inr (.inr ⟨h.symm, hid⟩)
    · exact .inr (.inl h)

instance : IsTrans MessageRow readyBefore where
  trans a b c hab hbc := by
    unfold readyBefore createdBefore at *
    rcases hab with hab | ⟨hab, hidab⟩
    · rcases hbc with hbc | ⟨hbc, -⟩
      · exact .inl (hab.trans hbc)
      · exact .inl (hbc ▸ hab)
    · rcases hbc with hbc | ⟨hbc, hidbc⟩
      · exact .inl (hab ▸ hbc)
      · exact .inr ⟨hab.trans hbc, hidab.trans hidbc⟩

theorem readyBefore_antisymm {a b : MessageRow} (hab : readyBefore a b) (hba : readyBefore b a) : a.id = b.id := by
  unfold readyBefore createdBefore at hab hba
  rcases hab with hab | ⟨hab, hid⟩
  · rcases hba with hba | ⟨hba, -⟩ <;> omega
  · rcases hba with hba | ⟨-, hid'⟩
    · omega
    · exact le_antisymm hid hid'

section Order

variable {messages : List MessageRow} {messagesById : KeyMap Text MessageRow} {parents : KeyMap Text Text}
  {parent : MessageRow → Option MessageRow}

/-- What the loops read: the messages by their ids, and the parents that are there. -/
structure Reads (messages : List MessageRow) (parent : MessageRow → Option MessageRow)
    (messagesById : KeyMap Text MessageRow) (parents : KeyMap Text Text) : Prop where
  ids : (messages.map MessageRow.id).Nodup
  found : ∀ m ∈ messages, messagesById.lookup m.id = some m
  present : ∀ m ∈ messages, presentParent messagesById parents m.id = (parent m).map MessageRow.id
  inside : ∀ m p, parent m = some p → p ∈ messages

theorem Reads.eq_of_id (h : Reads messages parent messagesById parents) {a b : MessageRow} (ha : a ∈ messages)
    (hb : b ∈ messages) (hid : a.id = b.id) : a = b := List.inj_on_of_nodup_map h.ids ha hb hid

/-- The children of a message are counted and listed. -/
structure Counted (messages : List MessageRow) (parent : MessageRow → Option MessageRow) (s : Ordering) : Prop where
  waiting : ∀ m ∈ messages, ∀ p, parent m = some p → p ∉ s.ordered → s.remainingChildren.lookup m.id = some 1
  children : ∀ p ∈ messages, ∃ cs : List MessageRow, (s.childrenOf.lookup p.id).getD [] = cs.map MessageRow.id ∧
    cs.Nodup ∧ ∀ m, m ∈ cs ↔ m ∈ messages ∧ parent m = some p

/-- The ready messages are those whose turn it is, in their order. -/
structure Draining (messages : List MessageRow) (parent : MessageRow → Option MessageRow) (s : Ordering) : Prop where
  placing : Placing parent readyBefore messages s.ordered
  sorted : s.ready.Pairwise readyBefore
  nodup : s.ready.Nodup
  mem_ready : ∀ m, m ∈ s.ready ↔ m ∈ messages ∧ m ∉ s.ordered ∧ Ready parent messages s.ordered m
  counted : Counted messages parent s

/-- Releasing messages that wait puts them among the ready ones. -/
theorem release_all (h : Reads messages parent messagesById parents) : ∀ (cs : List MessageRow) (s : Ordering),
    cs.Nodup → (∀ c ∈ cs, c ∈ messages ∧ s.remainingChildren.lookup c.id = some 1) →
      ∃ counts : KeyMap Text Nat, (cs.map MessageRow.id).foldl (release messagesById) s =
          { s with
              remainingChildren := counts
              ready := cs.foldl (fun ready c => ready.orderedInsert readyBefore c) s.ready } ∧
        ∀ m ∈ messages, m ∉ cs → counts.lookup m.id = s.remainingChildren.lookup m.id
  | [], s, _, _ => ⟨s.remainingChildren, rfl, fun _ _ _ => rfl⟩
  | c :: cs, s, hn, hall => by
    rw [List.nodup_cons] at hn
    obtain ⟨hc, hcount⟩ := hall c List.mem_cons_self
    have hstep : release messagesById s c.id =
        { s with
            remainingChildren := s.remainingChildren.insert c.id 0
            ready := s.ready.orderedInsert readyBefore c } := by
      unfold release
      rw [hcount, h.found c hc]
      rfl
    have hother : ∀ m ∈ messages, m ≠ c →
        (s.remainingChildren.insert c.id 0).lookup m.id = s.remainingChildren.lookup m.id :=
      fun m hm hne => AList.lookup_insert_ne fun hid => hne (h.eq_of_id hm hc hid)
    rw [List.map_cons, List.foldl_cons, hstep]
    obtain ⟨counts, heq, hcounts⟩ := release_all h cs
      { s with
          remainingChildren := s.remainingChildren.insert c.id 0
          ready := s.ready.orderedInsert readyBefore c } hn.2 fun m hm => by
        obtain ⟨hmem, hcount⟩ := hall m (List.mem_cons_of_mem _ hm)
        exact ⟨hmem, (hother m hmem fun heq => hn.1 (heq ▸ hm)).trans hcount⟩
    refine ⟨counts, heq, fun m hm hnot => ?_⟩
    rw [List.mem_cons, not_or] at hnot
    exact (hcounts m hm hnot.2).trans (hother m hm hnot.1)

theorem insertAll_perm : ∀ cs ready : List MessageRow,
    (cs.foldl (fun ready c => ready.orderedInsert readyBefore c) ready).Perm (cs ++ ready)
  | [], ready => List.Perm.refl ready
  | c :: cs, ready => by
    refine (insertAll_perm cs _).trans ?_
    refine ((List.perm_orderedInsert readyBefore c ready).append_left cs).trans ?_
    exact List.perm_middle

theorem insertAll_sorted : ∀ (cs : List MessageRow) {ready : List MessageRow}, ready.Pairwise readyBefore →
    (cs.foldl (fun ready c => ready.orderedInsert readyBefore c) ready).Pairwise readyBefore
  | [], _, h => h
  | c :: cs, ready, h => insertAll_sorted cs (h.orderedInsert c ready)

/-- **One pass of the second loop.** -/
theorem Draining.step (h : Reads messages parent messagesById parents) {s : Ordering} (hs : Draining messages parent s)
    {message : MessageRow} {ready : List MessageRow} (hready : s.ready = message :: ready) :
    ∃ s', ((s.childrenOf.lookup message.id).getD []).foldl (release messagesById)
        { s with ready := ready, ordered := s.ordered ++ [message] } = s' ∧
      s'.ordered = s.ordered ++ [message] ∧ Draining messages parent s' := by
  have hsorted := hs.sorted
  have hnodup := hs.nodup
  rw [hready, List.pairwise_cons] at hsorted
  rw [hready, List.nodup_cons] at hnodup
  obtain ⟨hmessage, hnew, hturn⟩ := (hs.mem_ready message).1 (by simp [hready])
  obtain ⟨cs, hcs, hcsNodup, hmem⟩ := hs.counted.children message hmessage
  have hlater : ∀ m ∈ cs, m ∉ s.ordered ∧ m ≠ message := by
    intro m hm
    obtain ⟨-, hp⟩ := (hmem m).1 hm
    constructor
    · intro hplaced
      obtain ⟨before, after, heq⟩ := List.append_of_mem hplaced
      have hbefore := hs.placing.parentFirst before m after heq message hp hmessage
      exact hnew (by simp [heq, hbefore])
    · intro heq
      exact hnew (hturn message (heq ▸ hp) hmessage)
  obtain ⟨counts, hfold, hcounts⟩ := release_all h cs { s with ready := ready, ordered := s.ordered ++ [message] }
    hcsNodup fun c hc => by
      obtain ⟨hcmem, hcp⟩ := (hmem c).1 hc
      exact ⟨hcmem, hs.counted.waiting c hcmem message hcp hnew⟩
  rw [hcs, hfold]
  refine ⟨_, rfl, rfl, ?_, insertAll_sorted cs hsorted.2, ?_, fun m => ?_, ?_, ?_⟩
  · refine hs.placing.snoc hmessage hnew hturn fun y hy hfresh hne hyturn => hsorted.1 y ?_
    have hin := (hs.mem_ready y).2 ⟨hy, hfresh, hyturn⟩
    rw [hready] at hin
    exact (List.mem_cons.1 hin).resolve_left hne
  · refine (insertAll_perm cs ready).nodup_iff.2 (List.nodup_append.2 ⟨hcsNodup, hnodup.2, ?_⟩)
    rintro c hc _ hc' rfl
    have hin : c ∈ s.ready := by simp [hready, hc']
    exact hnew (((hs.mem_ready c).1 hin).2.2 message ((hmem c).1 hc).2 hmessage)
  · have hperm := (insertAll_perm cs ready).mem_iff (a := m)
    rw [List.mem_append] at hperm
    rw [hperm]
    constructor
    · rintro (hm | hm)
      · obtain ⟨hmm, hp⟩ := (hmem m).1 hm
        obtain ⟨hfresh, hne⟩ := hlater m hm
        refine ⟨hmm, by simp [hfresh, hne], fun p hpp _ => ?_⟩
        obtain rfl := Option.some.inj (hp.symm.trans hpp)
        simp
      · have hin : m ∈ s.ready := by simp [hready, hm]
        obtain ⟨hmm, hfresh, hmturn⟩ := (hs.mem_ready m).1 hin
        have hne : m ≠ message := fun heq => hnodup.1 (heq ▸ hm)
        exact ⟨hmm, by simp [hfresh, hne], hmturn.mono (List.subset_append_left _ _)⟩
    · rintro ⟨hmm, hfresh, hmturn⟩
      simp only [List.mem_append, List.mem_singleton, not_or] at hfresh
      by_cases hp : parent m = some message
      · exact .inl ((hmem m).2 ⟨hmm, hp⟩)
      · have hturn' : Ready parent messages s.ordered m := by
          intro p hpp hpm
          have hplaced := hmturn p hpp hpm
          rw [List.mem_append, List.mem_singleton] at hplaced
          exact hplaced.resolve_right fun heq => hp (heq ▸ hpp)
        have hin := (hs.mem_ready m).2 ⟨hmm, hfresh.1, hturn'⟩
        rw [hready] at hin
        exact .inr ((List.mem_cons.1 hin).resolve_left hfresh.2)
  · intro m hm p hp hnot
    simp only [List.mem_append, List.mem_singleton, not_or] at hnot
    have hother : m ∉ cs := by
      intro hmcs
      exact hnot.2 (Option.some.inj (hp.symm.trans ((hmem m).1 hmcs).2))
    exact (hcounts m hm hother).trans (hs.counted.waiting m hm p hp hnot.1)
  · exact hs.counted.children

/-- **The second loop ends**, when no message is ready. -/
theorem drain_spec (h : Reads messages parent messagesById parents) : ∀ (steps : Nat) (s : Ordering),
    Draining messages parent s → messages.length - s.ordered.length < steps →
      ∃ ordered, drain messagesById steps s = some ordered ∧ Placing parent readyBefore messages ordered ∧
        ∀ m ∈ messages, m ∉ ordered → ¬Ready parent messages ordered m
  | 0, _, _, hsteps => absurd hsteps (Nat.not_lt_zero _)
  | steps + 1, s, hs, hsteps => by
    unfold drain
    split
    next hready =>
      refine ⟨s.ordered, rfl, hs.placing, fun m hm hfresh hturn => ?_⟩
      have hin := (hs.mem_ready m).2 ⟨hm, hfresh, hturn⟩
      rw [hready] at hin
      exact absurd hin List.not_mem_nil
    next message ready hready =>
      obtain ⟨s', hs', hordered, hdraining⟩ := hs.step h hready
      dsimp only
      rw [hs']
      refine drain_spec h steps s' hdraining ?_
      have hlength : s'.ordered.length ≤ messages.length :=
        (hdraining.placing.nodup.subperm hdraining.placing.sub).length_le
      rw [hordered, List.length_append, List.length_singleton] at hlength ⊢
      omega

/-- What the first loop has put in place for some of the messages. -/
structure Enqueued (messages : List MessageRow) (parent : MessageRow → Option MessageRow) (l : List MessageRow)
    (s : Ordering) : Prop where
  ordered : s.ordered = []
  sorted : s.ready.Pairwise readyBefore
  perm : s.ready.Perm (l.filter fun m => (parent m).isNone)
  waiting : ∀ m ∈ l, ∀ p, parent m = some p → s.remainingChildren.lookup m.id = some 1
  children : ∀ p ∈ messages, (s.childrenOf.lookup p.id).getD [] =
    (l.filter fun m => (parent m).map MessageRow.id = some p.id).map MessageRow.id

theorem Enqueued.snoc (h : Reads messages parent messagesById parents) {l : List MessageRow} {s : Ordering}
    (hs : Enqueued messages parent l s) (hl : l ⊆ messages) {m : MessageRow} (hm : m ∈ messages) (hnew : m ∉ l) :
    Enqueued messages parent (l ++ [m]) (enqueue messagesById parents s m) := by
  have hold : ∀ (n : Nat), ∀ x ∈ l, (s.remainingChildren.insert m.id n).lookup x.id = s.remainingChildren.lookup x.id :=
    fun n x hx => AList.lookup_insert_ne fun hid => hnew (h.eq_of_id (hl hx) hm hid ▸ hx)
  unfold enqueue
  rw [h.present m hm]
  cases hp : parent m with
  | none =>
    refine ⟨hs.ordered, hs.sorted.orderedInsert m s.ready, ?_, ?_, ?_⟩
    · rw [List.filter_append]
      refine (List.perm_orderedInsert readyBefore m s.ready).trans ?_
      rw [List.filter_cons_of_pos (by simp [hp]), List.filter_nil]
      exact (hs.perm.cons m).trans (List.perm_append_singleton m _).symm
    · intro x hx p hxp
      rcases List.mem_append.1 hx with hx | hx
      · exact (hold 0 x hx).trans (hs.waiting x hx p hxp)
      · obtain rfl := List.mem_singleton.1 hx
        rw [hp] at hxp
        cases hxp
    · intro p hpm
      rw [List.filter_append, List.filter_cons_of_neg (by simp [hp]), List.filter_nil, List.append_nil]
      exact hs.children p hpm
  | some p =>
    refine ⟨hs.ordered, hs.sorted, ?_, ?_, ?_⟩
    · rw [List.filter_append, List.filter_cons_of_neg (by simp [hp]), List.filter_nil, List.append_nil]
      exact hs.perm
    · intro x hx q hxq
      rcases List.mem_append.1 hx with hx | hx
      · exact (hold 1 x hx).trans (hs.waiting x hx q hxq)
      · obtain rfl := List.mem_singleton.1 hx
        exact AList.lookup_insert _
    · intro q hq
      rw [List.filter_append, List.map_append]
      show (AList.lookup q.id (s.childrenOf.push p.id m.id)).getD [] = _
      rw [KeyMap.lookup_push]
      by_cases hqp : q.id = p.id
      · rw [if_pos hqp, List.filter_cons_of_pos (by simp [hp, hqp]), List.filter_nil, ← hqp]
        rw [Option.getD_some, hs.children q hq]
        rfl
      · rw [if_neg hqp, List.filter_cons_of_neg (by simpa [hp] using fun h => hqp h.symm), List.filter_nil]
        rw [List.map_nil, List.append_nil]
        exact hs.children q hq

theorem enqueued (h : Reads messages parent messagesById parents) (l : List MessageRow) (hl : l ⊆ messages)
    (hn : l.Nodup) :
    Enqueued messages parent l (l.foldl (enqueue messagesById parents) ⟨∅, ∅, [], []⟩) := by
  induction l using List.reverseRecOn with
  | nil =>
    refine ⟨rfl, List.Pairwise.nil, List.Perm.refl _, fun m hm => absurd hm List.not_mem_nil, fun p _ => ?_⟩
    show (AList.lookup p.id (∅ : KeyMap Text (List Text))).getD [] = _
    rw [AList.lookup_empty]
    rfl
  | append_singleton l m ih =>
    rw [List.nodup_append] at hn
    rw [List.foldl_append]
    have hsub : l ⊆ messages := fun x hx => hl (List.mem_append_left _ hx)
    exact (ih hsub hn.1).snoc h hsub (hl (by simp)) fun hm => hn.2.2 m hm m List.mem_cons_self rfl

theorem Enqueued.draining (h : Reads messages parent messagesById parents) {rows : List MessageRow}
    (hrows : rows.Perm messages) {s : Ordering} (hs : Enqueued messages parent rows s) :
    Draining messages parent s := by
  have hn : rows.Nodup := hrows.nodup_iff.2 h.ids.of_map
  have hordered := hs.ordered
  refine ⟨?_, hs.sorted, hs.perm.nodup_iff.2 (hn.filter _), fun m => ?_, ?_, ?_⟩
  · rw [hordered]
    exact .nil
  · rw [hs.perm.mem_iff, List.mem_filter, hrows.mem_iff, hordered, Option.isNone_iff_eq_none]
    constructor
    · rintro ⟨hm, hnone⟩
      exact ⟨hm, List.not_mem_nil, fun p hp _ => by rw [hnone] at hp; cases hp⟩
    · rintro ⟨hm, -, hturn⟩
      refine ⟨hm, Option.eq_none_iff_forall_not_mem.2 fun p hp => ?_⟩
      exact absurd (hturn p hp (h.inside m p hp)) List.not_mem_nil
  · exact fun m hm p hp _ => hs.waiting m (hrows.mem_iff.2 hm) p hp
  · intro p hpm
    refine ⟨_, hs.children p hpm, hn.filter _, fun m => ?_⟩
    rw [List.mem_filter, hrows.mem_iff, decide_eq_true_eq]
    refine and_congr_right fun hm => ?_
    constructor
    · intro hid
      obtain ⟨q, hq, heq⟩ := Option.map_eq_some_iff.1 hid
      rw [hq, h.eq_of_id (h.inside m q hq) hpm heq]
    · intro hp
      rw [hp]
      rfl

/-- **The messages are put in the one order there is**, or there is none. -/
theorem orderMessages_spec (h : Reads messages parent messagesById parents)
    (hvalues : messagesById.values.Perm messages) (order : MapOrder) {steps : Nat} (hsteps : messages.length < steps) :
    ∃ r, orderMessages order steps messagesById parents = some r ∧
      ∀ ordered, r = .ok ordered ↔ EarliestReady parent readyBefore messages ordered := by
  have hrows := (order.perm messagesById.values).trans hvalues
  have hn : messages.Nodup := h.ids.of_map
  have hstart := enqueued h _ hrows.subset (hrows.nodup_iff.2 hn)
  obtain ⟨placed, hdrain, hplacing, hdone⟩ := drain_spec h steps _ (hstart.draining h hrows)
    (by rw [hstart.ordered]; exact hsteps)
  unfold orderMessages
  rw [hdrain]
  refine ⟨_, rfl, fun ordered => ?_⟩
  have hperm := hplacing.nodup.subperm hplacing.sub
  dsimp only
  split
  next hlength =>
    constructor
    · intro h
      cases h
    · intro hearliest
      have hall : ¬∃ x ∈ messages, x ∉ placed := by
        intro hleft
        obtain ⟨x, hx, hfresh, hturn⟩ := hearliest.exists_ready hleft
        exact hdone x hx hfresh hturn
      have hsub : messages ⊆ placed := fun x hx => not_not.1 fun hfresh => hall ⟨x, hx, hfresh⟩
      have heq := ((hn.subperm hsub).antisymm hperm).length_eq
      rw [hvalues.length_eq] at hlength
      exact absurd heq.symm hlength
  next hlength =>
    rw [not_not, hvalues.length_eq] at hlength
    have hall : messages ⊆ placed := (hperm.perm_of_length_le hlength.ge).symm.subset
    have hcomplete := hplacing.complete hn hall
    constructor
    · intro h
      exact Except.ok.inj h ▸ hcomplete
    · intro hearliest
      rw [hcomplete.unique hn (fun a ha b hb hab hba => h.eq_of_id ha hb (readyBefore_antisymm hab hba)) hearliest]

end Order

/-! ## The search for a cycle -/

section Visit

variable {parents : KeyMap Text Text}

/-- A step of the search. -/
def Up (parents : KeyMap Text Text) (id p : Text) : Prop := parents.lookup id = some p ∧ (parents.lookup p).isSome

/-- The ids that the search is not in the middle of. -/
def unvisited (parents : KeyMap Text Text) (visiting : List Text) : List Text :=
  parents.keys.filter fun k => k ∉ visiting

theorem unvisited_lt {visiting : List Text} {id : Text} (hkey : (parents.lookup id).isSome) (hnew : id ∉ visiting) :
    (unvisited parents (id :: visiting)).length < (unvisited parents visiting).length := by
  have heq : unvisited parents (id :: visiting) = (unvisited parents visiting).filter fun k => k ≠ id := by
    unfold unvisited
    rw [List.filter_filter]
    refine List.filter_congr fun k _ => ?_
    simp [not_or]
  rw [heq, List.length_filter_lt_length_iff_exists]
  exact ⟨id, List.mem_filter.2 ⟨KeyMap.mem_keys_iff.2 hkey, by simpa using hnew⟩, by simp⟩

/-- **A visit ends**, and with no one above himself it finds no cycle. -/
theorem visit_spec (done : List Text) : ∀ (steps : Nat) (visiting : List Text) (id : Text),
    (parents.lookup id).isSome → (unvisited parents visiting).length < steps →
      (∀ x ∈ visiting, TransGen (Up parents) x id) →
        ∃ r, visit parents steps visiting done id = some r ∧
          ((∀ x, ¬TransGen (Up parents) x x) → ∃ done', r = .ok done')
  | 0, _, _, _, hsteps, _ => absurd hsteps (Nat.not_lt_zero _)
  | steps + 1, visiting, id, hkey, hsteps, hpath => by
    unfold visit
    split
    · exact ⟨_, rfl, fun _ => ⟨done, rfl⟩⟩
    · split
      next hon => exact ⟨_, rfl, fun hacyclic => absurd (hpath id hon) (hacyclic id)⟩
      next hnew =>
        split
        · exact ⟨_, rfl, fun _ => ⟨_, rfl⟩⟩
        next p hp =>
          split
          · exact ⟨_, rfl, fun _ => ⟨_, rfl⟩⟩
          next hpkey =>
            have hpkey' : (parents.lookup p).isSome := by simpa [Option.isSome_iff_ne_none] using hpkey
            have hup : Up parents id p := ⟨hp, hpkey'⟩
            have hlt := unvisited_lt hkey hnew
            obtain ⟨r, hr, hok⟩ := visit_spec done steps (id :: visiting) p hpkey' (by omega) fun x hx => by
              rcases List.mem_cons.1 hx with rfl | hx
              · exact .single hup
              · exact (hpath x hx).tail hup
            rw [hr]
            refine ⟨_, rfl, fun hacyclic => ?_⟩
            obtain ⟨done', rfl⟩ := hok hacyclic
            exact ⟨_, rfl⟩

theorem visitAll_spec {steps : Nat} (hsteps : parents.keys.length < steps) : ∀ (ids done : List Text),
    ids ⊆ parents.keys →
      ∃ r, visitAll parents steps ids done = some r ∧ ((∀ x, ¬TransGen (Up parents) x x) → r = .ok ())
  | [], _, _ => ⟨_, rfl, fun _ => rfl⟩
  | id :: ids, done, hsub => by
    rw [List.cons_subset] at hsub
    have hall : (unvisited parents []).length < steps := lt_of_le_of_lt (List.length_filter_le _ _) hsteps
    obtain ⟨r, hr, hok⟩ := visit_spec done steps [] id (KeyMap.mem_keys_iff.1 hsub.1) hall (by simp)
    unfold visitAll
    rw [hr]
    cases r with
    | error e =>
      refine ⟨_, rfl, fun hacyclic => ?_⟩
      obtain ⟨done', h⟩ := hok hacyclic
      cases h
    | ok done' => exact visitAll_spec hsteps ids done' hsub.2

end Visit

/-! ## Up to the order -/

section Ordered

variable {session : Session} {messages messages' : List MessageRow} {parts parts' : List PartRow} {p : Prepared}

theorem find?_self (hn : (messages.map MessageRow.id).Nodup) {m : MessageRow} (hm : m ∈ messages) :
    (messages.find? fun x => x.id = m.id) = some m := by
  rw [← KeyMap.lookup_collect hn]
  exact (KeyMap.mem_values (KeyMap.keyed_collect messages)).1 ((KeyMap.mem_values_collect hn).2 hm)

theorem Prepares.reads (h : Prepares messages parts p) (hn : (messages.map MessageRow.id).Nodup) :
    Reads messages (parentRow messages) p.messagesById p.parentMessages where
  ids := hn
  found m hm := (h.lookup m.id).trans (find?_self hn hm)
  present m hm := by
    unfold presentParent parentRow
    rw [h.parents, find?_self hn hm, Option.bind_some]
    cases hp : assistantParent m with
    | none => rfl
    | some parentId =>
      rw [Option.bind_some, Option.filter_some, h.lookup]
      cases hfound : messages.find? fun x => x.id = parentId with
      | none => rfl
      | some q =>
        have hid : q.id = parentId := by simpa using List.find?_some hfound
        rw [Option.map_some, hid]
        rfl
  inside m q hq := by
    obtain ⟨parentId, -, hfound⟩ := Option.bind_eq_some_iff.1 hq
    exact List.mem_of_find?_eq_some hfound

theorem Prepares.keys_le (h : Prepares messages parts p) : p.parentMessages.keys.length ≤ messages.length := by
  have hsub : p.parentMessages.keys ⊆ messages.map MessageRow.id := by
    intro k hk
    obtain ⟨parentId, hlookup⟩ := Option.isSome_iff_exists.1 (KeyMap.mem_keys_iff.1 hk)
    rw [h.parents] at hlookup
    obtain ⟨m, hfound, -⟩ := Option.bind_eq_some_iff.1 hlookup
    have hid : m.id = k := by simpa using List.find?_some hfound
    exact hid ▸ List.mem_map_of_mem (List.mem_of_find?_eq_some hfound)
  have hle := (p.parentMessages.keys_nodup.subperm hsub).length_le
  rwa [List.length_map] at hle

/-- A chain of parent references to a message leads along the messages. -/
theorem edges_of_names (hn : (messages.map MessageRow.id).Nodup) {a b : Text} (h : TransGen (NamesParent messages) a b)
    {mb : MessageRow} (hmb : mb ∈ messages) (hb : mb.id = b) :
    ∃ ma ∈ messages, ma.id = a ∧ TransGen (Edge (parentRow messages) messages) ma mb := by
  have hedge : ∀ {m q : MessageRow}, m ∈ messages → q ∈ messages → assistantParent m = some q.id →
      Edge (parentRow messages) messages m q := by
    intro m q _ hq hp
    refine ⟨hq, ?_⟩
    unfold parentRow
    rw [hp, Option.bind_some, find?_self hn hq]
  induction h using TransGen.head_induction_on with
  | single hab =>
    obtain ⟨ma, hma, hid, hp⟩ := hab
    exact ⟨ma, hma, hid, .single (hedge hma hmb (hb ▸ hp))⟩
  | head hac _ ih =>
    obtain ⟨mc, hmc, hidc, hpath⟩ := ih
    obtain ⟨ma, hma, hid, hp⟩ := hac
    exact ⟨ma, hma, hid, .head (hedge hma hmc (hidc ▸ hp)) hpath⟩

/-- **Where the messages have an order, no assistant message is above itself.** -/
theorem no_cycle (hn : (messages.map MessageRow.id).Nodup) {ordered : List MessageRow}
    (h : EarliestReady (parentRow messages) readyBefore messages ordered) (id : Text) :
    ¬TransGen (NamesParent messages) id id := by
  intro hcycle
  obtain ⟨_, ⟨m, hm, hid, -⟩, -⟩ := TransGen.head'_iff.1 hcycle
  obtain ⟨m', hm', hid', hpath⟩ := edges_of_names hn hcycle hm hid
  have heq : m' = m := List.inj_on_of_nodup_map hn hm' hm (hid'.trans hid.symm)
  exact h.acyclic hn.of_map m hm (heq ▸ hpath)

theorem Prepares.names_of_up (h : Prepares messages parts p) {a b : Text} (hup : Up p.parentMessages a b) :
    NamesParent messages a b := by
  have hlookup := hup.1
  rw [h.parents] at hlookup
  obtain ⟨m, hfound, hp⟩ := Option.bind_eq_some_iff.1 hlookup
  exact ⟨m, List.mem_of_find?_eq_some hfound, by simpa using List.find?_some hfound, hp⟩

theorem Acceptable.of_perm (h : Acceptable session messages parts) (hm : messages.Perm messages')
    (hp : parts.Perm parts') : Acceptable session messages' parts' where
  checked := h.checked
  messagesAccepted m hmem := h.messagesAccepted m (hm.mem_iff.2 hmem)
  messageIds := (hm.map _).nodup_iff.1 h.messageIds
  partsAccepted part hmem := by
    obtain ⟨⟨hid, htimes, hsession, m, hmess, hmid⟩, htyped⟩ := h.partsAccepted part (hp.mem_iff.2 hmem)
    exact ⟨⟨hid, htimes, hsession, m, hm.mem_iff.1 hmess, hmid⟩, htyped⟩
  partIds := (hp.map _).nodup_iff.1 h.partIds

theorem parentRow_of_perm (hn : (messages.map MessageRow.id).Nodup) (hm : messages.Perm messages') :
    parentRow messages' = parentRow messages := by
  funext m
  unfold parentRow
  congr 1
  funext k
  exact find?_id_perm hn hm.symm k

theorem sortParts_of_perm (hn : (parts.map PartRow.id).Nodup) (hp : parts.Perm parts') :
    sortParts parts = sortParts parts' := by
  have : Std.Total fun a b : PartRow => a.id ≤ b.id := ⟨fun a b => le_total a.id b.id⟩
  have : IsTrans PartRow fun a b => a.id ≤ b.id := ⟨fun a b c hab hbc => le_trans hab hbc⟩
  unfold sortParts
  refine (((List.perm_insertionSort _ parts).trans hp).trans (List.perm_insertionSort _ parts').symm).eq_of_pairwise
    ?_ (List.pairwise_insertionSort _ parts) (List.pairwise_insertionSort _ parts')
  intro a b ha hb hab hba
  refine List.inj_on_of_nodup_map hn ?_ ?_ (le_antisymm hab hba)
  · exact (List.perm_insertionSort _ parts).mem_iff.1 ha
  · exact hp.mem_iff.2 ((List.perm_insertionSort _ parts').mem_iff.1 hb)

end Ordered

/-! ## The entries -/

section Entries

variable {Body : Type}

/-- Every parent is the id of an entry before, and what entries will hang off is the id of an entry. -/
structure Placed (s : Emission Body) (previous : Option Text) : Prop where
  parents : ∀ before e after, s.entries = before ++ e :: after →
    ∀ p ∈ e.parentExternalIds, p ∈ before.map CanonicalEntry.externalId
  anchors : ∀ k a, s.messageAnchor.lookup k = some a → a ∈ s.entries.map CanonicalEntry.externalId
  previous : ∀ a, previous = some a → a ∈ s.entries.map CanonicalEntry.externalId

/-- The entries of a part: they go by its base, each once. -/
structure Cut (base : Text) (block : List (CanonicalEntry Body)) : Prop where
  under : ∀ e ∈ block, Under base e.externalId
  nodup : (block.map CanonicalEntry.externalId).Nodup

theorem mem_dedupParents {parents : List Text} {p : Text} : p ∈ dedupParents parents ↔ p ∈ parents := by
  unfold dedupParents
  rw [List.mem_reverse, List.mem_dedup, List.mem_reverse]

/-- Only what is written about a missing parent changes. -/
theorem warnParent_frame (s : Emission Body) (messageId : Text) :
    (s.warnParent messageId).entries = s.entries ∧ (s.warnParent messageId).messageAnchor = s.messageAnchor := by
  unfold Emission.warnParent
  split <;> exact ⟨rfl, rfl⟩

theorem Placed.snoc {s s' : Emission Body} {previous : Option Text} (hs : Placed s previous)
    {e : CanonicalEntry Body} {k : Text}
    (hentries : s'.entries = s.entries ++ [e]) (hanchor : s'.messageAnchor = s.messageAnchor.insert k e.externalId)
    (hparents : ∀ p ∈ e.parentExternalIds, p ∈ s.entries.map CanonicalEntry.externalId) :
    Placed s' (some e.externalId) where
  parents before x after heq := by
    rw [hentries] at heq
    rcases List.eq_nil_or_concat after with rfl | ⟨init, z, rfl⟩
    · obtain ⟨rfl, hx⟩ := List.append_inj' heq rfl
      obtain rfl : e = x := by simpa using hx
      exact hparents
    · have hlast : s.entries ++ [e] = (before ++ x :: init) ++ [z] := by simp [heq]
      exact hs.parents before x init (List.append_inj' hlast rfl).1
  anchors k' a h := by
    rw [hanchor] at h
    rw [hentries, List.map_append, List.mem_append]
    by_cases hk : k' = k
    · rw [hk, AList.lookup_insert] at h
      obtain rfl := Option.some.inj h
      exact .inr (by simp)
    · rw [AList.lookup_insert_ne hk] at h
      exact .inl (hs.anchors k' a h)
  previous a h := by
    obtain rfl := Option.some.inj h
    rw [hentries]
    simp

variable [Rendering Body] {parents : KeyMap Text Text} {includeTypes : List String} {message : MessageRow}
  {s : Emission Body} {previous : Option Text}

/-- What becomes of an entry that is included. -/
theorem emitEntry_included (parents : KeyMap Text Text) (message : MessageRow) (s : Emission Body)
    (previous : Option Text) {e : CanonicalEntry Body} (h : e.kindTag ∈ includeTypes) :
    ∃ new : CanonicalEntry Body, new.externalId = e.externalId ∧
      (emitEntry parents includeTypes message (s, previous) e).1.entries = s.entries ++ [new] ∧
      (emitEntry parents includeTypes message (s, previous) e).1.messageAnchor =
        s.messageAnchor.insert message.id e.externalId ∧
      (emitEntry parents includeTypes message (s, previous) e).2 = some e.externalId ∧
      ∀ p ∈ new.parentExternalIds, previous = some p ∨ p ∈ keptParents includeTypes e.parentExternalIds ∨
        ∃ k, s.messageAnchor.lookup k = some p := by
  unfold emitEntry
  simp only [h, not_true_eq_false, if_false]
  have hframe : ∀ c : Prop, [Decidable c] → (if c then s.warnParent message.id else s).entries = s.entries ∧
      (if c then s.warnParent message.id else s).messageAnchor = s.messageAnchor := by
    intro c _
    split
    · exact warnParent_frame s message.id
    · exact ⟨rfl, rfl⟩
  rw [(hframe _).1, (hframe _).2]
  refine ⟨_, ?_, rfl, rfl, trivial, fun p hp => ?_⟩
  · rfl
  · simp only [mem_dedupParents, List.mem_append, Option.mem_toList] at hp
    rcases hp with hp | hp | hp
    · exact .inl hp
    · exact .inr (.inl hp)
    · obtain ⟨k, -, hk⟩ := Option.bind_eq_some_iff.1 hp
      exact .inr (.inr ⟨k, hk⟩)

theorem emitEntry_excluded {e : CanonicalEntry Body} (h : e.kindTag ∉ includeTypes) :
    emitEntry parents includeTypes message (s, previous) e = ({ s with filtered := s.filtered + 1 }, previous) := by
  unfold emitEntry
  simp only [h, not_false_eq_true, if_true]

/-- The entries of a part are put one after the other, each after its parents. -/
theorem emitProduced_spec (parents : KeyMap Text Text) (includeTypes : List String) (message : MessageRow) {base : Text}
    {produced : List (CanonicalEntry Body)} (hp : Produced base produced) :
    ∀ (rest front : List (CanonicalEntry Body)) (s : Emission Body) (previous : Option Text),
      produced = front ++ rest → Placed s previous →
      (∀ x ∈ front, x.kindTag ∈ includeTypes → x.externalId ∈ s.entries.map CanonicalEntry.externalId) →
        ∃ s' previous' block, rest.foldl (emitEntry parents includeTypes message) (s, previous) = (s', previous') ∧
          Placed s' previous' ∧ s'.entries = s.entries ++ block ∧
          block.map CanonicalEntry.externalId =
            (rest.filter fun e => e.kindTag ∈ includeTypes).map CanonicalEntry.externalId
  | [], _, s, previous, _, hs, _ => ⟨s, previous, [], rfl, hs, by simp, rfl⟩
  | e :: rest, front, s, previous, heq, hs, hfront => by
    have hkept : ∀ p ∈ keptParents includeTypes e.parentExternalIds, p ∈ s.entries.map CanonicalEntry.externalId := by
      intro p hmem
      unfold keptParents at hmem
      split at hmem
      next htool =>
        obtain ⟨-, x, hx, hkind, rfl⟩ := hp.hangs front e rest heq p hmem
        exact hfront x hx (hkind ▸ htool)
      next htool =>
        obtain ⟨hmem, hkeep⟩ := List.mem_filter.1 hmem
        rw [(hp.hangs front e rest heq p hmem).1] at hkeep
        exact absurd hkeep (by decide)
    rw [List.foldl_cons]
    by_cases hkind : e.kindTag ∈ includeTypes
    · obtain ⟨new, hid, hentries, hanchor, hprevious, hparents⟩ :=
        emitEntry_included parents message s previous hkind
      generalize emitEntry parents includeTypes message (s, previous) e = r at hentries hanchor hprevious
      obtain ⟨s₁, previous₁⟩ := r
      dsimp only at hentries hanchor hprevious
      have hs₁ : Placed s₁ previous₁ := by
        rw [hprevious, ← hid]
        refine hs.snoc hentries (hid ▸ hanchor) fun p hmem => ?_
        rcases hparents p hmem with h | h | ⟨k, h⟩
        · exact hs.previous p h
        · exact hkept p h
        · exact hs.anchors k p h
      obtain ⟨s', previous', block, hfold, hs', hblock, hids⟩ := emitProduced_spec parents includeTypes message hp rest (front ++ [e]) s₁ previous₁
        (by simp [heq]) hs₁ fun x hx hxkind => by
          rw [hentries, List.map_append, List.mem_append]
          rcases List.mem_append.1 hx with hx | hx
          · exact .inl (hfront x hx hxkind)
          · rw [List.mem_singleton.1 hx, ← hid]
            exact .inr (by simp)
      refine ⟨s', previous', new :: block, hfold, hs', by simp [hblock, hentries], ?_⟩
      rw [List.filter_cons_of_pos (by simpa using hkind), List.map_cons, List.map_cons, hid, hids]
    · rw [emitEntry_excluded hkind]
      obtain ⟨s', previous', block, hfold, hs', hblock, hids⟩ := emitProduced_spec parents includeTypes message hp rest (front ++ [e])
        { s with filtered := s.filtered + 1 } previous (by simp [heq]) ⟨hs.parents, hs.anchors, hs.previous⟩
        fun x hx hxkind => by
          rcases List.mem_append.1 hx with hx | hx
          · exact hfront x hx hxkind
          · rw [List.mem_singleton.1 hx] at hxkind
            exact absurd hxkind hkind
      refine ⟨s', previous', block, hfold, hs', hblock, ?_⟩
      rw [List.filter_cons_of_neg (by simpa using hkind), hids]

variable [Base64] {sessionId role : Text} {p : Prepared}

/-- **A part is cut** where the loop stands. -/
theorem emitPart_spec {part : PartRow} {r : Emission Body × Option Text} (hs : Placed s previous)
    (h : emitPart sessionId parents includeTypes message role (s, previous) part = .ok r) :
    Placed r.1 r.2 ∧ ∃ block, r.1.entries = s.entries ++ block ∧ Cut (partBase sessionId message.id part.id) block := by
  unfold emitPart at h
  dsimp only at h
  split at h
  next error noted _ =>
    split at h
    · obtain rfl := Except.ok.inj h
      exact ⟨⟨hs.parents, hs.anchors, hs.previous⟩, [], by simp, by simp, List.nodup_nil⟩
    · cases h
  next produced noted hrun =>
    have hproduced := gives_normalizePart sessionId message part role _ produced noted hrun
    obtain rfl := Except.ok.inj h
    generalize (if produced.isEmpty = true then noted.note (noteEmpty part (partType part)) else noted) = noted'
    obtain ⟨s', previous', block, hfold, hs', hblock, hids⟩ := emitProduced_spec parents includeTypes message
      hproduced produced [] { s with noted := noted' } previous rfl
      ⟨hs.parents, hs.anchors, hs.previous⟩ (by simp)
    rw [hfold]
    have hsub : (block.map CanonicalEntry.externalId).Sublist (produced.map CanonicalEntry.externalId) := by
      rw [hids]
      exact List.filter_sublist.map _
    refine ⟨hs', block, hblock, fun e he => ?_, hsub.nodup hproduced.nodup⟩
    obtain ⟨x, hx, hid⟩ := List.mem_map.1 (hsub.subset (List.mem_map_of_mem he))
    exact hid ▸ hproduced.under x hx

/-- The entries of parts, put one part after the other. -/
def Continues (sessionId : Text) (keys : List (MessageRow × PartRow)) (entries entries' : List (CanonicalEntry Body)) :
    Prop :=
  ∃ blocks : List (List (CanonicalEntry Body)),
    List.Forall₂ (fun key block => Cut (partBase sessionId key.1.id key.2.id) block) keys blocks ∧
      entries' = entries ++ blocks.flatten

omit [Rendering Body] [Base64] in
theorem Continues.nothing (entries : List (CanonicalEntry Body)) : ∀ keys : List (MessageRow × PartRow),
    Continues sessionId keys entries entries
  | [] => ⟨[], .nil, by simp⟩
  | key :: keys => by
    obtain ⟨blocks, hblocks, heq⟩ := Continues.nothing entries keys
    exact ⟨[] :: blocks, .cons ⟨by simp, List.nodup_nil⟩ hblocks, heq⟩

omit [Rendering Body] [Base64] in
theorem Continues.trans {keys keys' : List (MessageRow × PartRow)} {entries entries' entries'' : List (CanonicalEntry Body)}
    (h : Continues sessionId keys entries entries') (h' : Continues sessionId keys' entries' entries'') :
    Continues sessionId (keys ++ keys') entries entries'' := by
  obtain ⟨blocks, hblocks, rfl⟩ := h
  obtain ⟨blocks', hblocks', rfl⟩ := h'
  exact ⟨blocks ++ blocks', List.rel_append hblocks hblocks', by simp⟩

theorem emitParts_spec : ∀ {parts : List PartRow} {r r' : Emission Body × Option Text}, Placed r.1 r.2 →
    parts.foldlM (emitPart sessionId parents includeTypes message role) r = .ok r' →
      Placed r'.1 r'.2 ∧ Continues sessionId (parts.map fun part => (message, part)) r.1.entries r'.1.entries
  | [], r, r', hr, h => by
    obtain rfl := Except.ok.inj h
    exact ⟨hr, .nothing _ []⟩
  | part :: parts, r, r', hr, h => by
    rw [List.foldlM_cons, Except.bind_eq_ok] at h
    obtain ⟨r₁, hpart, hrest⟩ := h
    obtain ⟨hr₁, block, hblock, hcut⟩ := emitPart_spec hr hpart
    obtain ⟨hr', hcontinues⟩ := emitParts_spec hr₁ hrest
    have hone : Continues sessionId [(message, part)] r.1.entries r₁.1.entries := ⟨[block], .cons hcut .nil, by simp [hblock]⟩
    exact ⟨hr', hone.trans hcontinues⟩

/-- The parts of a message, in the order they are cut in. -/
def Prepared.keysOf (p : Prepared) (message : MessageRow) : List (MessageRow × PartRow) :=
  (p.partsOf message.id).map fun part => (message, part)

theorem emitMessage_spec {s' : Emission Body} (hs : Placed s none)
    (h : emitMessage sessionId p includeTypes s message = .ok s') :
    Placed s' none ∧ Continues sessionId (p.keysOf message) s.entries s'.entries := by
  have hskip : ∀ noted, Placed { s with noted := noted } none ∧
      Continues sessionId (p.keysOf message) s.entries { s with noted := noted }.entries :=
    fun noted => ⟨⟨hs.parents, hs.anchors, hs.previous⟩, .nothing _ _⟩
  unfold emitMessage at h
  simp only [Except.bind_eq_ok] at h
  obtain ⟨data, -, role, -, h⟩ := h
  split at h
  · obtain rfl := Except.ok.inj h
    exact hskip _
  · simp only [Except.bind_eq_ok] at h
    obtain ⟨incomplete, -, h⟩ := h
    split at h
    · obtain rfl := Except.ok.inj h
      exact hskip _
    · rw [Except.bind_eq_ok] at h
      obtain ⟨r, hparts, h⟩ := h
      obtain rfl := Except.ok.inj h
      obtain ⟨hr, hcontinues⟩ := emitParts_spec hs hparts
      exact ⟨⟨hr.parents, hr.anchors, fun a h => nomatch h⟩, hcontinues⟩

/-- **The whole loop** cuts the parts of the messages in their order. -/
theorem emitAll_spec : ∀ {ordered : List MessageRow} {s s' : Emission Body}, Placed s none →
    ordered.foldlM (emitMessage sessionId p includeTypes) s = .ok s' →
      Placed s' none ∧ Continues sessionId (ordered.flatMap p.keysOf) s.entries s'.entries
  | [], s, s', hs, h => by
    obtain rfl := Except.ok.inj h
    exact ⟨hs, .nothing _ []⟩
  | message :: ordered, s, s', hs, h => by
    rw [List.foldlM_cons, Except.bind_eq_ok] at h
    obtain ⟨s₁, hmessage, hrest⟩ := h
    obtain ⟨hs₁, hone⟩ := emitMessage_spec hs hmessage
    obtain ⟨hs', hmore⟩ := emitAll_spec hs₁ hrest
    exact ⟨hs', hone.trans hmore⟩

end Entries

/-! ## Ids -/

/-- What goes by a base is it, or it and more after a colon. -/
theorem under_iff {base id : Text} : Under base id ↔ id = base ∨ base ++ [':'] <+: id := by
  unfold Under
  refine or_congr_right ?_
  constructor
  · rintro ⟨rest, rfl⟩
    exact ⟨rest, by simp⟩
  · rintro ⟨rest, rfl⟩
    exact ⟨rest, by simp⟩

instance (base id : Text) : Decidable (Under base id) := decidable_of_iff' _ under_iff

/-- Of texts without a colon, what comes before the first colon tells them apart. -/
theorem until_colon {xs ys tail tail' : Text} (hx : ':' ∉ xs) (hy : ':' ∉ ys) (ht : tail = [] ∨ ∃ r, tail = ':' :: r)
    (ht' : tail' = [] ∨ ∃ r, tail' = ':' :: r) (h : xs ++ tail = ys ++ tail') : xs = ys := by
  have hcut : ∀ {zs t : Text}, ':' ∉ zs → (t = [] ∨ ∃ r, t = ':' :: r) → (zs ++ t).takeWhile (· ≠ ':') = zs := by
    intro zs t hz ht
    have hall : ∀ c ∈ zs, (decide (c ≠ ':')) = true := fun c hc => by simpa using fun h : c = ':' => hz (h ▸ hc)
    rw [List.takeWhile_append_of_pos hall]
    rcases ht with rfl | ⟨r, rfl⟩ <;> simp
  rw [← hcut hx ht, h, hcut hy ht']

theorem under_tail {base id : Text} (h : Under base id) : ∃ tail, id = base ++ tail ∧ (tail = [] ∨ ∃ r, tail = ':' :: r) := by
  rcases h with rfl | ⟨rest, rfl⟩
  · exact ⟨[], by simp, .inl rfl⟩
  · exact ⟨':' :: rest, rfl, .inr ⟨rest, rfl⟩⟩

/-- **An id goes by the base of one part.** -/
theorem under_partBase {sessionId m m' p p' id : Text} (hm : ':' ∉ m) (hm' : ':' ∉ m') (hp : ':' ∉ p) (hp' : ':' ∉ p')
    (h : Under (partBase sessionId m p) id) (h' : Under (partBase sessionId m' p') id) : m = m' ∧ p = p' := by
  obtain ⟨tail, rfl, htail⟩ := under_tail h
  obtain ⟨tail', heq, htail'⟩ := under_tail h'
  have hpart : ":part:".toList = ':' :: "part:".toList := by decide
  unfold partBase at heq
  simp only [List.append_assoc, List.append_cancel_left_eq, hpart, List.cons_append] at heq
  obtain ⟨rfl, hrest⟩ := Netstring.before_colon hm hm' heq
  exact ⟨rfl, until_colon hp hp' htail htail' (List.append_cancel_left hrest)⟩

theorem colon_not_mem {start id : Text} (h : validId start id = true) : ':' ∉ id := by
  unfold validId at h
  simp only [Bool.and_eq_true, Bool.not_eq_true', List.contains_eq_mem, decide_eq_false_iff_not] at h
  exact h.2

/-! ## What is answered -/

section Answer

variable {Body : Type}

/-- **A session's entries in order**: ids of their own, import order by position, parents at earlier positions;
the messages parents first and the earliest ready one next, and of a message the entries of one part after
the other by the parts' ids. -/
structure Normalized (sessionId : Text) (messages : List MessageRow) (parts : List PartRow)
    (entries : List (CanonicalEntry Body)) : Prop where
  nodup : (entries.map CanonicalEntry.externalId).Nodup
  position : ∀ (i : Nat) (e : CanonicalEntry Body), entries[i]? = some e → e.importOrder = i
  parents : ∀ (i : Nat) (e : CanonicalEntry Body), entries[i]? = some e → ∀ p ∈ e.parentExternalIds,
    ∃ (j : Nat) (e' : CanonicalEntry Body), j < i ∧ entries[j]? = some e' ∧ e'.externalId = p
  ordered : ∃ ordered, EarliestReady (parentRow messages) readyBefore messages ordered ∧
    entries = ordered.flatMap fun m => (sortParts (parts.filter fun part => part.messageId = m.id)).flatMap fun part =>
      entries.filter fun e => Under (partBase sessionId m.id part.id) e.externalId

theorem numbered_ids (entries : List (CanonicalEntry Body)) :
    (numbered entries).map CanonicalEntry.externalId = entries.map CanonicalEntry.externalId := by
  unfold numbered
  exact List.ext_getElem? fun i => by simp [List.getElem?_mapIdx, Function.comp_def]

theorem getElem?_numbered (entries : List (CanonicalEntry Body)) (i : Nat) :
    (numbered entries)[i]? = entries[i]?.map fun e => { e with importOrder := (i : Int) } := List.getElem?_mapIdx

section Keys

variable {messages ordered : List MessageRow} {parts : List PartRow} {p : Prepared} {session : Session}

theorem mem_keysOf (h : Prepares messages parts p) {key : MessageRow × PartRow} :
    key ∈ ordered.flatMap p.keysOf ↔ key.1 ∈ ordered ∧ key.2 ∈ parts ∧ key.2.messageId = key.1.id := by
  obtain ⟨m, part⟩ := key
  simp only [List.mem_flatMap, Prepared.keysOf, h.partsOf, sortParts, List.mem_map, List.mem_insertionSort,
    List.mem_filter, decide_eq_true_eq, Prod.mk.injEq]
  constructor
  · rintro ⟨_, hm, _, ⟨hpart, hid⟩, rfl, rfl⟩
    exact ⟨hm, hpart, hid⟩
  · rintro ⟨hm, hpart, hid⟩
    exact ⟨m, hm, part, ⟨hpart, hid⟩, rfl, rfl⟩

theorem nodup_keysOf (h : Prepares messages parts p) (hn : ordered.Nodup) (hparts : parts.Nodup) :
    (ordered.flatMap p.keysOf).Nodup := by
  rw [List.nodup_flatMap]
  constructor
  · intro m _
    unfold Prepared.keysOf
    rw [h.partsOf]
    refine List.Nodup.map (fun a b hab => (Prod.mk.inj hab).2) ?_
    exact (List.perm_insertionSort _ _).nodup_iff.2 (hparts.filter _)
  · refine hn.imp fun hne key hkey hkey' => hne ?_
    obtain ⟨_, -, rfl⟩ := List.mem_map.1 hkey
    obtain ⟨_, -, heq⟩ := List.mem_map.1 hkey'
    exact (congrArg Prod.fst heq).symm

/-- No id goes by the bases of two parts. -/
theorem keysOf_apart (hp : Prepares messages parts p) (h : Acceptable session messages parts)
    (hordered : ordered.Perm messages) (sessionId : Text) :
    (ordered.flatMap p.keysOf).Pairwise fun key key' => ∀ id, Under (partBase sessionId key.1.id key.2.id) id →
      ¬Under (partBase sessionId key'.1.id key'.2.id) id := by
  have hn := nodup_keysOf hp (hordered.nodup_iff.2 h.messageIds.of_map) h.partIds.of_map
  refine hn.pairwise_of_forall_ne fun key hkey key' hkey' hne id hunder hunder' => hne ?_
  obtain ⟨hm, hpart, -⟩ := (mem_keysOf hp).1 hkey
  obtain ⟨hm', hpart', -⟩ := (mem_keysOf hp).1 hkey'
  have hmessage : ∀ m ∈ ordered, ':' ∉ m.id :=
    fun m hm => colon_not_mem (h.messagesAccepted m (hordered.mem_iff.1 hm)).1.1
  have hpartId : ∀ part ∈ parts, ':' ∉ part.id := fun part hpart => colon_not_mem (h.partsAccepted part hpart).1.1
  obtain ⟨hid, hpid⟩ := under_partBase (hmessage _ hm) (hmessage _ hm') (hpartId _ hpart) (hpartId _ hpart') hunder hunder'
  exact Prod.ext
    (List.inj_on_of_nodup_map h.messageIds (hordered.mem_iff.1 hm) (hordered.mem_iff.1 hm') hid)
    (List.inj_on_of_nodup_map h.partIds hpart hpart' hpid)

end Keys

variable [Base64] [Rendering Body] {messages ordered : List MessageRow} {parts : List PartRow} {p : Prepared}
  {session : Session} {includeTypes : List String} {result : Import Body}

/-- **What the loop over ordered messages answers is in order.** -/
theorem emitMessages_normalized (hp : Prepares messages parts p) (h : Acceptable session messages parts)
    (hordered : EarliestReady (parentRow messages) readyBefore messages ordered)
    (hemit : emitMessages session.row.id p includeTypes ordered = .ok result) :
    Normalized session.row.id messages parts result.entries := by
  unfold emitMessages at hemit
  rw [Except.bind_eq_ok] at hemit
  obtain ⟨s, hloop, hresult⟩ := hemit
  obtain rfl := Except.ok.inj hresult
  have hstart : Placed (⟨[], 0, .start, [], [], ∅⟩ : Emission Body) none :=
    ⟨fun before e after heq => absurd heq (by simp), fun k a hk => by simp [AList.lookup_empty] at hk,
      fun a ha => nomatch ha⟩
  obtain ⟨hs, blocks, hblocks, heq⟩ := emitAll_spec hstart hloop
  rw [List.nil_append] at heq
  have hpieces : List.Forall₂ (fun (key : MessageRow × PartRow) piece =>
      (∀ id ∈ piece, Under (partBase session.row.id key.1.id key.2.id) id) ∧ piece.Nodup) (ordered.flatMap p.keysOf)
      (blocks.map fun block => block.map CanonicalEntry.externalId) := by
    rw [List.forall₂_map_right_iff]
    refine hblocks.imp fun key block hcut => ⟨fun id hid => ?_, hcut.nodup⟩
    obtain ⟨e, he, rfl⟩ := List.mem_map.1 hid
    exact hcut.under e he
  have hids : s.entries.map CanonicalEntry.externalId =
      (blocks.map fun block => block.map CanonicalEntry.externalId).flatten := by rw [heq, List.map_flatten]
  have hapart := keysOf_apart hp h hordered.perm session.row.id
  refine ⟨?_, fun i e hi => ?_, fun i e hi q hq => ?_, ordered, hordered, ?_⟩
  · rw [numbered_ids, hids]
    exact List.nodup_flatten_of_keys hpieces hapart
  · rw [getElem?_numbered] at hi
    obtain ⟨_, -, rfl⟩ := Option.map_eq_some_iff.1 hi
    rfl
  · rw [getElem?_numbered] at hi
    obtain ⟨e', hi', rfl⟩ := Option.map_eq_some_iff.1 hi
    obtain ⟨hlt, rfl⟩ := List.getElem?_eq_some_iff.1 hi'
    have hsplit : s.entries = s.entries.take i ++ s.entries[i] :: s.entries.drop (i + 1) := by simp
    obtain ⟨x, hx, rfl⟩ := List.mem_map.1 (hs.parents _ _ _ hsplit q hq)
    obtain ⟨j, hj, hxj⟩ := List.mem_take_iff_getElem.1 hx
    refine ⟨j, { x with importOrder := (j : Int) }, by omega, ?_, rfl⟩
    rw [getElem?_numbered, List.getElem?_eq_getElem (by omega), hxj]
    rfl
  · have hcut := List.eq_flatMap_filter CanonicalEntry.externalId (hpieces.imp fun _ _ h => h.1) hapart
      ((numbered_ids _).trans hids)
    refine hcut.trans ?_
    rw [List.flatMap_assoc]
    refine List.flatMap_congr fun m _ => ?_
    unfold Prepared.keysOf
    rw [hp.partsOf, List.flatMap_map]

/-! ## Any order of the rows -/

theorem emitEntry_congr {parents parents' : KeyMap Text Text} (h : ∀ k, parents.lookup k = parents'.lookup k)
    (includeTypes : List String) (message : MessageRow) :
    emitEntry parents includeTypes message = emitEntry parents' includeTypes message := by
  funext s e
  unfold emitEntry
  rw [h]

/-- The loop reads the parts and parents of the messages only. -/
theorem emitMessages_congr {p p' : Prepared} (hparts : ∀ k, p.partsOf k = p'.partsOf k)
    (hparents : ∀ k, p.parentMessages.lookup k = p'.parentMessages.lookup k) (sessionId : Text)
    (includeTypes : List String) (ordered : List MessageRow) :
    emitMessages sessionId p includeTypes ordered = emitMessages sessionId p' includeTypes ordered := by
  have hmessage : emitMessage sessionId p includeTypes = emitMessage sessionId p' includeTypes := by
    funext s message
    unfold emitMessage
    simp only [hparts]
    have hpart : ∀ role, emitPart sessionId p.parentMessages includeTypes message role =
        emitPart sessionId p'.parentMessages includeTypes message role := by
      intro role
      funext r part
      unfold emitPart
      rw [emitEntry_congr hparents]
    simp only [hpart]
  unfold emitMessages
  rw [hmessage]

/-- What the loop answers is the same for the same rows in another order. -/
theorem Prepares.emitMessages_perm (h : Prepares messages parts p) (haccept : Acceptable session messages parts)
    {messages' : List MessageRow} {parts' : List PartRow} {p' : Prepared} (h' : Prepares messages' parts' p')
    (hm : messages.Perm messages') (hparts : parts.Perm parts') :
    emitMessages session.row.id p includeTypes ordered = emitMessages session.row.id p' includeTypes ordered := by
  refine emitMessages_congr (fun k => ?_) (fun k => ?_) _ _ _
  · rw [h.partsOf, h'.partsOf]
    exact sortParts_of_perm (haccept.partIds.sublist (List.filter_sublist.map _)) (hparts.filter _)
  · rw [h.parents, h'.parents, find?_id_perm haccept.messageIds hm.symm]

/-- **What is answered**: the loop over the messages in their order, or an error when they have none. -/
theorem normalizeSession_spec (orders : Orders) (includeTypes : List String) {steps : Nat} (hsteps : messages.length < steps)
    (hprepare : prepare orders session messages parts = .ok p) :
    ∃ r : Except String (Import Body), normalizeSession orders steps session messages parts includeTypes = some r ∧
      (∀ ordered, EarliestReady (parentRow messages) readyBefore messages ordered →
        r = emitMessages session.row.id p includeTypes ordered) ∧
      ((∃ e, r = .error e) ∨ ∃ ordered, EarliestReady (parentRow messages) readyBefore messages ordered) := by
  have hp := prepares hprepare
  have hn := (prepare_ok.1 hprepare).1.messageIds
  have hkeys := orders.parents.perm p.parentMessages.keys
  obtain ⟨found, hfound, hacyclic⟩ := visitAll_spec (lt_of_le_of_lt hp.keys_le hsteps)
    (orders.parents.arrange p.parentMessages.keys) [] hkeys.subset
  obtain ⟨o, ho, horder⟩ := orderMessages_spec (hp.reads hn) hp.values orders.ready hsteps
  unfold normalizeSession detectParentCycle
  rw [hprepare]
  dsimp only
  rw [hfound]
  cases found with
  | error e =>
    refine ⟨_, rfl, fun ordered hordered => ?_, .inl ⟨e, rfl⟩⟩
    have hok := hacyclic fun x hx => no_cycle hn hordered x
      (TransGen.mono (fun _ _ h => hp.names_of_up h) _ _ hx)
    cases hok
  | ok u =>
    dsimp only
    rw [ho]
    cases o with
    | error e =>
      refine ⟨_, rfl, fun ordered hordered => ?_, .inl ⟨e, rfl⟩⟩
      cases (horder ordered).2 hordered
    | ok ordered =>
      refine ⟨_, rfl, fun ordered' hordered' => ?_, .inr ⟨ordered, (horder ordered).1 rfl⟩⟩
      rw [Except.ok.inj ((horder ordered').2 hordered')]

/-- A session whose rows cannot be put into maps fails. -/
theorem normalizeSession_error {orders : Orders} {steps : Nat} {e : String}
    (h : prepare orders session messages parts = .error e) :
    (normalizeSession orders steps session messages parts includeTypes : Option (Except String (Import Body))) =
      some (.error e) := by
  unfold normalizeSession
  rw [h]

/-- **Normalizing a session does not depend on the order of its rows or of the hash maps. What it answers is in
order, and it answers nothing when assistant messages are above themselves.** -/
theorem normalizeSession_ordered (session : Session) (messages : List MessageRow) (parts : List PartRow)
    (includeTypes : List String) :
    (∀ (orders orders' : Orders) (messages' : List MessageRow) (parts' : List PartRow), messages.Perm messages' →
      parts.Perm parts' → ∀ steps > messages.length, ∀ steps' > messages.length, ∃ r r' : Except String (Import Body),
        normalizeSession orders steps session messages parts includeTypes = some r ∧
        normalizeSession orders' steps' session messages' parts' includeTypes = some r' ∧ r.toOption = r'.toOption) ∧
      (∀ (orders : Orders), ∀ steps > messages.length, ∀ result : Import Body,
        normalizeSession orders steps session messages parts includeTypes = some (.ok result) →
          Normalized session.row.id messages parts result.entries) ∧
      ((∃ id, TransGen (NamesParent messages) id id) → ∀ (orders : Orders), ∀ steps > messages.length,
        ∃ e, (normalizeSession orders steps session messages parts includeTypes : Option (Except String (Import Body))) =
          some (.error e)) := by
  refine ⟨fun orders orders' messages' parts' hm hparts steps hsteps steps' hsteps' => ?_,
    fun orders steps hsteps result h => ?_, fun ⟨id, hcycle⟩ orders steps hsteps => ?_⟩
  · rcases prepare_or orders session messages parts with ⟨p, hp⟩ | ⟨hbad, e, he⟩
    · have haccept := (prepare_ok.1 hp).1
      obtain ⟨p', hp'⟩ := (prepare_or orders' session messages' parts').resolve_right
        fun hbad => hbad.1 (haccept.of_perm hm hparts)
      obtain ⟨r, hr, hrun, hfail⟩ := normalizeSession_spec orders includeTypes hsteps hp
      obtain ⟨r', hr', hrun', hfail'⟩ := normalizeSession_spec orders' includeTypes (hm.length_eq ▸ hsteps') hp'
      refine ⟨r, r', hr, hr', ?_⟩
      have hsame : ∀ ordered, EarliestReady (parentRow messages) readyBefore messages ordered ↔
          EarliestReady (parentRow messages') readyBefore messages' ordered := by
        intro ordered
        rw [parentRow_of_perm haccept.messageIds hm]
        exact ⟨fun h => h.of_perm hm, fun h => h.of_perm hm.symm⟩
      by_cases hex : ∃ ordered, EarliestReady (parentRow messages) readyBefore messages ordered
      · obtain ⟨ordered, hordered⟩ := hex
        rw [hrun ordered hordered, hrun' ordered ((hsame ordered).1 hordered)]
        rw [(prepares hp).emitMessages_perm haccept (prepares hp') hm hparts]
      · obtain ⟨e, rfl⟩ := hfail.resolve_right hex
        obtain ⟨e', rfl⟩ := hfail'.resolve_right fun ⟨ordered, h⟩ => hex ⟨ordered, (hsame ordered).2 h⟩
        rfl
    · obtain ⟨e', he'⟩ : ∃ e', prepare orders' session messages' parts' = .error e' := by
        rcases prepare_or orders' session messages' parts' with ⟨p', hp'⟩ | ⟨-, he'⟩
        · exact absurd ((prepare_ok.1 hp').1.of_perm hm.symm hparts.symm) hbad
        · exact he'
      exact ⟨.error e, .error e', normalizeSession_error he, normalizeSession_error he', rfl⟩
  · rcases prepare_or orders session messages parts with ⟨p, hp⟩ | ⟨-, e, he⟩
    · obtain ⟨r, hr, hrun, hfail⟩ := normalizeSession_spec orders includeTypes hsteps hp
      obtain rfl := Option.some.inj (hr.symm.trans h)
      obtain ⟨ordered, hordered⟩ := hfail.resolve_left fun ⟨e, he⟩ => nomatch he
      exact emitMessages_normalized (prepares hp) (prepare_ok.1 hp).1 hordered (hrun ordered hordered).symm
    · rw [normalizeSession_error he] at h
      cases h
  · rcases prepare_or orders session messages parts with ⟨p, hp⟩ | ⟨-, e, he⟩
    · obtain ⟨r, hr, -, hfail⟩ := normalizeSession_spec orders includeTypes hsteps hp
      rcases hfail with ⟨e, rfl⟩ | ⟨ordered, hordered⟩
      · exact ⟨e, hr⟩
      · exact absurd hcycle (no_cycle (prepare_ok.1 hp).1.messageIds hordered id)
    · exact ⟨e, normalizeSession_error he⟩

end Answer

/-! ## A user message that names a parent -/

/-- Nothing is rendered, no base64 decoded. -/
@[reducible] def bare : Rendering Unit where
  text _ _ := ()
  toolCall _ := ()
  toolOutput _ _ := ()
  file _ _ _ := ()
  withoutUsage _ := ()
  toJson _ := []
  urlParses _ := false

@[reducible] def noBase64 : Base64 := ⟨fun _ => none⟩

def asStored : MapOrder := ⟨fun l => l, fun _ => List.Perm.refl _⟩

/-- A user message with these fields, and its one text part. -/
def userMessage (id : Text) (createdAtMs : Int) (more : Fields) : MessageRow :=
  ⟨id, "ses_a".toList, createdAtMs, createdAtMs, .object (("role", .string "user".toList) :: more)⟩

def textOf (id messageId : Text) : PartRow :=
  ⟨id, messageId, "ses_a".toList, 1, 1, .object [("type", .string "text".toList), ("text", .string "hello".toList)]⟩

/-- The first message names the second as its parent. -/
def named : List MessageRow :=
  [userMessage "msg_b".toList 1 [("parentID", .string "msg_c".toList)], userMessage "msg_c".toList 2 []]

def namedParts : List PartRow := [textOf "prt_b".toList "msg_b".toList, textOf "prt_c".toList "msg_c".toList]

/-- **A user message comes before the message its `parentID` names**, when it is older. -/
theorem user_before_parent :
    ((named.map fun m => (m.data.get "parentID").bind Data.asStr) = [some "msg_c".toList, none]) ∧
      ((@normalizeSession Unit noBase64 bare ⟨asStored, asStored, asStored, asStored⟩ 3
          ⟨⟨"ses_a".toList, 1, 1, none, none⟩, none⟩ named namedParts ["user"]).map fun r =>
        r.toOption.map fun result => result.entries.map CanonicalEntry.externalId) =
      some (some [partBase "ses_a".toList "msg_b".toList "prt_b".toList,
        partBase "ses_a".toList "msg_c".toList "prt_c".toList]) := by
  decide +kernel

end MemoryStore.AgentImport.OpenCode
