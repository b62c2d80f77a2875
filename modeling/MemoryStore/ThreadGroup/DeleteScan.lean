/-
The recursive delete while others write. `delete_thread_with_policy` reads its
targets query by query on the pool, before its transaction begins, and the
transaction takes them as they were read: it reads the keys and the identities
of its targets again, but neither the relations nor the holders of their keys.
-/
import MemoryStore.Lib.Closure
import MemoryStore.ThreadGroup.Cohesion
import MemoryStore.ThreadGroup.Deletion
import MemoryStore.ThreadGroup.Scenario

namespace MemoryStore.ThreadGroup

open Tx Table Closure

/-! ## The scan -/

/-- Where the reads of a recursive delete stand: before the root's key, walking down the
relations, resolving the keys found (those looked up and those to come), or done. -/
inductive Scan where
  | start
  | walking (queue targetKeys : List Key)
  | resolving (looked unread : List Key) (resolved : List Nat)
  | ready (targetKeys : List Key) (targets : List Nat)
  deriving DecidableEq, Repr

/-- The next query of the scan. -/
def Scan.query (rootThreadId : Nat) (s : Store) : Scan → Scan
  | .start =>
    match s.findKeyByThreadId rootThreadId with
    | none => .ready [] [rootThreadId]
    | some rootKey => .walking [rootKey.key] [rootKey.key]
  | .walking [] targetKeys => .resolving [] targetKeys []
  | .walking (parentKey :: queue) targetKeys =>
    let (queue, targetKeys) := pushChildren (s.listActiveByParent parentKey) queue targetKeys
    .walking queue targetKeys
  | .resolving looked [] resolved =>
    .ready looked (if rootThreadId ∈ resolved then resolved else resolved ++ [rootThreadId])
  | .resolving looked (key :: unread) resolved =>
    match s.findByKey key with
    | none => .resolving (looked ++ [key]) unread resolved
    | some row =>
      if row.threadId ∈ resolved then .resolving (looked ++ [key]) unread resolved
      else .resolving (looked ++ [key]) unread (resolved ++ [row.threadId])
  | .ready targetKeys targets => .ready targetKeys targets

/-- The keys whose children the scan has read. -/
def Scan.walked : Scan → List Key
  | .start => []
  | .walking queue targetKeys => targetKeys.filter (· ∉ queue)
  | .resolving looked unread _ => looked ++ unread
  | .ready targetKeys _ => targetKeys

/-- The keys whose holders the scan has read. -/
def Scan.looked : Scan → List Key
  | .start => []
  | .walking .. => []
  | .resolving looked .. => looked
  | .ready targetKeys _ => targetKeys

/-- The children of a key. -/
def Store.childKeys (s : Store) (key : Key) : List Key :=
  (s.listActiveByParent key).map RelationRow.childThreadCanonicalKey

/-- The thread that holds a key. -/
def Store.holder (s : Store) (key : Key) : Option Nat := (s.findByKey key).map ThreadCanonicalKeyRow.threadId

/-- What the scan has read still stands in the later store: the root's key, the children of the keys
walked, and the holders of the keys looked up. -/
structure Scan.Stands (rootThreadId : Nat) (scan : Scan) (s s' : Store) : Prop where
  root : scan ≠ .start → s'.keyOf rootThreadId = s.keyOf rootThreadId
  walked : ∀ key ∈ scan.walked, ∀ child, child ∈ s'.childKeys key ↔ child ∈ s.childKeys key
  looked : ∀ key ∈ scan.looked, s'.holder key = s.holder key

instance Scan.decidableStands (rootThreadId : Nat) (scan : Scan) (s s' : Store) :
    Decidable (scan.Stands rootThreadId s s') :=
  decidable_of_iff ((scan ≠ .start → s'.keyOf rootThreadId = s.keyOf rootThreadId) ∧
    (∀ key ∈ scan.walked, (∀ child ∈ s'.childKeys key, child ∈ s.childKeys key) ∧
      ∀ child ∈ s.childKeys key, child ∈ s'.childKeys key) ∧
    ∀ key ∈ scan.looked, s'.holder key = s.holder key)
    ⟨fun ⟨hr, hw, hl⟩ => ⟨hr, fun key hk child => ⟨(hw key hk).1 child, (hw key hk).2 child⟩, hl⟩,
      fun h => ⟨h.root, fun key hk => ⟨fun child => (h.walked key hk child).1, fun child => (h.walked key hk child).2⟩,
        h.looked⟩⟩

/-- One key is above another along active relations, whether or not the keys between have threads. -/
def Store.ReachesDown (s : Store) : Key → Key → Prop := Relation.ReflTransGen fun key child => child ∈ s.childKeys key

/-- The threads a recursive delete is to take: the root, and the holders of the keys its key reaches down to. -/
def Store.Below (s : Store) (rootThreadId threadId : Nat) : Prop :=
  threadId = rootThreadId ∨
    ∃ rootKey key, s.keyOf rootThreadId = some rootKey ∧ s.HasKey threadId key ∧ s.ReachesDown rootKey key

/-- The thread is there. -/
def Store.Live (s : Store) (threadId : Nat) : Prop := ∃ row ∈ s.threads, row.id = threadId

instance (s : Store) (threadId : Nat) : Decidable (s.Live threadId) := by
  unfold Store.Live
  infer_instance

section Walk

/-- What pushing the children of one parent leaves on the queue and among the targets. -/
theorem pushChildren_spec : ∀ (relations : List RelationRow) (queue targetKeys : List Key),
    (∀ k, k ∈ (pushChildren relations queue targetKeys).2 ↔
      k ∈ targetKeys ∨ k ∈ relations.map RelationRow.childThreadCanonicalKey) ∧
    (∀ k, k ∈ (pushChildren relations queue targetKeys).1 ↔
      k ∈ queue ∨ k ∈ (pushChildren relations queue targetKeys).2 ∧ k ∉ targetKeys) ∧
    (queue ⊆ targetKeys → queue.Nodup → (pushChildren relations queue targetKeys).1.Nodup)
  | [], queue, targetKeys => by simp [pushChildren]
  | relation :: relations, queue, targetKeys => by
    simp only [pushChildren]
    split
    · next hin =>
      obtain ⟨hkeys, hqueue, hnd⟩ := pushChildren_spec relations queue targetKeys
      refine ⟨fun k => ?_, hqueue, hnd⟩
      rw [hkeys, List.map_cons, List.mem_cons]
      constructor
      · exact fun h => h.imp_right .inr
      · rintro (h | rfl | h)
        exacts [.inl h, .inl hin, .inr h]
    · next hnew =>
      obtain ⟨hkeys, hqueue, hnd⟩ := pushChildren_spec relations (relation.childThreadCanonicalKey :: queue)
        (targetKeys ++ [relation.childThreadCanonicalKey])
      refine ⟨fun k => ?_, fun k => ?_, fun hsub hq => hnd (fun k hk => ?_) ?_⟩
      · rw [hkeys]
        simp [or_assoc]
      · have hchild := (hkeys relation.childThreadCanonicalKey).2 (.inl (by simp))
        rw [hqueue]
        by_cases hk : k = relation.childThreadCanonicalKey
        · subst hk
          simp [hnew, hchild]
        · simp [hk]
      · rcases List.mem_cons.1 hk with rfl | hk
        · simp
        · exact List.mem_append_left _ (hsub hk)
      · exact List.nodup_cons.2 ⟨fun hm => hnew (hsub hm), hq⟩

/-- The child of a key, as a relation on keys. -/
abbrev Store.Child (s : Store) (key child : Key) : Prop := child ∈ s.childKeys key

/-- The threads read so far are the holders of the keys looked up. -/
def Store.Resolved (s : Store) (looked : List Key) (resolved : List Nat) : Prop :=
  ∀ t, t ∈ resolved ↔ ∃ key ∈ looked, s.holder key = some t

/-- What the scan has read is what the store says. -/
def Scan.Agrees (rootThreadId : Nat) (s : Store) : Scan → Prop
  | .start => True
  | .walking queue targetKeys => ∃ rootKey, s.keyOf rootThreadId = some rootKey ∧
      Explored s.Child rootKey queue targetKeys
  | .resolving looked unread resolved => ∃ rootKey, s.keyOf rootThreadId = some rootKey ∧
      Explored s.Child rootKey [] (looked ++ unread) ∧ s.Resolved looked resolved
  | .ready targetKeys targets => (∀ t, t ∈ targets ↔ t = rootThreadId ∨ ∃ key ∈ targetKeys, s.holder key = some t) ∧
      ((s.keyOf rootThreadId = none ∧ targetKeys = []) ∨
        ∃ rootKey, s.keyOf rootThreadId = some rootKey ∧ Explored s.Child rootKey [] targetKeys)

variable {rootThreadId : Nat} {s s' : Store}

theorem Store.Resolved.look {looked : List Key} {resolved : List Nat} (h : s.Resolved looked resolved) {key : Key}
    {resolved' : List Nat} (hread : ∀ t, t ∈ resolved' ↔ t ∈ resolved ∨ s.holder key = some t) :
    s.Resolved (looked ++ [key]) resolved' := fun t => by
  rw [hread, h t]
  constructor
  · rintro (⟨k, hk, ht⟩ | ht)
    · exact ⟨k, List.mem_append_left _ hk, ht⟩
    · exact ⟨key, by simp, ht⟩
  · rintro ⟨k, hk, ht⟩
    rcases List.mem_append.1 hk with hk | hk
    · exact .inl ⟨k, hk, ht⟩
    · obtain rfl := List.mem_singleton.1 hk
      exact .inr ht

/-- The next query keeps what was read and what it reads in agreement with the store. -/
theorem Scan.Agrees.query : ∀ {scan : Scan}, scan.Agrees rootThreadId s → (scan.query rootThreadId s).Agrees rootThreadId s
  | .start, _ => by
    cases hrow : s.findKeyByThreadId rootThreadId with
    | none =>
      simp only [Scan.query, hrow]
      exact ⟨fun t => by simp, .inl ⟨by simp [Store.keyOf, hrow], rfl⟩⟩
    | some rootKey =>
      simp only [Scan.query, hrow]
      exact ⟨rootKey.key, by simp [Store.keyOf, hrow], .init⟩
  | .walking [] targetKeys, ⟨rootKey, hkey, h⟩ => ⟨rootKey, hkey, by simpa using h, fun t => by simp⟩
  | .walking (parentKey :: queue) targetKeys, ⟨rootKey, hkey, h⟩ => by
    obtain ⟨hkeys, hqueue, hnd⟩ := pushChildren_spec (s.listActiveByParent parentKey) queue targetKeys
    have hsub : queue ⊆ targetKeys := fun k hk => h.pending (List.mem_cons_of_mem _ hk)
    exact ⟨rootKey, hkey, h.visit hkeys hqueue (hnd hsub (List.nodup_cons.1 h.nodup).2)⟩
  | .resolving looked [] resolved, ⟨rootKey, hkey, h, hres⟩ => by
    refine ⟨fun t => ?_, .inr ⟨rootKey, hkey, by simpa using h⟩⟩
    rw [← hres t]
    split
    · next hin =>
      constructor
      · exact .inr
      · rintro (rfl | ht)
        exacts [hin, ht]
    · simp [or_comm]
  | .resolving looked (key :: unread) resolved, ⟨rootKey, hkey, h, hres⟩ => by
    have h' : Explored s.Child rootKey [] ((looked ++ [key]) ++ unread) := by simpa using h
    simp only [Scan.query]
    split
    · next hnone => exact ⟨rootKey, hkey, h', hres.look fun t => by simp [Store.holder, hnone]⟩
    · next row hrow =>
      split
      · next hin =>
        refine ⟨rootKey, hkey, h', hres.look fun t => ?_⟩
        simp only [Store.holder, hrow, Option.map_some, Option.some.injEq]
        constructor
        · exact .inl
        · rintro (ht | rfl)
          exacts [ht, hin]
      · refine ⟨rootKey, hkey, h', hres.look fun t => ?_⟩
        simp [Store.holder, hrow, eq_comm]
  | .ready targetKeys targets, h => h

/-- Another's transaction that what was read stands after, keeps the agreement. -/
theorem Scan.Agrees.stands : ∀ {scan : Scan}, scan.Agrees rootThreadId s → scan.Stands rootThreadId s s' →
    scan.Agrees rootThreadId s'
  | .start, _, _ => trivial
  | .walking queue targetKeys, ⟨rootKey, hkey, h⟩, hst => by
    refine ⟨rootKey, (hst.root (by simp)).trans hkey, h.congr fun a ha hn b => ?_⟩
    exact hst.walked a (List.mem_filter.2 ⟨ha, by simpa using hn⟩) b
  | .resolving looked unread resolved, ⟨rootKey, hkey, h, hres⟩, hst => by
    refine ⟨rootKey, (hst.root (by simp)).trans hkey, h.congr fun a ha _ b => hst.walked a ha b, fun t => ?_⟩
    rw [hres t]
    exact exists_congr fun k => and_congr_right fun hk => by rw [hst.looked k hk]
  | .ready targetKeys targets, ⟨htargets, hroot⟩, hst => by
    refine ⟨fun t => ?_, ?_⟩
    · rw [htargets t]
      exact or_congr_right (exists_congr fun k => and_congr_right fun hk => by rw [hst.looked k hk])
    · have hkeyOf := hst.root (by simp)
      rcases hroot with ⟨hnone, hnil⟩ | ⟨rootKey, hkey, h⟩
      · exact .inl ⟨hkeyOf.trans hnone, hnil⟩
      · exact .inr ⟨rootKey, hkeyOf.trans hkey, h.congr fun a ha _ b => hst.walked a ha b⟩

/-- **The targets of a finished scan** are the root and the holders of the keys below it. -/
theorem Scan.Agrees.targets {targetKeys : List Key} {targets : List Nat}
    (h : Scan.Agrees rootThreadId s (.ready targetKeys targets)) (hs : KeysSound s) (t : Nat) :
    t ∈ targets ↔ s.Below rootThreadId t := by
  have hholder : ∀ key, s.holder key = some t ↔ s.HasKey t key := by
    intro key
    constructor
    · intro hk
      obtain ⟨row, hrow, rfl⟩ := Option.map_eq_some_iff.1 hk
      exact ⟨row, List.mem_of_find?_eq_some hrow, rfl, by simpa using List.find?_some hrow⟩
    · rintro ⟨row, hrow, rfl, rfl⟩
      have hfind := (hs.key.find?_eq_some (k := row.key) (r := row)).2 ⟨hrow, rfl, rfl⟩
      simp only [Bool.and_true] at hfind
      simp [Store.holder, Store.findByKey, hfind]
  obtain ⟨htargets, hroot⟩ := h
  rw [htargets t, Store.Below]
  refine or_congr_right ?_
  rcases hroot with ⟨hnone, rfl⟩ | ⟨rootKey, hkey, hex⟩
  · simp [hnone]
  · constructor
    · rintro ⟨key, hk, ht⟩
      exact ⟨rootKey, key, hkey, (hholder key).1 ht, hex.mem_iff.1 hk⟩
    · rintro ⟨rootKey', key, hkey', ht, hdown⟩
      obtain rfl := Option.some.inj (hkey.symm.trans hkey')
      exact ⟨key, hex.mem_iff.2 hdown, (hholder key).2 ht⟩

end Walk

/-! ## Without interference -/

section Alone

variable {rootThreadId : Nat} {s : Store}

/-- Enough room for the walk: every key among the targets is the root's or the child of a relation, once. -/
structure Roomy (s : Store) (steps : Nat) (rootKey : Key) (queue targetKeys : List Key) : Prop where
  nodup : targetKeys.Nodup
  known : targetKeys ⊆ rootKey :: s.relations.map RelationRow.childThreadCanonicalKey
  room : s.relations.length + 1 + queue.length ≤ steps + targetKeys.length

theorem pushChildren_room : ∀ (relations : List RelationRow) (queue targetKeys : List Key), targetKeys.Nodup →
    (pushChildren relations queue targetKeys).2.Nodup ∧
      (pushChildren relations queue targetKeys).1.length + targetKeys.length =
        queue.length + (pushChildren relations queue targetKeys).2.length
  | [], queue, targetKeys, h => ⟨h, rfl⟩
  | relation :: relations, queue, targetKeys, h => by
    simp only [pushChildren]
    split
    · exact pushChildren_room relations queue targetKeys h
    · next hnew =>
      have hnd : (targetKeys ++ [relation.childThreadCanonicalKey]).Nodup :=
        List.nodup_append.2 ⟨h, by simp, fun a ha b hb he => by
          obtain rfl := List.mem_singleton.1 hb
          exact hnew (he ▸ ha)⟩
      obtain ⟨hnd', hlen⟩ := pushChildren_room relations (relation.childThreadCanonicalKey :: queue) _ hnd
      refine ⟨hnd', ?_⟩
      simp only [List.length_cons, List.length_append, List.length_nil] at hlen
      omega

theorem Roomy.pop {steps : Nat} {rootKey parentKey : Key} {queue targetKeys : List Key}
    (h : Roomy s (steps + 1) rootKey (parentKey :: queue) targetKeys) :
    Roomy s steps rootKey (pushChildren (s.listActiveByParent parentKey) queue targetKeys).1
      (pushChildren (s.listActiveByParent parentKey) queue targetKeys).2 := by
  obtain ⟨hnd, hlen⟩ := pushChildren_room (s.listActiveByParent parentKey) queue targetKeys h.nodup
  refine ⟨hnd, fun k hk => ?_, ?_⟩
  · rcases ((pushChildren_spec (s.listActiveByParent parentKey) queue targetKeys).1 k).1 hk with hk | hk
    · exact h.known hk
    · obtain ⟨r, hr, rfl⟩ := List.mem_map.1 hk
      exact List.mem_cons_of_mem _ (List.mem_map_of_mem (mem_listActiveByParent.1 hr).1)
  · have := h.room
    simp only [List.length_cons] at this
    omega

/-- The scans that queries to one store lead to. -/
abbrev Scan.Leads (rootThreadId : Nat) (s : Store) : Scan → Scan → Prop :=
  Relation.ReflTransGen fun scan scan' => scan.query rootThreadId s = scan'

/-- The walk over the whole queue. -/
theorem scan_walk {rootKey : Key} : ∀ (steps : Nat) (queue targetKeys : List Key), Roomy s steps rootKey queue targetKeys →
    Scan.Leads rootThreadId s (.walking queue targetKeys) (.walking [] (s.descendantKeys steps queue targetKeys))
  | 0, [], targetKeys, _ => .refl
  | _ + 1, [], targetKeys, _ => .refl
  | 0, parentKey :: queue, targetKeys, h => by
    have hle : targetKeys.length ≤ s.relations.length + 1 := by
      simpa using (h.nodup.subperm h.known).length_le
    have := h.room
    simp only [List.length_cons] at this
    omega
  | steps + 1, parentKey :: queue, targetKeys, h => .head rfl (scan_walk steps _ _ h.pop)

/-- Reading one more thread, as the list of distinct threads has it. -/
theorem eraseDups_concat (l : List Nat) (t : Nat) :
    (l ++ [t]).eraseDups = if t ∈ l.eraseDups then l.eraseDups else l.eraseDups ++ [t] := by
  rw [List.eraseDups_append]
  by_cases ht : t ∈ l <;> simp [List.removeAll, ht, List.eraseDups_cons]

/-- The threads that hold the keys, each once. -/
def Store.holders (s : Store) (keys : List Key) : List Nat :=
  ((keys.filterMap s.findByKey).map ThreadCanonicalKeyRow.threadId).eraseDups

theorem holders_concat (looked : List Key) (key : Key) :
    s.holders (looked ++ [key]) = match s.findByKey key with
      | none => s.holders looked
      | some row => if row.threadId ∈ s.holders looked then s.holders looked else s.holders looked ++ [row.threadId] := by
  unfold Store.holders
  cases hrow : s.findByKey key with
  | none => simp [hrow]
  | some row => simp [hrow, eraseDups_concat]

theorem Scan.query_resolving (looked unread : List Key) (key : Key) :
    Scan.query rootThreadId s (.resolving looked (key :: unread) (s.holders looked)) =
      .resolving (looked ++ [key]) unread (s.holders (looked ++ [key])) := by
  rw [holders_concat]
  simp only [Scan.query]
  cases s.findByKey key with
  | none => rfl
  | some row =>
    dsimp only
    split <;> rfl

/-- The lookup of all keys. -/
theorem scan_resolve : ∀ looked unread : List Key,
    Scan.Leads rootThreadId s (.resolving looked unread (s.holders looked))
      (.resolving (looked ++ unread) [] (s.holders (looked ++ unread)))
  | looked, [] => by rw [List.append_nil]
  | looked, key :: unread => by
    have hrest := scan_resolve (looked ++ [key]) unread
    rw [List.append_assoc] at hrest
    exact .head (Scan.query_resolving looked unread key) hrest

/-- **A scan that nobody interrupts** reads the targets of the store it reads. -/
theorem scan_alone (rootThreadId : Nat) (s : Store) :
    ∃ targetKeys, Scan.Leads rootThreadId s .start (.ready targetKeys (s.deleteTargets rootThreadId true)) := by
  cases hkey : s.findKeyByThreadId rootThreadId with
  | none => exact ⟨[], .single (by simp [Scan.query, Store.deleteTargets, hkey])⟩
  | some rootKey =>
    have hroomy : Roomy s (s.relations.length + 1) rootKey.key [rootKey.key] [rootKey.key] :=
      ⟨by simp, by simp, le_rfl⟩
    have hstart : Scan.query rootThreadId s .start = .walking [rootKey.key] [rootKey.key] := by
      simp only [Scan.query, hkey]
    have hwalk := @scan_walk rootThreadId s _ _ _ _ hroomy
    generalize hkeys : s.descendantKeys (s.relations.length + 1) [rootKey.key] [rootKey.key] = targetKeys at hwalk
    have hlook := @scan_resolve rootThreadId s [] targetKeys
    have hend : Scan.query rootThreadId s (.resolving targetKeys [] (s.holders targetKeys)) =
        .ready targetKeys (s.deleteTargets rootThreadId true) := by
      simp only [Scan.query, Store.deleteTargets, hkey, hkeys, if_true]
      rfl
    exact ⟨targetKeys, .head hstart (hwalk.trans (.head rfl (hlook.tail hend)))⟩

end Alone

/-! ## Next to the other clients -/

/-- A delete that is under way next to the other clients: its own next query, or another's transaction. -/
inductive ScanEvent where
  | query
  | other (a : Action)

section Runs

variable [KeyHash] [PurgeDigest]

/-- The store and the scan after an event. -/
def ScanEvent.exec (rootThreadId : Nat) : ScanEvent → Store × Scan → Store × Scan
  | .query, (s, scan) => (s, scan.query rootThreadId s)
  | .other a, (s, scan) => (a.exec s, scan)

/-- What the scan has read stands after the event. -/
def ScanEvent.Spares (rootThreadId : Nat) (p : Store × Scan) : ScanEvent → Prop
  | .query => True
  | .other a => p.2.Stands rootThreadId p.1 (a.exec p.1)

instance ScanEvent.decidableSpares (rootThreadId : Nat) (p : Store × Scan) :
    (e : ScanEvent) → Decidable (e.Spares rootThreadId p)
  | .query => isTrue trivial
  | .other a => Scan.decidableStands rootThreadId p.2 p.1 (a.exec p.1)

/-- The stores and scans that a delete next to other clients leads to. -/
abbrev ScanReaches (rootThreadId : Nat) : Store × Scan → Store × Scan → Prop :=
  Run.Reaches (ScanEvent.exec rootThreadId) (ScanEvent.Spares rootThreadId)

/-- What a scan keeps on its way. -/
structure ScanInvariant (rootThreadId : Nat) (p : Store × Scan) : Prop where
  sound : Sound p.1
  keys : KeysSound p.1
  agrees : p.2.Agrees rootThreadId p.1

theorem ScanInvariant.exec {rootThreadId : Nat} {p : Store × Scan} (h : ScanInvariant rootThreadId p) :
    ∀ {e : ScanEvent}, e.Spares rootThreadId p → ScanInvariant rootThreadId (e.exec rootThreadId p)
  | .query, _ => ⟨h.sound, h.keys, h.agrees.query⟩
  | .other a, hspares => ⟨a.exec_sound h.sound, a.exec_keysSound h.sound h.keys, h.agrees.stands hspares⟩

omit [KeyHash] [PurgeDigest] in
theorem Scan.Agrees.leads {rootThreadId : Nat} {s : Store} {scan scan' : Scan} (h : scan.Agrees rootThreadId s)
    (hleads : Scan.Leads rootThreadId s scan scan') : scan'.Agrees rootThreadId s := by
  induction hleads with
  | refl => exact h
  | tail _ hstep ih => exact hstep ▸ ih.query

end Runs

section Scenarios

open Scenario

/-- The delete of a parent reads its targets, while another session is imported. -/
def spared : List ScanEvent :=
  [.query, .query, .query, .other (importing "x"), .query, .query, .query, .query]

/-- The delete of a session reads its targets, and then another session is adopted by it. -/
def overtaken : List ScanEvent :=
  [.query, .query, .query, .query, .query, .other (reconciling 2 "c" [evidence "c" "p" .exact])]

end Scenarios

end MemoryStore.ThreadGroup
