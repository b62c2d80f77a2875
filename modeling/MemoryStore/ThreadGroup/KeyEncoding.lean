/-
What the key and fingerprint encodings tell apart. The serialisation is a list
of optional texts after NFC, each with its length, so it determines the list;
with a collision-free hash a key determines the fields it was made from, and
its domain. The digest of a membership snapshot is made from the entries sorted
by key, state and role, and does not see the order of entries those three tell
apart (`app/src/app/thread_group/read_search.rs`).
-/
import MemoryStore.Lib.Netstring
import MemoryStore.ThreadGroup.Scenario
import Std.Data.String.ToInt

namespace MemoryStore.ThreadGroup

/-! ## Numbers -/

theorem ascii_toString_nat (n : Nat) : ∀ c ∈ (toString n).toList, c.toNat < 128 := fun c hc => by
  have hd := Netstring.isDigit_of_mem_repr hc
  simp only [Char.isDigit, Bool.and_eq_true, decide_eq_true_eq, ge_iff_le] at hd
  have : c.toNat ≤ '9'.toNat := hd.2
  have h9 : '9'.toNat = 57 := rfl
  omega

theorem ascii_of_all {text : String} (h : text.toList.all (fun c => c.toNat < 128) = true) :
    ∀ c ∈ text.toList, c.toNat < 128 := by
  simpa using h

theorem ascii_toString_int (i : Int) : ∀ c ∈ (toString i).toList, c.toNat < 128 := by
  cases i with
  | ofNat n => exact ascii_toString_nat n
  | negSucc n =>
    have htext : toString (Int.negSucc n) = "-" ++ toString (n + 1) := rfl
    intro c hc
    rw [htext, String.toList_append] at hc
    rcases List.mem_append.1 hc with hc | hc
    · obtain rfl : c = '-' := by simpa using hc
      decide
    · exact ascii_toString_nat (n + 1) c hc

theorem toString_int_inj {a b : Int} (h : toString a = toString b) : a = b := Int.repr_injective h

theorem legacyOwnerScope_inj {a b : Int} (h : legacyOwnerScope a = legacyOwnerScope b) : a = b := by
  have h := congrArg String.toList h
  simp only [legacyOwnerScope, String.toList_append] at h
  exact toString_int_inj (String.toList_inj.1 (List.append_cancel_left h))

/-! ## Serialisation -/

section Serialization

variable [KeyHash]

theorem canonicalSerializeV2_fields : ∀ fields : List (Option String),
    canonicalSerializeV2 fields = Netstring.fields (fields.map (Option.map KeyHash.nfc))
  | [] => rfl
  | none :: fields => by
    simp only [canonicalSerializeV2, List.map_cons, Option.map_none, Netstring.fields, Netstring.field,
      canonicalSerializeV2_fields fields]
  | some value :: fields => by
    simp only [canonicalSerializeV2, List.map_cons, Option.map_some, Netstring.fields, Netstring.field,
      canonicalSerializeV2_fields fields]

/-- **The serialisation determines the fields**, up to NFC. -/
theorem canonicalSerializeV2_inj {a b : List (Option String)} : canonicalSerializeV2 a = canonicalSerializeV2 b ↔
    a.map (Option.map KeyHash.nfc) = b.map (Option.map KeyHash.nfc) := by
  rw [canonicalSerializeV2_fields, canonicalSerializeV2_fields]
  exact ⟨Netstring.fields_injective, fun h => by rw [h]⟩

theorem canonicalSerializeV2_append (a b : List (Option String)) :
    canonicalSerializeV2 (a ++ b) = canonicalSerializeV2 a ++ canonicalSerializeV2 b := by
  simp only [canonicalSerializeV2_fields, List.map_append, Netstring.fields_append]

/-! ## Text that NFC leaves alone -/

/-- NFC leaves ASCII text as it is. -/
def NfcKeepsAscii : Prop := ∀ text : String, (∀ c ∈ text.toList, c.toNat < 128) → KeyHash.nfc text = text

theorem nfc_toString_int (h : NfcKeepsAscii) (i : Int) : KeyHash.nfc (toString i) = toString i :=
  h _ (ascii_toString_int i)

theorem nfc_toString_nat (h : NfcKeepsAscii) (n : Nat) : KeyHash.nfc (toString n) = toString n :=
  h _ (ascii_toString_nat n)

theorem nfc_legacyOwnerScope (h : NfcKeepsAscii) (userId : Int) :
    KeyHash.nfc (legacyOwnerScope userId) = legacyOwnerScope userId := by
  refine h _ fun c hc => ?_
  rw [legacyOwnerScope, String.toList_append] at hc
  rcases List.mem_append.1 hc with hc | hc
  · have hall : ∀ c ∈ "user:".toList, c.toNat < 128 := ascii_of_all (by decide)
    exact hall c hc
  · exact ascii_toString_int userId c hc

end Serialization

/-! ## Keys -/

/-- What a key or a fingerprint is made from. -/
inductive KeyInput where
  | source (identity : SourceIdentityKey)
  | groupRoot (rootThreadCanonicalKey : Key)
  | split (sourceGroupCanonicalKey : Key) (members : List Key)
  | evidence (origin adapterVersion : String) (subject : SourceIdentity) (candidateParent : Option SourceIdentity)
      (relationKind evidenceKind polarity sourceConfidence sourceRecordLocator : String)

/-- The members of a split key, as it lists them. -/
def splitMembers (members : List Key) : List Key := (members.insertionSort (· ≤ ·)).dedup

/-- The list of fields that is hashed. -/
def KeyInput.fields : KeyInput → List (Option String)
  | .source identity => [some "thread-source", some (legacyOwnerScope identity.userId), some identity.source,
      some identity.identityScope, some identity.nativeId]
  | .groupRoot rootThreadCanonicalKey => [some "thread-group-root", some rootThreadCanonicalKey]
  | .split sourceGroupCanonicalKey members =>
    some "thread-group-split" :: some sourceGroupCanonicalKey :: (splitMembers members).map some
  | .evidence origin adapterVersion subject candidateParent relationKind evidenceKind polarity sourceConfidence
      sourceRecordLocator =>
    [some evidenceFingerprintVersion, some origin, some adapterVersion] ++ identityFields subject ++
    (match candidateParent with
      | some parent => some "present" :: identityFields parent
      | none => [some "absent"]) ++
    [some relationKind, some evidenceKind, some polarity, some sourceConfidence, some sourceRecordLocator]

/-- The tag of a domain. -/
def KeyInput.tag : KeyInput → String
  | .source _ => "thread-source"
  | .groupRoot _ => "thread-group-root"
  | .split .. => "thread-group-split"
  | .evidence .. => evidenceFingerprintVersion

theorem KeyInput.head_fields (k : KeyInput) : k.fields.head? = some (some k.tag) := by cases k <;> rfl

section Keys

variable [KeyHash]

/-- The key of each domain, by the source's function for it. -/
def KeyInput.key : KeyInput → Key
  | .source identity => identity.canonicalKey
  | .groupRoot rootThreadCanonicalKey => reconcilerGroupCanonicalKey rootThreadCanonicalKey
  | .split sourceGroupCanonicalKey members => splitGroupCanonicalKey sourceGroupCanonicalKey members
  | .evidence origin adapterVersion subject candidateParent relationKind evidenceKind polarity sourceConfidence
      sourceRecordLocator =>
    evidenceFingerprint evidenceFingerprintVersion origin adapterVersion subject candidateParent relationKind evidenceKind
      polarity sourceConfidence sourceRecordLocator

/-- The bytes that are hashed. -/
def KeyInput.bytes (k : KeyInput) : String := canonicalSerializeV2 k.fields

theorem KeyInput.key_eq (k : KeyInput) : k.key = KeyHash.sha256Hex k.bytes := by cases k <;> rfl

/-- The same text after NFC. -/
def SameText (a b : String) : Prop := KeyHash.nfc a = KeyHash.nfc b

/-- The same scope, where an unknown one and a known empty one differ. -/
def IdentityScope.Same (a b : IdentityScope) : Prop := a.value?.map KeyHash.nfc = b.value?.map KeyHash.nfc

/-- Two identities that are equal field by field. -/
structure SourceIdentity.Same (a b : SourceIdentity) : Prop where
  userId : a.userId = b.userId
  source : SameText a.source b.source
  identityScope : a.identityScope.Same b.identityScope
  nativeId : SameText a.nativeId b.nativeId

/-- Two inputs of one domain that are equal field by field. -/
def KeyInput.Same : KeyInput → KeyInput → Prop
  | .source a, .source b => a.endpoint.Same b.endpoint
  | .groupRoot a, .groupRoot b => SameText a b
  | .split a members, .split b members' =>
    SameText a b ∧ (splitMembers members).map KeyHash.nfc = (splitMembers members').map KeyHash.nfc
  | .evidence origin adapterVersion subject candidateParent relationKind evidenceKind polarity sourceConfidence locator,
    .evidence origin' adapterVersion' subject' candidateParent' relationKind' evidenceKind' polarity' sourceConfidence' locator' =>
    SameText origin origin' ∧ SameText adapterVersion adapterVersion' ∧ subject.Same subject' ∧
      Option.Rel SourceIdentity.Same candidateParent candidateParent' ∧ SameText relationKind relationKind' ∧
      SameText evidenceKind evidenceKind' ∧ SameText polarity polarity' ∧ SameText sourceConfidence sourceConfidence' ∧
      SameText locator locator'
  | _, _ => False

/-- The identity fields of a fingerprint determine the identity. -/
theorem identityFields_inj (h : NfcKeepsAscii) {a b : SourceIdentity} :
    (identityFields a).map (Option.map KeyHash.nfc) = (identityFields b).map (Option.map KeyHash.nfc) ↔ a.Same b := by
  have howner : KeyHash.nfc (legacyOwnerScope a.userId) = KeyHash.nfc (legacyOwnerScope b.userId) ↔ a.userId = b.userId := by
    rw [nfc_legacyOwnerScope h, nfc_legacyOwnerScope h]
    exact ⟨legacyOwnerScope_inj, fun he => by rw [he]⟩
  simp only [identityFields, List.map_cons, List.map_nil, Option.map_some, List.cons.injEq, Option.some.injEq, howner,
    and_true]
  constructor
  · rintro ⟨hsource, -, hscope, howner, hnative⟩
    exact ⟨howner, hsource, hscope, hnative⟩
  · rintro ⟨howner, hsource, hscope, hnative⟩
    refine ⟨hsource, congrArg KeyHash.nfc ?_, hscope, howner, hnative⟩
    revert hscope
    unfold IdentityScope.Same
    cases a.identityScope <;> cases b.identityScope <;> simp [IdentityScope.value?]

theorem KeyInput.nfc_tag (h : NfcKeepsAscii) (k : KeyInput) : KeyHash.nfc k.tag = k.tag := by
  refine h _ (ascii_of_all ?_)
  cases k <;> simp only [KeyInput.tag] <;> decide

/-- The fields determine the domain. -/
theorem KeyInput.tag_of_fields (h : NfcKeepsAscii) {a b : KeyInput}
    (he : a.fields.map (Option.map KeyHash.nfc) = b.fields.map (Option.map KeyHash.nfc)) : a.tag = b.tag := by
  have he := congrArg List.head? he
  simpa only [List.head?_map, KeyInput.head_fields, Option.map_some, Option.some.injEq, KeyInput.nfc_tag h] using he

/-- The fields of the parent of a fingerprint determine the parent, or that there is none. -/
theorem parentFields_inj (h : NfcKeepsAscii) {a b : Option SourceIdentity} :
    (match a with
      | some parent => some "present" :: identityFields parent
      | none => [some "absent"]).map (Option.map KeyHash.nfc) =
      (match b with
        | some parent => some "present" :: identityFields parent
        | none => [some "absent"]).map (Option.map KeyHash.nfc) ↔ Option.Rel SourceIdentity.Same a b := by
  cases a with
  | none =>
    cases b with
    | none => exact iff_of_true rfl .none
    | some b => exact iff_of_false (by simp [identityFields]) (by rintro ⟨⟩)
  | some a =>
    cases b with
    | none => exact iff_of_false (by simp [identityFields]) (by rintro ⟨⟩)
    | some b =>
      simp only [List.map_cons, List.cons.injEq, true_and, identityFields_inj h]
      exact ⟨.some, by rintro ⟨hs⟩; exact hs⟩

/-- **The fields determine the input**: its domain and each field, up to NFC. -/
theorem KeyInput.fields_inj (h : NfcKeepsAscii) {a b : KeyInput} :
    a.fields.map (Option.map KeyHash.nfc) = b.fields.map (Option.map KeyHash.nfc) ↔ a.Same b := by
  by_cases htag : a.tag = b.tag
  swap
  · refine iff_of_false (fun he => htag (KeyInput.tag_of_fields h he)) fun hs => htag ?_
    cases a <;> cases b <;> first | rfl | exact hs.elim
  · cases a with
    | source a =>
      cases b with
      | source b =>
        have howner : KeyHash.nfc (legacyOwnerScope a.userId) = KeyHash.nfc (legacyOwnerScope b.userId) ↔
            a.userId = b.userId := by
          rw [nfc_legacyOwnerScope h, nfc_legacyOwnerScope h]
          exact ⟨legacyOwnerScope_inj, fun he => by rw [he]⟩
        simp only [KeyInput.fields, List.map_cons, List.map_nil, Option.map_some, List.cons.injEq, Option.some.injEq, howner,
          true_and, and_true, KeyInput.Same]
        constructor
        · rintro ⟨hu, hs, hscope, hn⟩
          exact ⟨hu, hs, congrArg some hscope, hn⟩
        · rintro ⟨hu, hs, hscope, hn⟩
          exact ⟨hu, hs, Option.some.inj hscope, hn⟩
      | _ => exact absurd htag (by simp [KeyInput.tag, evidenceFingerprintVersion])
    | groupRoot a =>
      cases b with
      | groupRoot b => simp [KeyInput.fields, KeyInput.Same, SameText]
      | _ => exact absurd htag (by simp [KeyInput.tag, evidenceFingerprintVersion])
    | split a members =>
      cases b with
      | split b members' =>
        have hsome : ∀ l l' : List Key, l.map (Option.map KeyHash.nfc ∘ some) = l'.map (Option.map KeyHash.nfc ∘ some) ↔
            l.map KeyHash.nfc = l'.map KeyHash.nfc := by
          have hlist : ∀ l : List Key, l.map (Option.map KeyHash.nfc ∘ some) = (l.map KeyHash.nfc).map some := fun l => by
            simp [Function.comp_def]
          intro l l'
          rw [hlist, hlist]
          exact (List.map_injective_iff.2 (Option.some_injective _)).eq_iff
        simp only [KeyInput.fields, List.map_cons, Option.map_some, List.cons.injEq, Option.some.injEq, true_and,
          List.map_map, hsome, KeyInput.Same, SameText]
      | _ => exact absurd htag (by simp [KeyInput.tag, evidenceFingerprintVersion])
    | evidence origin adapterVersion subject candidateParent =>
      cases b with
      | evidence origin' adapterVersion' subject' candidateParent' =>
        simp only [KeyInput.fields, KeyInput.Same, List.map_append]
        constructor
        · intro he
          obtain ⟨he, htail⟩ := List.append_inj' he rfl
          obtain ⟨he, hparent⟩ := List.append_inj he rfl
          obtain ⟨hhead, hsubject⟩ := List.append_inj he rfl
          simp only [List.map_cons, List.map_nil, Option.map_some, List.cons.injEq, Option.some.injEq, true_and,
            and_true] at hhead htail
          exact ⟨hhead.1, hhead.2, (identityFields_inj h).1 hsubject, (parentFields_inj h).1 hparent, htail⟩
        · rintro ⟨ho, ha, hsubject, hparent, htail⟩
          rw [(identityFields_inj h).2 hsubject, (parentFields_inj h).2 hparent]
          simp only [List.map_cons, List.map_nil, Option.map_some]
          rw [ho, ha, htail.1, htail.2.1, htail.2.2.1, htail.2.2.2.1, htail.2.2.2.2]
      | _ => exact absurd htag (by simp [KeyInput.tag, evidenceFingerprintVersion])

/-- With a hash that has no collision on the bytes that occur, keys are equal exactly when their inputs are. -/
theorem KeyInput.key_inj (h : NfcKeepsAscii) {occurring : Set KeyInput}
    (hinj : Set.InjOn KeyHash.sha256Hex (KeyInput.bytes '' occurring)) {a b : KeyInput} (ha : a ∈ occurring)
    (hb : b ∈ occurring) : a.key = b.key ↔ a.Same b := by
  rw [KeyInput.key_eq, KeyInput.key_eq, ← KeyInput.fields_inj h, ← canonicalSerializeV2_inj]
  constructor
  · exact fun he => hinj ⟨a, ha, rfl⟩ ⟨b, hb, rfl⟩ he
  · exact fun he => congrArg KeyHash.sha256Hex he

end Keys

/-! ## The digest of a membership snapshot -/

/-- `MembershipSnapshotEntry`. -/
structure MembershipSnapshotEntry where
  threadCanonicalKey : String
  state : String
  role : String
  deletedAt : Option Int
  updatedAt : Option Int
  lastMessageAt : Option Int
  deriving DecidableEq, Repr

/-- What entries are sorted by. -/
def MembershipSnapshotEntry.sortKey (e : MembershipSnapshotEntry) : String × String × String :=
  (e.threadCanonicalKey, e.state, e.role)

/-- The comparison of the sort: not after. -/
def MembershipSnapshotEntry.notAfter (a b : MembershipSnapshotEntry) : Prop :=
  a.threadCanonicalKey < b.threadCanonicalKey ∨ a.threadCanonicalKey = b.threadCanonicalKey ∧
    (a.state < b.state ∨ a.state = b.state ∧ a.role ≤ b.role)

instance : DecidableRel MembershipSnapshotEntry.notAfter := fun a b => by
  unfold MembershipSnapshotEntry.notAfter
  infer_instance

/-- `sort_by`, which is stable. -/
def sortedEntries (entries : List MembershipSnapshotEntry) : List MembershipSnapshotEntry :=
  entries.insertionSort MembershipSnapshotEntry.notAfter

/-- The fields of one entry. -/
def MembershipSnapshotEntry.fields (e : MembershipSnapshotEntry) : List (Option String) :=
  [some e.threadCanonicalKey, some e.state, some e.role, e.deletedAt.map toString, e.updatedAt.map toString,
    e.lastMessageAt.map toString]

section Order

variable {a b c : MembershipSnapshotEntry}

instance : Std.Total MembershipSnapshotEntry.notAfter where
  total a b := by
    unfold MembershipSnapshotEntry.notAfter
    rcases lt_trichotomy a.threadCanonicalKey b.threadCanonicalKey with h | h | h
    · exact .inl (.inl h)
    · rcases lt_trichotomy a.state b.state with h' | h' | h'
      · exact .inl (.inr ⟨h, .inl h'⟩)
      · rcases le_total a.role b.role with h'' | h''
        · exact .inl (.inr ⟨h, .inr ⟨h', h''⟩⟩)
        · exact .inr (.inr ⟨h.symm, .inr ⟨h'.symm, h''⟩⟩)
      · exact .inr (.inr ⟨h.symm, .inl h'⟩)
    · exact .inr (.inl h)

instance : IsTrans MembershipSnapshotEntry MembershipSnapshotEntry.notAfter where
  trans a b c h h' := by
    unfold MembershipSnapshotEntry.notAfter at h h' ⊢
    rcases h with h | ⟨he, h⟩
    · rcases h' with h' | ⟨he', -⟩
      · exact .inl (lt_trans h h')
      · exact .inl (he' ▸ h)
    · rcases h' with h' | ⟨he', h'⟩
      · exact .inl (he.symm ▸ h')
      · refine .inr ⟨he.trans he', ?_⟩
        rcases h with h | ⟨hs, h⟩
        · rcases h' with h' | ⟨hs', -⟩
          · exact .inl (lt_trans h h')
          · exact .inl (hs' ▸ h)
        · rcases h' with h' | ⟨hs', h'⟩
          · exact .inl (hs.symm ▸ h')
          · exact .inr ⟨hs.trans hs', h.trans h'⟩

/-- Entries that neither comes after agree in the sort key. -/
theorem sortKey_eq_of_notAfter (h : a.notAfter b) (h' : b.notAfter a) : a.sortKey = b.sortKey := by
  unfold MembershipSnapshotEntry.notAfter at h h'
  have hk : a.threadCanonicalKey = b.threadCanonicalKey := by
    rcases h with h | ⟨he, -⟩
    · rcases h' with h' | ⟨he', -⟩
      · exact absurd h' (lt_asymm h)
      · exact he'.symm
    · exact he
  simp only [hk, lt_irrefl, true_and, false_or] at h h'
  have hs : a.state = b.state := by
    rcases h with h | ⟨he, -⟩
    · rcases h' with h' | ⟨he', -⟩
      · exact absurd h' (lt_asymm h)
      · exact he'.symm
    · exact he
  simp only [hs, lt_irrefl, true_and, false_or] at h h'
  simp only [MembershipSnapshotEntry.sortKey, hk, hs, le_antisymm h h']

/-- Entries with the same sort key are the same entry. -/
def NoTies (entries : List MembershipSnapshotEntry) : Prop :=
  ∀ a ∈ entries, ∀ b ∈ entries, a.sortKey = b.sortKey → a = b

/-- Without ties the order of the entries does not show. -/
theorem sortedEntries_of_perm {xs ys : List MembershipSnapshotEntry} (hties : NoTies xs) (h : xs.Perm ys) :
    sortedEntries xs = sortedEntries ys := by
  have hperm : (sortedEntries xs).Perm (sortedEntries ys) :=
    (List.perm_insertionSort _ xs).trans (h.trans (List.perm_insertionSort _ ys).symm)
  refine hperm.eq_of_pairwise (fun a b ha hb hab hba => ?_) (List.pairwise_insertionSort _ xs) (List.pairwise_insertionSort _ ys)
  have hax : a ∈ xs := (List.perm_insertionSort _ xs).mem_iff.1 ha
  have hby : b ∈ xs := h.mem_iff.2 ((List.perm_insertionSort _ ys).mem_iff.1 hb)
  exact hties a hax b hby (sortKey_eq_of_notAfter hab hba)

end Order

section Digest

variable [KeyHash]

/-- The bytes `membership_snapshot_digest` hashes. -/
def membershipSnapshotBytes (entries : List MembershipSnapshotEntry) : String :=
  canonicalSerializeV2 [some "thread-group-membership-snapshot-v1", some (toString (sortedEntries entries).length)] ++
    String.join ((sortedEntries entries).map fun e => canonicalSerializeV2 e.fields)

/-- `membership_snapshot_digest`. -/
def membershipSnapshotDigest (entries : List MembershipSnapshotEntry) : String :=
  KeyHash.sha256Hex (membershipSnapshotBytes entries)

/-- The texts of an entry are in NFC. -/
def MembershipSnapshotEntry.Normal (e : MembershipSnapshotEntry) : Prop :=
  KeyHash.nfc e.threadCanonicalKey = e.threadCanonicalKey ∧ KeyHash.nfc e.state = e.state ∧ KeyHash.nfc e.role = e.role

theorem join_canonicalSerializeV2 (l : List MembershipSnapshotEntry) :
    String.join (l.map fun e => canonicalSerializeV2 e.fields) = canonicalSerializeV2 (l.flatMap MembershipSnapshotEntry.fields) := by
  induction l with
  | nil => rfl
  | cons e l ih => rw [List.map_cons, List.flatMap_cons, canonicalSerializeV2_append, ← ih, String.join_cons]

/-- The fields of a normal entry determine it. -/
theorem MembershipSnapshotEntry.fields_inj (h : NfcKeepsAscii) {a b : MembershipSnapshotEntry} (ha : a.Normal)
    (hb : b.Normal) (he : a.fields.map (Option.map KeyHash.nfc) = b.fields.map (Option.map KeyHash.nfc)) : a = b := by
  have hnum : ∀ {x y : Option Int}, (x.map toString).map KeyHash.nfc = (y.map toString).map KeyHash.nfc → x = y := by
    intro x y hxy
    cases x with
    | none =>
      cases y with
      | none => rfl
      | some y => exact (nomatch hxy)
    | some x =>
      cases y with
      | none => exact (nomatch hxy)
      | some y =>
        have htext := Option.some.inj hxy
        rw [nfc_toString_int h, nfc_toString_int h] at htext
        exact congrArg some (toString_int_inj htext)
  simp only [fields, List.map_cons, List.map_nil, Option.map_some, List.cons.injEq, Option.some.injEq, and_true, ha.1,
    ha.2.1, ha.2.2, hb.1, hb.2.1, hb.2.2] at he
  obtain ⟨hk, hs, hr, hd, hu, hm⟩ := he
  obtain ⟨k, st, r, d, u, m⟩ := a
  obtain ⟨k', st', r', d', u', m'⟩ := b
  simp only at hk hs hr hd hu hm
  rw [hk, hs, hr, hnum hd, hnum hu, hnum hm]

theorem flatMap_fields_inj (h : NfcKeepsAscii) : ∀ {xs ys : List MembershipSnapshotEntry}, (∀ e ∈ xs, e.Normal) →
    (∀ e ∈ ys, e.Normal) →
    (xs.flatMap MembershipSnapshotEntry.fields).map (Option.map KeyHash.nfc) =
      (ys.flatMap MembershipSnapshotEntry.fields).map (Option.map KeyHash.nfc) → xs = ys
  | [], [], _, _, _ => rfl
  | [], y :: ys, _, _, he => by simp [MembershipSnapshotEntry.fields] at he
  | x :: xs, [], _, _, he => by simp [MembershipSnapshotEntry.fields] at he
  | x :: xs, y :: ys, hx, hy, he => by
    rw [List.flatMap_cons, List.flatMap_cons, List.map_append, List.map_append] at he
    obtain ⟨hfirst, hrest⟩ := List.append_inj he (by simp [MembershipSnapshotEntry.fields])
    rw [MembershipSnapshotEntry.fields_inj h (hx x List.mem_cons_self) (hy y List.mem_cons_self) hfirst,
      flatMap_fields_inj h (fun e hm => hx e (List.mem_cons_of_mem _ hm)) (fun e hm => hy e (List.mem_cons_of_mem _ hm)) hrest]

/-- **The bytes of a snapshot determine its entries, sorted.** -/
theorem membershipSnapshotBytes_inj (h : NfcKeepsAscii) {xs ys : List MembershipSnapshotEntry} (hx : ∀ e ∈ xs, e.Normal)
    (hy : ∀ e ∈ ys, e.Normal) :
    membershipSnapshotBytes xs = membershipSnapshotBytes ys ↔ sortedEntries xs = sortedEntries ys := by
  refine ⟨fun he => ?_, fun he => by simp only [membershipSnapshotBytes, he]⟩
  have hsorted : ∀ {l : List MembershipSnapshotEntry}, (∀ e ∈ l, e.Normal) → ∀ e ∈ sortedEntries l, e.Normal :=
    fun hl e hm => hl e ((List.perm_insertionSort _ _).mem_iff.1 hm)
  simp only [membershipSnapshotBytes, join_canonicalSerializeV2, ← canonicalSerializeV2_append, canonicalSerializeV2_inj,
    List.map_append] at he
  exact flatMap_fields_inj h (hsorted hx) (hsorted hy) (List.append_inj he rfl).2

theorem membershipSnapshotBytes_iff_perm (h : NfcKeepsAscii) {xs ys : List MembershipSnapshotEntry}
    (hx : ∀ e ∈ xs, e.Normal) (hy : ∀ e ∈ ys, e.Normal) (hties : NoTies xs) :
    membershipSnapshotBytes xs = membershipSnapshotBytes ys ↔ xs.Perm ys := by
  rw [membershipSnapshotBytes_inj h hx hy]
  constructor
  · intro he
    have hxs : (sortedEntries xs).Perm xs := List.perm_insertionSort _ xs
    have hys : (sortedEntries ys).Perm ys := List.perm_insertionSort _ ys
    exact hxs.symm.trans (he ▸ hys)
  · exact sortedEntries_of_perm hties

end Digest

section Scenarios

open Scenario

/-- A session, and the key of a group with a root of the same name. -/
def sessionAndRoot : Set KeyInput := {.source ⟨1, "codex", "host", "p"⟩, .groupRoot "p"}

/-- The members of a group, listed twice. -/
def snapshotEntries : List MembershipSnapshotEntry :=
  [⟨"a", "active", "root", none, some 20, some 19⟩, ⟨"b", "deleted", "member", some 30, none, none⟩]

end Scenarios

end MemoryStore.ThreadGroup
