/-
The media storage (`infra/src/infra/media_storage.rs` and its `file` backend):
keys, and objects under them. What the bytes are is told by their SHA-256, which
is taken to be injective, so an object is no more than its size and its age.
-/
import MemoryStore.Conversation.Rows
import MemoryStore.Lib.Utf8

namespace MemoryStore.Media

/-! ## Content hashes -/

/-- `is_ascii_hexdigit`. -/
def isHexDigit (c : Char) : Bool := ('0' ≤ c && c ≤ '9') || ('a' ≤ c && c ≤ 'f') || ('A' ≤ c && c ≤ 'F')

/-- `validate_sha256_hex`. -/
def isSha256Hex (sha256 : String) : Bool := sha256.toList.length = 64 && sha256.toList.all isHexDigit

/-- A content hash, as `hex` writes one and `validate_sha256_hex` accepts one. -/
structure Sha256Hex where
  value : String
  valid : isSha256Hex value = true
  deriving DecidableEq

/-! ## Keys -/

/-- `final_key`. -/
def finalKey (s3Prefix sha256 : String) : String :=
  let hex := sha256.toList
  if hex.length < 4 then s3Prefix ++ sha256
  else s3Prefix ++ String.ofList (hex.take 2) ++ "/" ++ String.ofList ((hex.drop 2).take 2) ++ "/" ++ sha256

/-- The prefix the temp scan lists. -/
def tempPrefix (s3Prefix : String) : String := s3Prefix ++ "_tmp/"

/-- `temp_key`. -/
def tempKey (s3Prefix : String) (uploadId : Nat) : String := tempPrefix s3Prefix ++ toString uploadId

/-- The keys the temp scan lists. -/
def isTemp (s3Prefix key : String) : Bool := (tempPrefix s3Prefix).toList.isPrefixOf key.toList

/-- `validate_storage_key`: relative, and no `..`. -/
def validateStorageKey (key : String) : Bool :=
  !key.toList.isEmpty && key.toList.head? ≠ some '/' && ['.', '.'] ∉ key.toList.splitOn '/'

theorem isSha256Hex_zeros :
    isSha256Hex "0000000000000000000000000000000000000000000000000000000000000000" = true := by
  decide

/-- The final keys of two contents differ. -/
theorem finalKey_injective {s3Prefix : String} {a b : Sha256Hex}
    (h : finalKey s3Prefix a.value = finalKey s3Prefix b.value) : a.value = b.value := by
  have hlen : ∀ sha : Sha256Hex, sha.value.toList.length = 64 := by
    intro sha
    have := sha.valid
    simp only [isSha256Hex, Bool.and_eq_true, decide_eq_true_eq] at this
    exact this.1
  have ha := hlen a
  have hb := hlen b
  have hlist := congrArg String.toList h
  unfold finalKey at hlist
  simp only [ha, hb, show ¬ (64 : Nat) < 4 by omega, if_false, String.toList_append, String.toList_ofList,
    List.append_assoc] at hlist
  have htail := List.append_cancel_left hlist
  -- The hash is what is left after the two directories, which are as long for both.
  have hdrop := congrArg (List.drop 6) htail
  have hshape : ∀ l : List Char, l.length = 64 →
      List.drop 6 (l.take 2 ++ ("/".toList ++ ((l.drop 2).take 2 ++ ("/".toList ++ l)))) = l := by
    intro l hl
    have h2 : (l.take 2).length = 2 := by rw [List.length_take, hl]; rfl
    have h4 : ((l.drop 2).take 2).length = 2 := by rw [List.length_take, List.length_drop, hl]; rfl
    rw [List.drop_append, h2, List.drop_eq_nil_of_le (by omega), List.nil_append, List.drop_append,
      show "/".toList.length = 1 from rfl, List.drop_eq_nil_of_le (by decide), List.nil_append, List.drop_append,
      h4, List.drop_eq_nil_of_le (by omega), List.nil_append]
    rfl
  rw [hshape _ ha, hshape _ hb] at hdrop
  exact String.toList_inj.1 hdrop

/-- A final key is no temp key: no hash begins with an underscore. -/
theorem isTemp_finalKey (s3Prefix : String) (sha : Sha256Hex) : isTemp s3Prefix (finalKey s3Prefix sha.value) = false := by
  have hvalid := sha.valid
  simp only [isSha256Hex, Bool.and_eq_true, decide_eq_true_eq] at hvalid
  obtain ⟨hlen, hhex⟩ := hvalid
  by_contra hc
  simp only [Bool.not_eq_false, isTemp, List.isPrefixOf_iff_prefix] at hc
  obtain ⟨rest, hrest⟩ := hc
  unfold finalKey tempPrefix at hrest
  simp only [hlen, show ¬ (64 : Nat) < 4 by omega, if_false, String.toList_append, String.toList_ofList,
    List.append_assoc] at hrest
  have htail := List.append_cancel_left hrest
  cases hl : sha.value.toList with
  | nil => rw [hl] at hlen; simp at hlen
  | cons c cs =>
    rw [hl] at htail hhex
    have hc : c = '_' := by
      have := congrArg List.head? htail
      simpa using this.symm
    simp only [List.all_cons, Bool.and_eq_true] at hhex
    rw [hc] at hhex
    exact absurd hhex.1 (by decide)

theorem isTemp_tempKey (s3Prefix : String) (uploadId : Nat) : isTemp s3Prefix (tempKey s3Prefix uploadId) = true := by
  simp only [isTemp, tempKey, List.isPrefixOf_iff_prefix, String.toList_append]
  exact List.prefix_append _ _

/-! ## Objects -/

structure StoredObject where
  byteSize : Nat
  modified : Int
  deriving DecidableEq, Repr

/-- The objects in storage, under their keys. -/
abbrev Objects := List (String × StoredObject)

/-- `head`. -/
def Objects.head (objects : Objects) (key : String) : Option StoredObject := objects.lookup key

/-- Whether there is an object under a key. -/
def Objects.has (objects : Objects) (key : String) : Bool := objects.any (·.1 = key)

/-- `delete`: a missing key is no error. -/
def Objects.delete (objects : Objects) (key : String) : Objects := objects.filter (·.1 ≠ key)

/-- The write of `put_streaming`, and of a copy at its destination. -/
def Objects.put (objects : Objects) (key : String) (object : StoredObject) : Objects :=
  (key, object) :: objects.delete key

/-- `list_temp_older_than`. -/
def Objects.tempOlderThan (objects : Objects) (s3Prefix : String) (now : Int) (graceSec : Nat) : List String :=
  (objects.filter fun entry => isTemp s3Prefix entry.1 && now - entry.2.modified ≥ graceSec * 1000).map Prod.fst

theorem Objects.has_iff {objects : Objects} {key : String} : objects.has key = true ↔ ∃ o, (key, o) ∈ objects := by
  simp only [Objects.has, List.any_eq_true, decide_eq_true_eq, Prod.exists]
  constructor
  · rintro ⟨k, o, hmem, rfl⟩
    exact ⟨o, hmem⟩
  · rintro ⟨o, hmem⟩
    exact ⟨key, o, hmem, rfl⟩

theorem Objects.has_delete (objects : Objects) (key k : String) :
    (objects.delete key).has k = true ↔ objects.has k = true ∧ k ≠ key := by
  simp only [Objects.has_iff, Objects.delete, List.mem_filter, decide_eq_true_eq]
  constructor
  · rintro ⟨o, hmem, hne⟩
    exact ⟨⟨o, hmem⟩, hne⟩
  · rintro ⟨⟨o, hmem⟩, hne⟩
    exact ⟨o, hmem, hne⟩

theorem Objects.has_put (objects : Objects) (key : String) (object : StoredObject) (k : String) :
    (objects.put key object).has k = true ↔ objects.has k = true ∨ k = key := by
  by_cases hk : k = key
  · subst hk
    simp only [Objects.has_iff, Objects.put, List.mem_cons, or_true, iff_true]
    exact ⟨object, .inl rfl⟩
  · have hd := Objects.has_delete objects key k
    have hsame : (objects.put key object).has k = (objects.delete key).has k := by
      simp [Objects.put, Objects.has, Ne.symm hk]
    rw [hsame, hd]
    simp [hk]

end MemoryStore.Media
