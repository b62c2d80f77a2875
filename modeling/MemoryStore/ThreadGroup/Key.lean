/-
Canonical keys and evidence fingerprints (`common/src/thread_group_key.rs`).

A key is the SHA-256 of a list of optional text fields, each normalised to NFC
and written with its length in bytes. Normalisation and SHA-256 are third-party
code, so they are parameters here (`KeyHash`). The serialised bytes are always
UTF-8 text, and are kept as a `String`.
-/
import Mathlib

namespace MemoryStore.ThreadGroup

/-- The two functions keys rest on: Unicode NFC and the hex form of SHA-256. -/
class KeyHash where
  nfc : String → String
  sha256Hex : String → String

/-- `IdentityScope`. -/
inductive IdentityScope where
  | known (value : String)
  | unknown
  deriving DecidableEq, Repr

/-- `SourceIdentity`, and `ObservedEndpoint`, which has the same fields. -/
structure SourceIdentity where
  userId : Int
  source : String
  identityScope : IdentityScope
  nativeId : String
  deriving DecidableEq, Repr

/-- `ObservedEndpoint`: one endpoint of an observed relation. -/
abbrev ObservedEndpoint := SourceIdentity

/-- `known_scope_value`. -/
def IdentityScope.value? : IdentityScope → Option String
  | .known value => some value
  | .unknown => none

/-- `SourceIdentityKey`: an identity whose scope is known. -/
structure SourceIdentityKey where
  userId : Int
  source : String
  identityScope : String
  nativeId : String
  deriving DecidableEq, Repr

/-- `observed_endpoint_key`: the row key of an endpoint, when its scope is known. -/
def SourceIdentity.key? (e : SourceIdentity) : Option SourceIdentityKey :=
  e.identityScope.value?.map fun scope => ⟨e.userId, e.source, scope, e.nativeId⟩

/-- The identity key the code locks, with `""` for an unknown scope. -/
def SourceIdentity.lockKey (e : SourceIdentity) : SourceIdentityKey :=
  ⟨e.userId, e.source, e.identityScope.value?.getD "", e.nativeId⟩

/-- The endpoint of a known identity. -/
def SourceIdentityKey.endpoint (k : SourceIdentityKey) : SourceIdentity :=
  ⟨k.userId, k.source, .known k.identityScope, k.nativeId⟩

@[simp] theorem SourceIdentityKey.key?_endpoint (k : SourceIdentityKey) : k.endpoint.key? = some k := rfl

@[simp] theorem SourceIdentityKey.lockKey_endpoint (k : SourceIdentityKey) : k.endpoint.lockKey = k := rfl

theorem SourceIdentity.key?_eq_some {e : SourceIdentity} {k : SourceIdentityKey} :
    e.key? = some k ↔ e = k.endpoint := by
  obtain ⟨u, src, scope, nat⟩ := e
  obtain ⟨u', src', scope', nat'⟩ := k
  cases scope <;> simp [key?, IdentityScope.value?, SourceIdentityKey.endpoint]

theorem SourceIdentity.lockKey_of_key? {e : SourceIdentity} {k : SourceIdentityKey} (h : e.key? = some k) :
    e.lockKey = k := by
  rw [key?_eq_some.1 h, SourceIdentityKey.lockKey_endpoint]

/-- `legacy_owner_scope`. -/
def legacyOwnerScope (userId : Int) : String := "user:" ++ toString userId

variable [KeyHash]

/-- `canonical_serialize_v2`. -/
def canonicalSerializeV2 : List (Option String) → String
  | [] => ""
  | some value :: fields =>
    let normalized := KeyHash.nfc value
    toString normalized.utf8ByteSize ++ ":" ++ normalized ++ canonicalSerializeV2 fields
  | none :: fields => "-:" ++ canonicalSerializeV2 fields

/-- `hash_fields`. -/
def hashFields (fields : List (Option String)) : String :=
  KeyHash.sha256Hex (canonicalSerializeV2 fields)

/-- The key of an identity row: `source_thread_canonical_key` once the scope is known. -/
def SourceIdentityKey.canonicalKey (k : SourceIdentityKey) : String :=
  hashFields [some "thread-source", some (legacyOwnerScope k.userId), some k.source,
    some k.identityScope, some k.nativeId]

/-- `source_thread_canonical_key`. -/
def sourceThreadCanonicalKey (identity : SourceIdentity) : Option String :=
  identity.key?.map SourceIdentityKey.canonicalKey

/-- `reconciler_group_canonical_key`. -/
def reconcilerGroupCanonicalKey (rootThreadCanonicalKey : String) : String :=
  hashFields [some "thread-group-root", some rootThreadCanonicalKey]

/-- `split_group_canonical_key`. -/
def splitGroupCanonicalKey (sourceGroupCanonicalKey : String) (members : List String) : String :=
  let sortedMembers := (members.insertionSort (· ≤ ·)).dedup
  hashFields (some "thread-group-split" :: some sourceGroupCanonicalKey :: sortedMembers.map some)

/-- `append_identity_fields`. -/
def identityFields (identity : SourceIdentity) : List (Option String) :=
  [some identity.source,
   some (match identity.identityScope with | .known _ => "known" | .unknown => "unknown"),
   identity.identityScope.value?,
   some (legacyOwnerScope identity.userId),
   some identity.nativeId]

/-- `evidence_fingerprint`. -/
def evidenceFingerprint (fingerprintVersion origin adapterVersion : String) (subject : SourceIdentity)
    (candidateParent : Option SourceIdentity)
    (relationKind evidenceKind polarity sourceConfidence sourceRecordLocator : String) : String :=
  hashFields <|
    [some fingerprintVersion, some origin, some adapterVersion] ++ identityFields subject ++
    (match candidateParent with
      | some parent => some "present" :: identityFields parent
      | none => [some "absent"]) ++
    [some relationKind, some evidenceKind, some polarity, some sourceConfidence, some sourceRecordLocator]

theorem sourceThreadCanonicalKey_of_key? {e : SourceIdentity} {k : SourceIdentityKey} (h : e.key? = some k) :
    sourceThreadCanonicalKey e = some k.canonicalKey := by
  simp [sourceThreadCanonicalKey, h]

theorem sourceThreadCanonicalKey_eq_none {e : SourceIdentity} :
    sourceThreadCanonicalKey e = none ↔ e.key? = none := by
  simp [sourceThreadCanonicalKey]

end MemoryStore.ThreadGroup
