/-
External ids under an owner (`common/src/external_id.rs`, and
`namespace_external_id` of `agent-chat-import/src/common/importer.rs`): the
owner is put between the namespace of the source and the rest of the id, and
what gets too long is replaced by its digest.
-/
import MemoryStore.Lib.Netstring
import MemoryStore.Lib.Sha
import MemoryStore.Lib.Utf8
import Std.Data.String.ToInt

namespace MemoryStore.AgentImport.ExternalId

open Utf8 (byteLen)

abbrev Text := List Char

/-- `EXTERNAL_ID_MAX_BYTES` -/
def externalIdMaxBytes : Nat := 512

/-- The legacy spelling of a source: `source.replace('-', "_")`. -/
def normalized (source : Text) : Text := source.map fun c => if c = '-' then '_' else c

/-- `namespace_for_external_id` -/
def namespaceForExternalId (source externalId : Text) : Option Text :=
  if (source ++ [':']) <+: externalId then some source
  else if (normalized source ++ [':']) <+: externalId then some (normalized source)
  else none

/-- `ExternalIdError` -/
structure ExternalIdError where
  maxBytes : Nat
  minimumHashedBytes : Nat
  deriving DecidableEq, Repr

/-- A namespace and an owner, each with its colon. -/
def ownerPrefix (ns : Text) (ownerId : Int) : Text := ns ++ ':' :: ((toString ownerId).toList ++ [':'])

/-- `external_id.strip_prefix(&namespace_prefix).unwrap_or(external_id)` -/
def localSuffix (ns externalId : Text) : Text :=
  if (ns ++ [':']) <+: externalId then externalId.drop (ns.length + 1) else externalId

/-- `format!("{namespace}:{owner_id}:{suffix}")` -/
def scopedId (ns : Text) (ownerId : Int) (externalId : Text) : Text := ownerPrefix ns ownerId ++ localSuffix ns externalId

/-- The hex digits of the SHA-256 digest of a text. -/
def digestHex (text : Text) : Text := (Sha256.sha256Hex (String.ofList text)).toList

/-- The form of an id that is too long. -/
def hashedId (ns : Text) (ownerId : Int) (externalId : Text) : Text :=
  ownerPrefix ns ownerId ++ '~' :: digestHex (scopedId ns ownerId externalId)

/-- `owner_scoped` -/
def ownerScoped (ns : Text) (ownerId : Int) (externalId : Text) (maxBytes : Nat) : Except ExternalIdError Text :=
  let minimumHashedBytes := byteLen (ownerPrefix ns ownerId ++ ['~']) + 64
  if byteLen (scopedId ns ownerId externalId) ≤ maxBytes then .ok (scopedId ns ownerId externalId)
  else if maxBytes < minimumHashedBytes then .error ⟨maxBytes, minimumHashedBytes⟩
  else .ok (hashedId ns ownerId externalId)

/-- `namespace_external_id`; the error is what `expect` panics with. -/
def namespaceExternalId (sourceId : Text) (creatorUserId : Int) (externalId : Text) : Except ExternalIdError Text :=
  let ns := (namespaceForExternalId sourceId externalId).getD sourceId
  ownerScoped ns creatorUserId externalId externalIdMaxBytes

/-! ## Texts and their lengths -/

theorem colon_not_mem_owner (ownerId : Int) : ':' ∉ (toString ownerId).toList := by
  cases ownerId with
  | ofNat n => exact Netstring.colon_not_mem_repr n
  | negSucc n =>
    have htext : toString (Int.negSucc n) = "-" ++ toString (n + 1) := rfl
    rw [htext, String.toList_append, List.mem_append, not_or]
    exact ⟨by decide, Netstring.colon_not_mem_repr (n + 1)⟩

theorem hexDigit_utf8Size : ∀ n, n < 16 → (Sha256.hexDigit n).utf8Size = 1 := by decide

theorem bigEndian_lt {k n b : Nat} (h : b ∈ Sha256.bigEndian k n) : b < 256 := by
  induction k with
  | zero => exact absurd h List.not_mem_nil
  | succ k ih =>
    rcases List.mem_cons.1 h with rfl | h
    · exact Nat.mod_lt _ (by decide)
    · exact ih h

theorem byteLen_hexBytes : ∀ {bytes : List Nat}, (∀ b ∈ bytes, b < 256) →
    byteLen (bytes.flatMap fun byte => [Sha256.hexDigit (byte / 16), Sha256.hexDigit (byte % 16)]) = 2 * bytes.length
  | [], _ => rfl
  | byte :: rest, h => by
    have hlt := h byte List.mem_cons_self
    have hhigh := hexDigit_utf8Size (byte / 16) (by omega)
    have hlow := hexDigit_utf8Size (byte % 16) (by omega)
    have ih := byteLen_hexBytes fun b hb => h b (List.mem_cons_of_mem _ hb)
    simp only [List.flatMap_cons, Utf8.byteLen_append, Utf8.byteLen_cons, Utf8.byteLen_nil, List.length_cons, hhigh, hlow,
      ih]
    omega

theorem byteLen_hexWord (word : Nat) : byteLen (Sha256.hexWord word) = 8 := byteLen_hexBytes fun _ => bigEndian_lt

/-- A digest takes 64 bytes. -/
theorem byteLen_digestHex (text : Text) : byteLen (digestHex text) = 64 := by
  simp [digestHex, Sha256.sha256Hex, byteLen_hexWord]

theorem byteLen_normalized : ∀ source : Text, byteLen (normalized source) = byteLen source
  | [] => rfl
  | c :: source => by
    have ih := byteLen_normalized source
    unfold normalized at ih ⊢
    rw [List.map_cons, Utf8.byteLen_cons, Utf8.byteLen_cons, ih]
    split
    · next hc => rw [hc]; rfl
    · rfl

theorem colon_not_mem_normalized {source : Text} (h : ':' ∉ source) : ':' ∉ normalized source := by
  intro hmem
  obtain ⟨c, hc, he⟩ := List.mem_map.1 hmem
  split at he
  · exact absurd he (by decide)
  · exact h (he ▸ hc)

/-! ## Triples -/

/-- An external id of a source, for an owner. -/
structure Scoping where
  source : Text
  ownerId : Int
  externalId : Text

namespace Scoping

/-- The namespace the id is found to have. -/
def ns (x : Scoping) : Text := (namespaceForExternalId x.source x.externalId).getD x.source

/-- What the callers give: a source without a colon that leaves room for a
digest, and an id that begins with the source's name, in either spelling. -/
structure Regular (x : Scoping) : Prop where
  plain : ':' ∉ x.source
  room : byteLen (ownerPrefix x.source x.ownerId ++ ['~']) + 64 ≤ externalIdMaxBytes
  named : (x.source ++ [':']) <+: x.externalId ∨ (normalized x.source ++ [':']) <+: x.externalId

/-- The id under its owner, whole. -/
def full (x : Scoping) : Text := scopedId x.ns x.ownerId x.externalId

/-- The id does not fit. -/
def TooLong (x : Scoping) : Prop := externalIdMaxBytes < byteLen x.full

variable {x y : Scoping}

theorem ns_cases (x : Scoping) : x.ns = x.source ∨ x.ns = normalized x.source := by
  unfold ns namespaceForExternalId
  split
  · exact .inl rfl
  · split
    · exact .inr rfl
    · exact .inl rfl

theorem Regular.colon_not_mem (h : x.Regular) : ':' ∉ x.ns := by
  rcases x.ns_cases with he | he <;> rw [he]
  · exact h.plain
  · exact colon_not_mem_normalized h.plain

theorem Regular.room_ns (h : x.Regular) : byteLen (ownerPrefix x.ns x.ownerId ++ ['~']) + 64 ≤ externalIdMaxBytes := by
  have hlen : byteLen x.ns = byteLen x.source := by
    rcases x.ns_cases with he | he <;> rw [he]
    exact byteLen_normalized _
  have hroom := h.room
  unfold ownerPrefix at hroom ⊢
  simp only [Utf8.byteLen_append, hlen] at hroom ⊢
  exact hroom

/-- The id is its namespace and the rest. -/
theorem Regular.externalId_eq (h : x.Regular) : x.externalId = x.ns ++ ':' :: localSuffix x.ns x.externalId := by
  have hprefix : (x.ns ++ [':']) <+: x.externalId := by
    unfold ns namespaceForExternalId
    split
    · next hs => exact hs
    · next hs =>
      rw [if_pos (h.named.resolve_left hs)]
      exact h.named.resolve_left hs
  obtain ⟨rest, he⟩ := hprefix
  have hdrop : localSuffix x.ns x.externalId = rest := by
    unfold localSuffix
    rw [if_pos ⟨rest, he⟩, ← he]
    have hlen : x.ns.length + 1 = (x.ns ++ [':']).length := by rw [List.length_append]; rfl
    rw [hlen, List.drop_left]
  rw [hdrop, ← he, List.append_assoc]
  rfl

theorem Regular.externalId_eq_iff (hx : x.Regular) (hy : y.Regular) :
    x.externalId = y.externalId ↔ x.ns = y.ns ∧ localSuffix x.ns x.externalId = localSuffix y.ns y.externalId := by
  constructor
  · intro h
    rw [hx.externalId_eq, hy.externalId_eq] at h
    exact Netstring.before_colon hx.colon_not_mem hy.colon_not_mem h
  · rintro ⟨hns, hsuffix⟩
    rw [hx.externalId_eq, hy.externalId_eq, hsuffix, hns]

/-- A namespace, an owner and a rest are told apart. -/
theorem Regular.ownerPrefix_inj (hx : x.Regular) (hy : y.Regular) {rest rest' : Text}
    (h : ownerPrefix x.ns x.ownerId ++ rest = ownerPrefix y.ns y.ownerId ++ rest') :
    x.ns = y.ns ∧ x.ownerId = y.ownerId ∧ rest = rest' := by
  unfold ownerPrefix at h
  simp only [List.append_assoc, List.cons_append, List.nil_append] at h
  obtain ⟨hns, h⟩ := Netstring.before_colon hx.colon_not_mem hy.colon_not_mem h
  obtain ⟨howner, hrest⟩ := Netstring.before_colon (colon_not_mem_owner _) (colon_not_mem_owner _) h
  exact ⟨hns, Int.repr_injective (String.toList_inj.1 howner), hrest⟩

/-- The id that is stored. -/
def stored (x : Scoping) : Text := if byteLen x.full ≤ externalIdMaxBytes then x.full else hashedId x.ns x.ownerId x.externalId

theorem Regular.namespaceExternalId_eq (h : x.Regular) :
    namespaceExternalId x.source x.ownerId x.externalId = .ok x.stored := by
  show ownerScoped x.ns x.ownerId x.externalId externalIdMaxBytes = _
  unfold ownerScoped stored full
  dsimp only
  split
  · rfl
  · rw [if_neg (Nat.not_lt.2 h.room_ns)]

theorem byteLen_stored (h : x.Regular) : byteLen x.stored ≤ externalIdMaxBytes := by
  unfold stored
  split
  · next hle => exact hle
  · have hroom := h.room_ns
    unfold hashedId
    simp only [Utf8.byteLen_append, Utf8.byteLen_cons, byteLen_digestHex, Utf8.byteLen_nil] at hroom ⊢
    omega

theorem ownerPrefix_stored (x : Scoping) : ownerPrefix x.ns x.ownerId <+: x.stored := by
  unfold stored
  split
  · exact List.prefix_append _ _
  · exact List.prefix_append _ _

/-- The first id is short and spells out what the second, too long one, is stored as. -/
def Mimics (x y : Scoping) : Prop :=
  x.ownerId = y.ownerId ∧ y.TooLong ∧ x.externalId = y.ns ++ ':' :: '~' :: digestHex y.full

theorem Mimics.ns_eq (h : x.Mimics y) (hx : x.Regular) (hy : y.Regular) :
    x.ns = y.ns ∧ localSuffix x.ns x.externalId = '~' :: digestHex y.full := by
  have he := hx.externalId_eq
  rw [h.2.2] at he
  obtain ⟨hns, hsuffix⟩ := Netstring.before_colon hy.colon_not_mem hx.colon_not_mem he
  exact ⟨hns.symm, by rw [h.2.2]; exact hsuffix.symm⟩

/-- It is stored as the second one is, and is not the same. -/
theorem Mimics.collides (h : x.Mimics y) (hx : x.Regular) (hy : y.Regular) :
    x.stored = y.stored ∧ x.externalId ≠ y.externalId := by
  obtain ⟨hns, hsuffix⟩ := h.ns_eq hx hy
  have hfull : x.full = hashedId y.ns y.ownerId y.externalId := by
    unfold full scopedId hashedId
    rw [hsuffix, hns, h.1]
    rfl
  have hlong : ¬byteLen y.full ≤ externalIdMaxBytes := Nat.not_le.2 h.2.1
  have hy' : y.stored = hashedId y.ns y.ownerId y.externalId := if_neg hlong
  have hshort : byteLen x.full ≤ externalIdMaxBytes := by
    rw [hfull, ← hy']
    exact byteLen_stored hy
  constructor
  · rw [hy', ← hfull]
    exact if_pos hshort
  · intro he
    obtain ⟨hns, hsuffix⟩ := (hx.externalId_eq_iff hy).1 he
    refine hlong ?_
    have hsame : y.full = x.full := by
      unfold full scopedId
      rw [hsuffix, hns, h.1]
    rw [hsame]
    exact hshort

/-! ## Ids tell owners and ids -/

/-- What is stored tells the owner and the id, fits, and begins with namespace and owner. -/
structure Injective (x y : Scoping) : Prop where
  tells : namespaceExternalId x.source x.ownerId x.externalId = namespaceExternalId y.source y.ownerId y.externalId ↔
    x.ownerId = y.ownerId ∧ x.externalId = y.externalId
  fits : ∀ z ∈ [x, y], ∃ id, namespaceExternalId z.source z.ownerId z.externalId = .ok id ∧
    byteLen id ≤ externalIdMaxBytes ∧ ownerPrefix z.ns z.ownerId <+: id

/-- **Owner-scoped ids are injective**, unless one is the digest of the other by
itself. The hash is taken not to collide on the two ids. -/
theorem injective_iff (hx : x.Regular) (hy : y.Regular) (hsha : digestHex x.full = digestHex y.full → x.full = y.full) :
    Injective x y ↔ ¬x.Mimics y ∧ ¬y.Mimics x := by
  have hok : namespaceExternalId x.source x.ownerId x.externalId = namespaceExternalId y.source y.ownerId y.externalId ↔
      x.stored = y.stored := by
    rw [hx.namespaceExternalId_eq, hy.namespaceExternalId_eq, Except.ok.injEq]
  have hfull : x.full = y.full ↔ x.ownerId = y.ownerId ∧ x.externalId = y.externalId := by
    constructor
    · intro h
      obtain ⟨hns, howner, hsuffix⟩ := hx.ownerPrefix_inj hy h
      exact ⟨howner, (hx.externalId_eq_iff hy).2 ⟨hns, hsuffix⟩⟩
    · rintro ⟨howner, he⟩
      obtain ⟨hns, hsuffix⟩ := (hx.externalId_eq_iff hy).1 he
      unfold full scopedId
      rw [hsuffix, hns, howner]
  constructor
  · intro h
    refine ⟨fun hm => ?_, fun hm => ?_⟩
    · obtain ⟨hstored, hne⟩ := hm.collides hx hy
      exact hne (h.tells.1 (hok.2 hstored)).2
    · obtain ⟨hstored, hne⟩ := hm.collides hy hx
      exact hne (h.tells.1 (hok.2 hstored.symm)).2.symm
  · rintro ⟨hxy, hyx⟩
    refine ⟨hok.trans ⟨fun h => hfull.1 ?_, fun h => ?_⟩, fun z hz => ?_⟩
    · unfold stored at h
      split at h
      · split at h
        · exact h
        · next hlong =>
          refine absurd ⟨?_, Nat.not_le.1 hlong, ?_⟩ hxy
          · exact (hx.ownerPrefix_inj hy h).2.1
          · obtain ⟨hns, -, hsuffix⟩ := hx.ownerPrefix_inj hy h
            rw [hx.externalId_eq, hsuffix, hns]
            rfl
      · next hlong =>
        split at h
        · refine absurd ⟨?_, Nat.not_le.1 hlong, ?_⟩ hyx
          · exact (hy.ownerPrefix_inj hx h.symm).2.1
          · obtain ⟨hns, -, hsuffix⟩ := hy.ownerPrefix_inj hx h.symm
            rw [hy.externalId_eq, hsuffix, hns]
            rfl
        · exact hsha (List.cons.inj (hx.ownerPrefix_inj hy h).2.2).2
    · have hsame := hfull.2 h
      obtain ⟨hns, hsuffix⟩ := (hx.externalId_eq_iff hy).1 h.2
      unfold stored hashedId
      rw [hns, h.1, h.2]
      unfold full at hsame
      unfold full
      rw [hsame]
    · have hreg : z.Regular := by
        rcases List.mem_cons.1 hz with rfl | hz
        · exact hx
        · exact List.mem_singleton.1 hz ▸ hy
      exact ⟨z.stored, hreg.namespaceExternalId_eq, byteLen_stored hreg, z.ownerPrefix_stored⟩

/-- An id of the source `codex`, for owner 7. -/
def codex (rest : Text) : Scoping := ⟨"codex".toList, 7, "codex:".toList ++ rest⟩

theorem codex_regular (rest : Text) : (codex rest).Regular where
  plain := show ':' ∉ "codex".toList by decide
  room := show byteLen (ownerPrefix "codex".toList 7 ++ ['~']) + 64 ≤ externalIdMaxBytes by decide
  named := .inl ⟨rest, rfl⟩

theorem codex_ns (rest : Text) : (codex rest).ns = "codex".toList := by
  rcases (codex rest).ns_cases with h | h <;> rw [h]
  · rfl
  · show normalized "codex".toList = "codex".toList
    decide

theorem codex_full (rest : Text) : (codex rest).full = ownerPrefix "codex".toList 7 ++ rest := by
  have he : "codex".toList ++ ':' :: rest = _ := (codex_regular rest).externalId_eq
  rw [codex_ns] at he
  unfold full scopedId
  rw [codex_ns, ← (List.cons.inj (List.append_cancel_left he)).2]
  rfl

theorem byteLen_letters : ∀ n, byteLen (List.replicate n 'a') = n
  | 0 => rfl
  | n + 1 => by
    have ha : 'a'.utf8Size = 1 := rfl
    rw [List.replicate_succ, Utf8.byteLen_cons, byteLen_letters n, ha, Nat.add_comm]

/-- Two short ids. -/
theorem codex_tells : Injective (codex ['a']) (codex ['b']) :=
  (injective_iff (codex_regular ['a']) (codex_regular ['b']) (by decide +kernel)).2
    ⟨fun h => absurd h.2.1 (show ¬externalIdMaxBytes < byteLen (codex ['b']).full by decide +kernel),
      fun h => absurd h.2.1 (show ¬externalIdMaxBytes < byteLen (codex ['a']).full by decide +kernel)⟩

/-- An id of 600 letters, and the short id that spells its digest out. -/
theorem digest_spelt_out_collides :
    ¬Injective (codex ('~' :: digestHex (codex (List.replicate 600 'a')).full)) (codex (List.replicate 600 'a')) := by
  intro h
  have hlong : (codex (List.replicate 600 'a')).TooLong := by
    unfold TooLong
    rw [codex_full, Utf8.byteLen_append, byteLen_letters]
    decide
  have hmimics : (codex ('~' :: digestHex (codex (List.replicate 600 'a')).full)).Mimics
      (codex (List.replicate 600 'a')) := by
    refine ⟨rfl, hlong, ?_⟩
    rw [codex_ns]
    rfl
  obtain ⟨hstored, hne⟩ := hmimics.collides (codex_regular _) (codex_regular _)
  refine hne (h.tells.1 ?_).2
  rw [(codex_regular _).namespaceExternalId_eq, (codex_regular _).namespaceExternalId_eq, hstored]

end Scoping

end MemoryStore.AgentImport.ExternalId
