/-
The keys of a reflection: the external id that tells a repeated finalize from a
new one, and the hash of the labels that finds the thread of a reflection. Both
join texts that may contain the separator.
-/
import MemoryStore.Lib.Delimited
import MemoryStore.Lib.Netstring
import MemoryStore.Lib.SortedSet
import MemoryStore.Reflection.Finalize

namespace MemoryStore.Reflection

open Delimited (Shifted pieces)

/-! ## External ids -/

/-- The same reflection: of the same thread, by the same prompt and reflector. -/
def ValidRequest.SameReflection (a b : ValidRequest) : Prop :=
  a.originThreadId = b.originThreadId ∧ a.promptVersion = b.promptVersion ∧ a.reflectorId = b.reflectorId

/-- The same thread, and the same text of prompt version and reflector, cut at different colons. -/
def ValidRequest.Recut (a b : ValidRequest) : Prop :=
  a.originThreadId = b.originThreadId ∧
    (Shifted ':' a.promptVersion.toList a.reflectorId.toList b.promptVersion.toList b.reflectorId.toList ∨
      Shifted ':' b.promptVersion.toList b.reflectorId.toList a.promptVersion.toList a.reflectorId.toList)

theorem externalIdFor_toList (threadId : Nat) (promptVersion reflectorId : String) :
    (externalIdFor threadId promptVersion reflectorId).toList =
      "reflection:".toList ++
        ((toString threadId).toList ++ ':' :: (promptVersion.toList ++ ':' :: reflectorId.toList)) := by
  show ("reflection:" ++ toString threadId ++ ":" ++ promptVersion ++ ":" ++ reflectorId).toList = _
  simp

theorem ValidRequest.externalId_eq_iff (a b : ValidRequest) :
    a.externalId = b.externalId ↔ a.SameReflection b ∨ a.Recut b := by
  unfold ValidRequest.externalId ValidRequest.SameReflection ValidRequest.Recut
  rw [← String.toList_inj, externalIdFor_toList, externalIdFor_toList, List.append_cancel_left_eq,
    ← String.toList_inj, ← String.toList_inj]
  constructor
  · intro h
    obtain ⟨hthread, hrest⟩ := Netstring.before_colon (Netstring.colon_not_mem_repr _) (Netstring.colon_not_mem_repr _) h
    rcases (Delimited.pair_eq_iff ':').1 hrest with ⟨hprompt, hreflector⟩ | hshifted
    · exact .inl ⟨Nat.repr_injective (String.toList_inj.1 hthread), hprompt, hreflector⟩
    · exact .inr ⟨Nat.repr_injective (String.toList_inj.1 hthread), hshifted⟩
  · rintro (⟨hthread, hprompt, hreflector⟩ | ⟨hthread, hshifted⟩)
    · rw [hthread, hprompt, hreflector]
    · rw [hthread, (Delimited.pair_eq_iff ':').2 (.inr hshifted)]

/-- What is cut at different colons is not the same. -/
theorem ValidRequest.Recut.not_same {a b : ValidRequest} (h : a.Recut b) : ¬a.SameReflection b := by
  rintro ⟨-, hprompt, -⟩
  have hlength := congrArg (fun text : String => text.toList.length) hprompt
  rcases h.2 with ⟨mid, he, -⟩ | ⟨mid, he, -⟩
  · rw [he, List.length_append, List.length_cons] at hlength
    omega
  · rw [he, List.length_append, List.length_cons] at hlength
    omega

/-! ## Keys of label sets -/

/-- The same labels, but for the reserved one. -/
def SameLabels (l l' : List String) : Prop := ∀ label, label ≠ reflectionLabel → (label ∈ l ↔ label ∈ l')

/-- Different labels whose canonical lists, cut at every bar, read the same. -/
def LabelsRecut (l l' : List String) : Prop :=
  ¬SameLabels l l' ∧ pieces '|' ((composeAggregateLabels l).map String.toList) =
    pieces '|' ((composeAggregateLabels l').map String.toList)

theorem mem_composeAggregateLabels {l : List String} {label : String} :
    label ∈ composeAggregateLabels l ↔ label ∈ l ∨ label = reflectionLabel := by
  unfold composeAggregateLabels
  rw [List.mem_dedup, List.mem_insertionSort]
  split
  · next h => exact ⟨.inl, fun hl => hl.elim (fun hl => hl) fun he => he ▸ h⟩
  · rw [List.mem_append, List.mem_singleton]

theorem composeAggregateLabels_eq_iff {l l' : List String} :
    composeAggregateLabels l = composeAggregateLabels l' ↔ SameLabels l l' := by
  have hset : composeAggregateLabels l = composeAggregateLabels l' ↔
      ∀ label, label ∈ composeAggregateLabels l ↔ label ∈ composeAggregateLabels l' := by
    constructor
    · exact fun h label => by rw [h]
    · intro h
      refine SortedSet.ofList_eq_iff.2 fun label => ?_
      have hlabel := h label
      unfold composeAggregateLabels at hlabel
      rwa [List.mem_dedup, List.mem_insertionSort, List.mem_dedup, List.mem_insertionSort] at hlabel
  rw [hset]
  refine forall_congr' fun label => ?_
  rw [mem_composeAggregateLabels, mem_composeAggregateLabels]
  by_cases hr : label = reflectionLabel
  · simp [hr]
  · simp [hr]

theorem composeAggregateLabels_ne_nil (l : List String) : (composeAggregateLabels l).map String.toList ≠ [] := by
  intro h
  have hmem : reflectionLabel ∈ composeAggregateLabels l := mem_composeAggregateLabels.2 (.inr rfl)
  rw [List.map_eq_nil_iff.1 h] at hmem
  exact absurd hmem List.not_mem_nil

/-- The text that is hashed for the labels. -/
def labelsText (l : List String) : String := "|".intercalate (composeAggregateLabels l)

theorem labelsText_eq_iff {l l' : List String} : labelsText l = labelsText l' ↔ SameLabels l l' ∨ LabelsRecut l l' := by
  unfold labelsText
  rw [← String.toList_inj, String.toList_intercalate, String.toList_intercalate]
  show ['|'].intercalate _ = ['|'].intercalate _ ↔ _
  rw [Delimited.joined_eq_iff '|' (composeAggregateLabels_ne_nil l) (composeAggregateLabels_ne_nil l')]
  constructor
  · intro h
    by_cases hsame : SameLabels l l'
    · exact .inl hsame
    · exact .inr ⟨hsame, h⟩
  · rintro (h | h)
    · rw [composeAggregateLabels_eq_iff.2 h]
    · exact h.2

/-! ## The keys tell their origins -/

/-- The keys of two requests, and of two lists of labels, are equal when what they stand for is, and only then. -/
structure KeysTell (a b : ValidRequest) (l l' : List String) : Prop where
  externalId : a.externalId = b.externalId ↔ a.SameReflection b
  aggregate : sha256JoinPipe (composeAggregateLabels l) = sha256JoinPipe (composeAggregateLabels l') ↔ SameLabels l l'

/-- **Identity keys are injective** but for texts cut at different separators. The
hash is taken not to collide on the two texts at hand. -/
theorem keysTell_iff (a b : ValidRequest) (l l' : List String)
    (hsha : Sha256.sha256Hex (labelsText l) = Sha256.sha256Hex (labelsText l') → labelsText l = labelsText l') :
    KeysTell a b l l' ↔ ¬a.Recut b ∧ ¬LabelsRecut l l' := by
  have hhash : sha256JoinPipe (composeAggregateLabels l) = sha256JoinPipe (composeAggregateLabels l') ↔
      SameLabels l l' ∨ LabelsRecut l l' :=
    ⟨fun h => labelsText_eq_iff.1 (hsha h), fun h => congrArg Sha256.sha256Hex (labelsText_eq_iff.2 h)⟩
  constructor
  · intro h
    refine ⟨fun hrecut => ?_, fun hrecut => ?_⟩
    · exact hrecut.not_same (h.externalId.1 ((a.externalId_eq_iff b).2 (.inr hrecut)))
    · exact hrecut.1 (h.aggregate.1 (hhash.2 (.inr hrecut)))
  · rintro ⟨hid, hlabels⟩
    exact ⟨(a.externalId_eq_iff b).trans (or_iff_left hid), hhash.trans (or_iff_left hlabels)⟩

/-- A request for a reflection of thread 1. -/
def reflectionBy (promptVersion reflectorId : String) (h : reflectorId ≠ "" ∧ promptVersion ≠ "") : ValidRequest :=
  { originThreadId := 1, outcome := 1, taskCategory := 1, failureModes := [], toolsUsed := [], toolOutcomes := []
    facts := [], searchDocument := "", metadata := "", reflectorId, promptVersion, named := h }

theorem plain_labels_told : KeysTell (reflectionBy "v1" "a" (by decide)) (reflectionBy "v2" "a" (by decide)) ["x"] ["x"] ↔
    ¬(reflectionBy "v1" "a" (by decide)).Recut (reflectionBy "v2" "a" (by decide)) ∧ ¬LabelsRecut ["x"] ["x"] :=
  keysTell_iff _ _ ["x"] ["x"] fun _ => rfl

/-- Two prompts whose requests share an external id, and two sets of labels that share a key. -/
theorem recut_keys_collide :
    ¬KeysTell (reflectionBy "v1:a" "b" (by decide)) (reflectionBy "v1" "a:b" (by decide)) [] [] ∧
      ¬KeysTell (reflectionBy "v1" "a" (by decide)) (reflectionBy "v1" "a" (by decide)) ["x|y"] ["x", "y"] := by
  constructor
  · intro h
    have hid : (reflectionBy "v1:a" "b" (by decide)).externalId = (reflectionBy "v1" "a:b" (by decide)).externalId := by
      decide +kernel
    exact absurd (h.externalId.1 hid).2.1 (by decide)
  · intro h
    have htext : labelsText ["x|y"] = labelsText ["x", "y"] := by decide +kernel
    have hsame := h.aggregate.1 (congrArg Sha256.sha256Hex htext) "x" (by decide)
    exact absurd (hsame.2 (by decide)) (by decide)

end MemoryStore.Reflection
