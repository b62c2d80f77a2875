/-
Which rows of the database should have vectors
(`infra/src/infra/embedding_target.rs`, `embedding_index/source_version.rs`).

`serde_json`'s reading of a reflection's metadata is the class `MetadataJson`.
-/
import MemoryStore.EmbeddingSpace.Startup
import MemoryStore.Lib.Utf8

namespace MemoryStore.EmbeddingIndex

/-- The vector table a target belongs to. -/
inductive TableLabel where
  | memory | thread | reflectionIntent
  deriving DecidableEq, Repr

inductive ImageSearchMode where
  | none | multimodal | vlmCaption | both
  deriving DecidableEq, Repr

def ImageSearchMode.isImageEnabled (mode : ImageSearchMode) : Bool := mode ≠ .none

inductive DispatchKind where
  | text | media
  deriving DecidableEq, Repr

/-! ## Source versions -/

abbrev SourceVersion := String

/-- `RULE` -/
def rule : String := "sv1"

def digest (parts : List String) : SourceVersion :=
  rule ++ ":" ++ Sha256.sha256Hex (Json.array (parts.map Json.string))

inductive TextSource where
  | memoryText | caption | threadDescription | reflectionIntent
  deriving DecidableEq, Repr

def TextSource.asStr : TextSource → String
  | .memoryText => "memory_text"
  | .caption => "caption"
  | .threadDescription => "thread_description"
  | .reflectionIntent => "reflection_intent"

/-- `source_version::text` -/
def textVersion (source : TextSource) (text : String) : SourceVersion := digest [source.asStr, text]

/-- `source_version::media`: stored media by its digest, other media by its URL. -/
def mediaVersion (mediaObjectId : Int) (sha256 url : Option String) : SourceVersion :=
  match sha256.filter (fun s => s ≠ "") with
  | some sha => digest ["media_stored", toString mediaObjectId, sha]
  | none => digest ["media_url", toString mediaObjectId, url.getD ""]

/-! ## The targets of a memory -/

/-- The first `max` characters. -/
def truncateChars (content : String) (max : Nat) : String := String.ofList (content.toList.take max)

/-- `ContentType::Image`. -/
def contentTypeImage : Int := 2

/-- `ContentType::Tool`. -/
def contentTypeTool : Int := 1

/-- `media_axis_dispatchable`: an image with bytes to read, in a mode with an image pipeline. -/
def mediaAxisDispatchable (mediaKind : Option Int) (mediaStorageBackend : Option String) (mode : ImageSearchMode) : Bool :=
  let isImage := mediaKind = some contentTypeImage
  let mediaEmbeddable := !(mediaStorageBackend = some "unresolvable" || mediaStorageBackend = some "inline")
  isImage && mediaEmbeddable && mode.isImageEnabled

/-- `ROLE_USER`, `ROLE_ASSISTANT`, `ROLE_SYSTEM` or `ROLE_REFLECTION`. -/
def roleOk (role : Int) : Bool := role = 1 || role = 2 || role = 3 || role = 6

def dispatchKinds (content : String) (role contentType : Int) (mediaKind : Option Int)
    (mediaStorageBackend : Option String) (mode : ImageSearchMode) : List DispatchKind :=
  if !roleOk role then []
  else
    let isTool := contentType = contentTypeTool
    (if !isTool && Whitespace.trim content ≠ "" then [.text] else []) ++
      (if mediaAxisDispatchable mediaKind mediaStorageBackend mode then [.media] else [])

structure LinkedMedia where
  id : Int
  kind : Int
  storageBackend : String
  sha256 : Option String
  url : Option String
  deriving DecidableEq, Repr

/-- The table and kind of the rows a target has, and the version of the input they are generated from. -/
structure DerivedTarget where
  table : TableLabel
  vectorKind : String
  version : SourceVersion
  deriving DecidableEq, Repr

/-- `is_reflection`: `ROLE_REFLECTION`. -/
def isReflection (role : Int) : Bool := role = 6

/-- What `serde_json` reads in a memory's metadata. -/
class MetadataJson where
  /-- The string at `/eval/task_intent` of the text parsed as JSON, when there is one. -/
  taskIntent : String → Option String

section Memory

variable [MetadataJson]

def reflectionTaskIntent (metadata : Option String) : String := (metadata.bind MetadataJson.taskIntent).getD ""

def reflectionTextIsTarget (text : String) : Bool := text ≠ ""

/-- The targets of the memory body. -/
def textTargets (kinds : List DispatchKind) (text : String) : List DerivedTarget :=
  if .text ∈ kinds then [⟨.memory, "text", textVersion .memoryText text⟩] else []

/-- The targets of the linked media; until there is a body, there is only a caption to generate. -/
def mediaTargets (kinds : List DispatchKind) (content text : String) (mode : ImageSearchMode) :
    Option LinkedMedia → List DerivedTarget
  | none => []
  | some m =>
    if .media ∈ kinds then
      (if mode = .multimodal ∨ mode = .both then [⟨.memory, "image", mediaVersion m.id m.sha256 m.url⟩] else []) ++
        (if (mode = .vlmCaption ∨ mode = .both) ∧ Whitespace.trim content ≠ "" then
          [⟨.memory, "caption", textVersion .caption text⟩] else [])
    else []

/-- The target of a reflection's intent. -/
def intentTargets (role : Int) (metadata : Option String) (maxContentLen : Nat) : List DerivedTarget :=
  if isReflection role then
    let intent := reflectionTaskIntent metadata
    if reflectionTextIsTarget intent then
      [⟨.reflectionIntent, "text", textVersion .reflectionIntent (truncateChars intent maxContentLen)⟩]
    else []
  else []

/-- Every target a memory row yields. -/
def memoryTargets (content : String) (role contentType : Int) (metadata : Option String) (media : Option LinkedMedia)
    (mode : ImageSearchMode) (maxContentLen : Nat) : List DerivedTarget :=
  let kinds := dispatchKinds content role contentType (media.map LinkedMedia.kind)
    (media.map LinkedMedia.storageBackend) mode
  let text := truncateChars content maxContentLen
  textTargets kinds text ++ mediaTargets kinds content text mode media ++ intentTargets role metadata maxContentLen

/-- The table and kind of a target. -/
def DerivedTarget.slot (d : DerivedTarget) : TableLabel × String := (d.table, d.vectorKind)

/-- The slots a memory row can fill. -/
def memorySlots : List (TableLabel × String) :=
  [(.memory, "text"), (.memory, "image"), (.memory, "caption"), (.reflectionIntent, "text")]

theorem textTargets_slots (kinds : List DispatchKind) (text : String) :
    ((textTargets kinds text).map DerivedTarget.slot).Sublist [(.memory, "text")] := by
  unfold textTargets
  split <;> simp [DerivedTarget.slot]

theorem mediaTargets_slots (kinds : List DispatchKind) (content text : String) (mode : ImageSearchMode)
    (media : Option LinkedMedia) :
    ((mediaTargets kinds content text mode media).map DerivedTarget.slot).Sublist
      [(.memory, "image"), (.memory, "caption")] := by
  cases media with
  | none => simp [mediaTargets]
  | some m =>
    simp only [mediaTargets]
    split
    · rw [List.map_append]
      have hfront : ∀ image, (List.map DerivedTarget.slot
          (if mode = .multimodal ∨ mode = .both then [⟨.memory, "image", image⟩] else [])).Sublist [(.memory, "image")] := by
        intro image
        split <;> simp [DerivedTarget.slot]
      refine List.Sublist.append (hfront _) ?_
      split <;> simp [DerivedTarget.slot]
    · simp

theorem intentTargets_slots (role : Int) (metadata : Option String) (maxContentLen : Nat) :
    ((intentTargets role metadata maxContentLen).map DerivedTarget.slot).Sublist [(.reflectionIntent, "text")] := by
  unfold intentTargets
  dsimp only
  split_ifs <;> simp [DerivedTarget.slot]

/-- A memory row fills each of its slots at most once, and in order. -/
theorem memoryTargets_slots (content : String) (role contentType : Int) (metadata : Option String)
    (media : Option LinkedMedia) (mode : ImageSearchMode) (maxContentLen : Nat) :
    ((memoryTargets content role contentType metadata media mode maxContentLen).map DerivedTarget.slot).Sublist
      memorySlots := by
  unfold memoryTargets
  rw [List.map_append, List.map_append]
  exact ((textTargets_slots _ _).append (mediaTargets_slots _ _ _ _ _)).append (intentTargets_slots _ _ _)

end Memory

/-! ## The target of a thread -/

def threadDescriptionIsTarget (description : String) : Bool := description ≠ ""

def threadTarget (description : String) (maxContentLen : Nat) : Option DerivedTarget :=
  if threadDescriptionIsTarget description then
    some ⟨.thread, "text", textVersion .threadDescription (truncateChars description maxContentLen)⟩
  else none

theorem threadTarget_table {description : String} {maxContentLen : Nat} {d : DerivedTarget}
    (h : threadTarget description maxContentLen = some d) : d.table = .thread := by
  unfold threadTarget at h
  split at h
  · cases h; rfl
  · cases h

end MemoryStore.EmbeddingIndex
