/-
The tree under `--root` as the import meets it: what can be listed, opened and
stat'ed, and which file a recorded path text stands for.
-/
import MemoryStore.Lib.Utf8

namespace MemoryStore.PlainSource

abbrev Text := List Char

/-- The bytes of an `OsStr`. -/
abbrev Bytes := List UInt8

/-- A path relative to the root, name by name. -/
abbrev RelPath := List Bytes

/-! ## Paths -/

def slash : UInt8 := 47

def dot : UInt8 := 46

inductive Component where
  | rootDir
  | curDir
  | parentDir
  | normal (name : Bytes)
  deriving DecidableEq

def component (part : Bytes) : Option Component :=
  if part = [] ∨ part = [dot] then none else if part = [dot, dot] then some .parentDir else some (.normal part)

/-- `Path::components`; two paths are equal when these are. -/
def components (path : Bytes) : List Component :=
  let parts := path.splitOn slash
  let start : List Component :=
    if path.head? = some slash then [.rootDir] else if parts.head? = some [dot] then [.curDir] else []
  start ++ parts.filterMap component

/-- `PathBuf::from` of a text, by components. -/
def pathOf (text : Text) : List Component := components (Utf8.encode text)

def RelPath.bytes (rel : RelPath) : Bytes := List.intercalate [slash] rel

/-- `Path::to_string_lossy`. -/
def RelPath.toStringLossy (rel : RelPath) : Text := Utf8.lossy rel.bytes

/-- A name a directory can hold. -/
def ValidName (name : Bytes) : Prop := component name = some (.normal name) ∧ slash ∉ name ∧ 0 ∉ name

instance (name : Bytes) : Decidable (ValidName name) := inferInstanceAs (Decidable (_ ∧ _ ∧ _))

/-- The directories a path goes through, the root first. -/
def RelPath.parents (rel : RelPath) : List RelPath := rel.inits.dropLast

/-! ## The tree -/

/-- What `metadata` and `read` say of a file; `bytes` is none when it cannot be read. -/
structure FileNode where
  bytes : Option Bytes
  size : ℕ
  modified : Option ℤ
  created : Option ℤ

/-- An entry of a directory; a link is one that leads to a file or a directory, and what resolves to neither
(a socket, a dangling link) is special. -/
inductive Node where
  | file (link : Bool) (f : FileNode)
  | dir (link listable searchable : Bool)
  | special (resolves : Bool)

def Node.isDir : Node → Bool
  | .dir .. => true
  | _ => false

def Node.isFile : Node → Bool
  | .file .. => true
  | _ => false

def nodeIn (nodes : List (RelPath × Node)) (rel : RelPath) : Option Node :=
  (nodes.find? fun e => e.1 = rel).map Prod.snd

structure Vault where
  /-- The names of the canonical root. -/
  root : List Bytes
  nodes : List (RelPath × Node)
  names : ∀ e ∈ nodes, ∀ name ∈ e.1, ValidName name
  closed : ∀ e ∈ nodes, ∀ q ∈ RelPath.parents e.1, (nodeIn nodes q).any Node.isDir = true

namespace Vault

def node (v : Vault) (rel : RelPath) : Option Node := nodeIn v.nodes rel

/-- Execute permission on every directory above: a name in it can be looked up. -/
def searchable (v : Vault) (rel : RelPath) : Bool :=
  rel.parents.all fun q => match v.node q with
    | some (.dir _ _ searchable) => searchable
    | _ => false

/-- Read permission on every directory above, none of them behind a link that is not followed. -/
def listed (v : Vault) (follow : Bool) (rel : RelPath) : Bool :=
  rel.parents.all fun q => match v.node q with
    | some (.dir link listable _) => listable && (follow || !link)
    | _ => false

/-- `std::fs::metadata`. -/
def stat (v : Vault) (rel : RelPath) : Option Node :=
  if v.searchable rel then
    match v.node rel with
    | some (.special false) => none
    | other => other
  else none

/-- `std::fs::read`. -/
def read (v : Vault) (rel : RelPath) : Option Bytes :=
  match v.stat rel with
  | some (.file _ f) => f.bytes
  | _ => none

/-- The names of a path that stays relative. -/
def relPath? : List Component → Option RelPath
  | [] => some []
  | .normal name :: rest => (relPath? rest).map (name :: ·)
  | _ => none

/-- Where under the root a text leads, when it stays relative. -/
def place? (text : Text) : Option RelPath := relPath? ((pathOf text).dropWhile (· = .curDir))

/-- A trailing separator asks for a directory. -/
def wantsDir (path : Bytes) : Bool :=
  path.getLast? = some slash || (path.splitOn slash).getLast? = some [dot]

/-- `canonical_root.join(path).exists()`; `elsewhere` answers for a path that leaves the root. -/
def fsPathExists (v : Vault) (elsewhere : Bytes → Bool) (text : Text) : Bool :=
  match place? text with
  | some rel => match v.stat rel with
    | some node => !wantsDir (Utf8.encode text) || node.isDir
    | none => false
  | none => elsewhere (Utf8.encode text)

/-- A file of the tree whose recorded path is the text. -/
def Records (v : Vault) (rel : RelPath) (text : Text) : Prop :=
  (v.node rel).any Node.isFile = true ∧ pathOf rel.toStringLossy = pathOf text

/-- The file that a recorded path stands for is there. -/
def OnDisk (v : Vault) (text : Text) : Prop := ∃ rel, v.Records rel text

instance (v : Vault) (rel : RelPath) (text : Text) : Decidable (v.Records rel text) :=
  inferInstanceAs (Decidable (_ ∧ _))

theorem onDisk_iff {v : Vault} {text : Text} : (∃ e ∈ v.nodes, v.Records e.1 text) ↔ v.OnDisk text := by
  constructor
  · rintro ⟨e, -, h⟩
    exact ⟨e.1, h⟩
  · rintro ⟨rel, h⟩
    have hsome := h.1
    simp only [node, nodeIn] at hsome
    cases hfind : v.nodes.find? (fun e => e.1 = rel) with
    | none => simp [hfind] at hsome
    | some e =>
      obtain rfl : e.1 = rel := by simpa using List.find?_some hfind
      exact ⟨e, List.mem_of_find?_eq_some hfind, h⟩

instance (v : Vault) (text : Text) : Decidable (v.OnDisk text) := decidable_of_iff _ onDisk_iff

end Vault

end MemoryStore.PlainSource
