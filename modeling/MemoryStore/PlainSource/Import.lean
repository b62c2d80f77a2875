/-
The plain text source: which files of the tree are considered, what each becomes,
and what one import run emits.
-/
import MemoryStore.Lib.Sha
import MemoryStore.Lib.Utf8
import MemoryStore.PlainSource.Vault

namespace MemoryStore.PlainSource

/-- The formats read by other libraries: front matter, and the metadata a memory is stored with. -/
class Formats (Y : Type) where
  /-- A YAML document; none for `null` and for what does not parse. -/
  yaml : Text → Option Y
  created : Y → Option ℤ
  updated : Y → Option ℤ
  /-- The string under `path` of a JSON text. -/
  metadataPath : Text → Option Text

inductive ThreadStrategy where
  | perFile
  | perDir
  | single
  deriving DecidableEq

inductive EncodingMode where
  | utf8Lossy
  | utf8Strict
  deriving DecidableEq

structure PlainArgs where
  sourceName : Text
  ext : Text
  /-- The verdict of the ignore files, on a path and the directories above. -/
  ignored : RelPath → Bool
  /-- `--exclude-glob`. -/
  excluded : RelPath → Bool
  followSymlinks : Bool
  threadStrategy : ThreadStrategy
  encoding : EncodingMode
  frontmatter : Bool
  maxFileSizeBytes : ℕ

/-! ## Discovery -/

def toLower (b : UInt8) : UInt8 := if 65 ≤ b && b ≤ 90 then b + 32 else b

/-- `PlainSource::extensions`. -/
def PlainArgs.extensions (args : PlainArgs) : List Bytes :=
  ((args.ext.splitOn ',').map fun s =>
    (Utf8.encode ((Whitespace.trimChars s).dropWhile (· = '.'))).map toLower).filter (· ≠ [])

/-- `Path::extension` of a file name. -/
def extension (name : Bytes) : Option Bytes :=
  match name.reverse.dropWhile (· ≠ dot) with
  | _ :: _ :: _ => some (name.reverse.takeWhile (· ≠ dot)).reverse
  | _ => none

/-- `extension`, `to_str` and `to_ascii_lowercase`. -/
def lowerExtension (rel : RelPath) : Option Bytes := do
  let name ← rel.getLast?
  let ext ← extension name
  if (Utf8.strict? ext).isSome then pure (ext.map toLower) else none

/-- An entry the walker yields as a file and no filter drops. -/
def considered (args : PlainArgs) (v : Vault) (rel : RelPath) : Bool :=
  v.listed args.followSymlinks rel && !args.ignored rel &&
  (match v.node rel with
    | some (.file link _) => args.followSymlinks || !link
    | _ => false) &&
  (lowerExtension rel).any (fun ext => args.extensions.contains ext) && !args.excluded rel &&
  (match v.stat rel with
    | some (.file _ f) => f.size ≤ args.maxFileSizeBytes
    | _ => false)

def discoverFiles (args : PlainArgs) (v : Vault) : List RelPath :=
  ((v.nodes.map Prod.fst).filter (considered args v)).insertionSort (· ≤ ·)

/-- What one session is read from. -/
inductive PlainSessionInput where
  | file (rel : RelPath)
  | dir (relDir : RelPath) (files : List RelPath)
  | single (files : List RelPath)

def PlainSessionInput.files : PlainSessionInput → List RelPath
  | file rel => [rel]
  | dir _ files | single files => files

def discover (args : PlainArgs) (v : Vault) : List PlainSessionInput :=
  let files := discoverFiles args v
  if files = [] then []
  else match args.threadStrategy with
    | .perFile => files.map .file
    | .perDir =>
      ((files.map List.dropLast).dedup.insertionSort (· ≤ ·)).map fun relDir =>
        .dir relDir (files.filter fun rel => rel.dropLast = relDir)
    | .single => [.single files]

/-! ## Reading a file -/

/-- The lines of a text, each with its terminator. -/
def splitInclusive : Text → List Text
  | [] => []
  | c :: cs =>
    if c = '\n' then [c] :: splitInclusive cs
    else match splitInclusive cs with
      | [] => [[c]]
      | line :: lines => (c :: line) :: lines

def isYamlFence (line : Text) : Bool :=
  line ∈ ["---".toList, "---\n".toList, "---\r\n".toList]

/-- The lines before the closing fence and those after it. -/
def closeFence : List Text → Option (List Text × List Text)
  | [] => none
  | line :: lines =>
    if isYamlFence line then some ([], lines)
    else (closeFence lines).map fun (yaml, body) => (line :: yaml, body)

section
variable {Y : Type} [Formats Y]

def splitFrontmatter (raw : Text) : Text × Option Y :=
  match splitInclusive raw with
  | [] => (raw, none)
  | first :: lines =>
    if isYamlFence first then
      match closeFence lines with
      | none => (raw, none)
      | some (yaml, body) => match Formats.yaml yaml.flatten with
        | some value => (body.flatten, some value)
        | none => (raw, none)
    else (raw, none)

structure LoadedFile where
  rel : RelPath
  rawBytes : Option Bytes
  contentBody : Option Text
  fsMtime : ℤ
  effCreated : ℤ
  effUpdated : ℤ

def isMarkdownPath (rel : RelPath) : Bool :=
  (lowerExtension rel).any fun ext =>
    ext = Utf8.encode "md".toList || ext = Utf8.encode "markdown".toList

/-- Creation and modification time, `now` when the file system tells neither. -/
def fileTimestamps (v : Vault) (now : ℤ) (rel : RelPath) : ℤ × ℤ :=
  match v.stat rel with
  | some (.file _ f) =>
    let created := (f.created.or f.modified).getD now
    (created, f.modified.getD created)
  | _ => (now, now)

variable (Y) in
def loadOne (args : PlainArgs) (v : Vault) (now : ℤ) (rel : RelPath) : LoadedFile :=
  let (fsCreated, fsMtime) := fileTimestamps v now rel
  let rawBytes := v.read rel
  let rawStr := rawBytes.bind fun bytes => match args.encoding with
    | .utf8Strict => Utf8.strict? bytes
    | .utf8Lossy => some (Utf8.lossy bytes)
  let split : Option (Text × Option Y) := rawStr.map fun s =>
    if args.frontmatter && isMarkdownPath rel then splitFrontmatter s else (s, none)
  let frontmatter : Option Y := split.bind Prod.snd
  { rel, rawBytes, fsMtime, contentBody := split.map Prod.fst,
    effCreated := (frontmatter.bind Formats.created).getD fsCreated,
    effUpdated := (frontmatter.bind Formats.updated).getD fsMtime }

end

/-! ## Entries -/

/-- What the import makes of one file. -/
structure CanonicalEntry where
  externalId : Text
  /-- `metadata.path`. -/
  path : Text
  sizeBytes : ℕ
  mtimeMs : ℤ
  content : Text
  timestampMs : ℤ
  importOrder : ℕ

/-- The first hex digits of the digest of some bytes. -/
def sha256HexPrefix (bytes : Bytes) (n : ℕ) : Text :=
  (Sha256.digestHex (bytes.map UInt8.toNat)).take n

/-- The last name of the root that is text. -/
def singleBasename (v : Vault) : Text :=
  ((v.root.reverse.filterMap Utf8.strict?).head?).getD "vault".toList

/-- `.` for the root itself. -/
def relDirText (relDir : RelPath) : Text := if relDir = [] then ['.'] else relDir.toStringLossy

def entrySessionId (args : PlainArgs) (v : Vault) (rel : RelPath) : Text :=
  match args.threadStrategy with
  | .perFile => "file:".toList ++ sha256HexPrefix (Utf8.encode rel.toStringLossy) 32
  | .perDir => "dir:".toList ++ sha256HexPrefix (Utf8.encode (relDirText rel.dropLast)) 32
  | .single => "root:".toList ++ sha256HexPrefix (Utf8.encode (singleBasename v)) 32

def buildEntry (args : PlainArgs) (v : Vault) (idx : ℕ) (l : LoadedFile) : Option CanonicalEntry := do
  let rawBytes ← l.rawBytes
  let contentBody ← l.contentBody
  let relStr := l.rel.toStringLossy
  let entryUid := sha256HexPrefix (Utf8.encode relStr) 16 ++ ':' :: sha256HexPrefix rawBytes 16
  pure { externalId := args.sourceName ++ ':' :: entrySessionId args v l.rel ++ ':' :: entryUid
         path := relStr, sizeBytes := rawBytes.length, mtimeMs := l.fsMtime, content := contentBody
         timestampMs := l.effUpdated, importOrder := idx }

/-- The entries of a session and how many of its files were dropped. -/
def buildEntriesFromFiles (args : PlainArgs) (v : Vault) (loaded : List LoadedFile) : List CanonicalEntry × ℕ :=
  let sorted := loaded.insertionSort (fun a b => a.effCreated ≤ b.effCreated)
  let entries := (sorted.zipIdx.filterMap fun (l, idx) => buildEntry args v idx l)
  (entries, loaded.length - entries.length)

/-! ## Sessions -/

inductive ReadSessionOutcome where
  | skipped (filteredCount : ℕ)
  | importStream (entries : List CanonicalEntry) (dropped : ℕ)

def fileMtimeStrictlyOlderThan (v : Vault) (threshold : ℤ) (rel : RelPath) : Bool :=
  match v.stat rel with
  | some (.file _ f) => f.modified.any (· < threshold)
  | _ => false

/-- The session-level filter: every file is older than the threshold. -/
def sessionMtimeSkip (v : Vault) (input : PlainSessionInput) (sinceMillisWithMargin : Option ℤ) : Bool :=
  sinceMillisWithMargin.any fun threshold =>
    input.files ≠ [] && input.files.all (fileMtimeStrictlyOlderThan v threshold)

section
variable (Y : Type) [Formats Y]

def readSession (args : PlainArgs) (v : Vault) (now : ℤ) (sinceMillisWithMargin : Option ℤ)
    (input : PlainSessionInput) : ReadSessionOutcome :=
  if sessionMtimeSkip v input sinceMillisWithMargin then .skipped 0
  else
    let (entries, dropped) := buildEntriesFromFiles args v (input.files.map (loadOne Y args v now))
    if entries = [] ∧ 0 < dropped then .skipped dropped else .importStream entries dropped

end

/-! ## External ids -/

def externalIdMaxBytes : ℕ := 512

/-- The namespace of an external id, also under the underscore form of the source. -/
def namespaceForExternalId (source externalId : Text) : Option Text :=
  if source ++ [':'] <+: externalId then some source
  else
    let normalized := source.map fun c => if c = '-' then '_' else c
    if normalized ++ [':'] <+: externalId then some normalized else none

def decimal (n : ℤ) : Text := (toString n).toList

/-- Adds an owner scope to an identifier; none when the limit is too small for the hashed form. -/
def ownerScoped (ns : Text) (ownerId : ℤ) (externalId : Text) (maxBytes : ℕ) : Option Text :=
  let nsPrefix := ns ++ [':']
  let suffix := if nsPrefix <+: externalId then externalId.drop nsPrefix.length else externalId
  let full := ns ++ ':' :: decimal ownerId ++ ':' :: suffix
  let hashed := ns ++ ':' :: decimal ownerId ++ [':', '~']
  if (Utf8.encode full).length ≤ maxBytes then some full
  else if maxBytes < (Utf8.encode hashed).length + 64 then none
  else some (hashed ++ Sha256.digestHex ((Utf8.encode full).map UInt8.toNat))

/-- None where the program panics. -/
def namespaceExternalId (sourceId : Text) (creatorUserId : ℤ) (externalId : Text) : Option Text :=
  ownerScoped ((namespaceForExternalId sourceId externalId).getD sourceId) creatorUserId externalId
    externalIdMaxBytes

/-! ## The run -/

def isEntryImportable (sinceMillis : Option ℤ) (entry : CanonicalEntry) : Bool :=
  sinceMillis.all (· ≤ entry.timestampMs)

/-- An entry as it is sent, under its creator's external id. -/
structure SentEntry where
  externalId : Text
  entry : CanonicalEntry

def namespaced (sourceId : Text) (userId : ℤ) (entry : CanonicalEntry) : Option SentEntry :=
  (namespaceExternalId sourceId userId entry.externalId).map fun externalId => { externalId, entry }

structure GlobalArgs where
  sinceMillis : Option ℤ
  sinceMillisWithMargin : Option ℤ
  userId : ℤ

/-- What the sessions of a run collected for the prune, what they sent, and how many ended with an error. -/
structure ImportRun where
  collected : List CanonicalEntry
  sent : List SentEntry
  errors : ℕ

/-- One session: the collector sees what is then sent; `failed` is the answer of the server. -/
def runImport (args : PlainArgs) (g : GlobalArgs) (failed : List SentEntry → Bool)
    (entries : List CanonicalEntry) : Option ImportRun := do
  let sorted := entries.insertionSort fun a b =>
    a.importOrder < b.importOrder ∨ a.importOrder = b.importOrder ∧ a.timestampMs ≤ b.timestampMs
  let sent ← (sorted.filter (isEntryImportable g.sinceMillis)).mapM (namespaced args.sourceName g.userId)
  pure { collected := entries.filter (isEntryImportable g.sinceMillis), sent
         errors := if sent ≠ [] && failed sent then 1 else 0 }

section
variable (Y : Type) [Formats Y]

/-- `run_all_with_entry_collector`; none where the program panics. -/
def runAll (args : PlainArgs) (v : Vault) (g : GlobalArgs) (now : ℤ) (failed : List SentEntry → Bool) :
    Option ImportRun := do
  let runs ← ((discover args v).filterMap fun input =>
    match readSession Y args v now g.sinceMillisWithMargin input with
    | .skipped _ => none
    | .importStream entries _ => some entries).mapM (runImport args g failed)
  pure { collected := runs.flatMap ImportRun.collected, sent := runs.flatMap ImportRun.sent
         errors := (runs.map ImportRun.errors).sum }

end

end MemoryStore.PlainSource
