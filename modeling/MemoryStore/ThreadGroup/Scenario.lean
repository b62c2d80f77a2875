/-
Runs on fixed inputs: the real hash, and short names for the calls an importer
makes. The texts used are ASCII, which NFC leaves as they are. The digest of a
purge preview is echoed by the caller that purges, so any function stands for it.
-/
import MemoryStore.Lib.Sha
import MemoryStore.ThreadGroup.System

namespace MemoryStore.ThreadGroup.Scenario

scoped instance sha256KeyHash : KeyHash := ⟨id, Sha256.sha256Hex⟩

scoped instance previewDigest : PurgeDigest := ⟨fun _ groupId => "preview of group " ++ toString groupId⟩

/-- The session of a user in one source. -/
def session (nativeId : String) : SourceIdentity := ⟨1, "codex", .known "host", nativeId⟩

/-- The importer's batch for a session, which makes its thread. -/
def importing (nativeId : String) : Action := .batch (.upsertByChannel 1 nativeId) (some (session nativeId)) false

/-- Evidence that a session was delegated by another. -/
def evidence (child parent : String) (confidence : SourceConfidence) : ObservationInput :=
  { subject := session child
    candidateParent := some (session parent)
    relationKind := some .delegated
    evidenceKind := .sourceField
    polarity := .supports
    sourceConfidence := some confidence
    adapterVersion := "codex@1"
    sourceRecordRef := child ++ ".jsonl"
    observedAt := 1 }

/-- The subject's transaction for a session behind a thread. -/
def reconciling (threadId : Nat) (nativeId : String) (observations : List ObservationInput) : Action :=
  .reconcile threadId (session nativeId) observations 1 ("import of " ++ nativeId) 1 false

/-- The store after a list of actions on the empty store. -/
def after (actions : List Action) : Store := Run.execAll Action.exec actions Store.empty

theorem reachable_after (actions : List Action) : Reachable (after actions) :=
  Run.reaches_execAll (fun _ _ _ => trivial) Store.empty

theorem after_append (actions : List Action) (a : Action) : after (actions ++ [a]) = a.exec (after actions) := by
  simp [after, Run.execAll]

/-- A child session imported on its own, and then again with the parent it names. -/
def adoptedLate : List Action :=
  [importing "p", importing "c", reconciling 1 "p" [], reconciling 2 "c" [],
   reconciling 2 "c" [evidence "c" "p" .exact]]

/-- The same, and then both threads are deleted: the group of the child on its own
is redirected to the group of the parent, which holds placeholders only. -/
def deletedBoth : List Action := adoptedLate ++ [.delete [1] false 5, .delete [2] false 5]

/-- Two parents tie for a child, and the operator confirms the first. -/
def confirmed : List Action :=
  [importing "p", importing "q", importing "c", reconciling 1 "p" [], reconciling 2 "q" [],
   reconciling 3 "c" [evidence "c" "p" .exact, evidence "c" "q" .exact], .decide 9 .confirm "asked the author" 2]

/-- A group is merged into the one of parent and child, and then the child gets a child of its own. -/
def operated : List Action :=
  adoptedLate ++ [importing "x", reconciling 7 "x" [], .merge 8 3, importing "d",
    reconciling 10 "d" [evidence "d" "c" .exact]]

/-- Parent and child are deleted and purged, which leaves their relation behind; then the child gets
a new thread, and so do another session and the parent. -/
def purgedAndReimported : List Action :=
  [importing "p", importing "c", reconciling 1 "p" [], reconciling 2 "c" [evidence "c" "p" .exact],
   .delete [1] false 5, .delete [2] false 5, .purge 3 "preview of group 3",
   .batch (.upsertByChannel 1 "c again") none false, reconciling 6 "c" [],
   importing "q", reconciling 8 "q" [], .batch (.upsertByChannel 1 "p again") none false]

/-- Two sessions in groups of their own, and a third without one. -/
def twoParents : List Action :=
  [importing "p", importing "q", importing "c", reconciling 1 "p" [], reconciling 2 "q" []]

/-- The third is adopted by the first, which the second contradicts, and then by the second. -/
def adoptedTwice : List Action :=
  [reconciling 3 "c" [evidence "c" "p" .exact], reconciling 3 "c" [evidence "c" "q" .exact],
   reconciling 3 "c" [evidence "c" "q" .exact]]

/-- The key of a session's identity. -/
def keyOfSession (nativeId : String) : Key := (sourceThreadCanonicalKey (session nativeId)).getD ""

/-- A session attached to another's group under its source identity, deleted, and imported again. -/
def attachedSession : List Action :=
  [importing "p", reconciling 1 "p" [], importing "q", .attach 2 3 (keyOfSession "q") (some (session "q")),
   .delete [3] false 5, importing "q"]

/-- A thread made by hand has a random key and no source identity; the attach handler finds no endpoint for it. -/
def attachedByHand : List Action :=
  [importing "p", reconciling 1 "p" [],
   .createThread 1 none "5a0c5f1d2b6e4c8890b1d7e3f4a6c2905a0c5f1d2b6e4c8890b1d7e3f4a6c290",
   .attach 2 3 "5a0c5f1d2b6e4c8890b1d7e3f4a6c2905a0c5f1d2b6e4c8890b1d7e3f4a6c290" none]

end MemoryStore.ThreadGroup.Scenario
