/-
A transcript keeps its reply tree: ids and orders are distinct, parents are ids
of entries that the transcript yields when nothing is left out, first blocks
hang below the first blocks they answer, later blocks below their line's first
and tool results below their calls. The one thing to ask is that no line answers
a line that yields nothing: such a line has an id in the table all the same.
-/
import MemoryStore.AgentImport.ClaudeCode.Narrowing

namespace MemoryStore.AgentImport.ClaudeCode

open Rendering

/-- All types and all subtypes. -/
def everything : Settings where
  includeTypes := ["user", "assistant", "system", "tool_call", "tool_output", "attachment", "reasoning"]
  attachmentPolicy := .all

section Rendered

variable {Body : Type} [Rendering Body]

/-- An entry is what a line has at a place. -/
def IsBlockOf (sessionId : Text) (entry : RawEntry) (idx : BlockIdx) (x : CanonicalEntry Body) : Prop :=
  ∃ uuid payload, entry.uuid = some uuid ∧ x.externalId = buildBlockExternalId sessionId uuid idx payload

/-- A tool result, for a call with this id. -/
def ResultAt (lines : List RawEntry) (i k : Nat) (t : Text) : Prop :=
  ∃ entry block, lines[i]? = some entry ∧ IsMessage entry ∧ (messageBlocks entry)[k]? = some block ∧
    isToolResult block = true ∧ textAt "tool_use_id" block = some t

/-- One block comes before the other. -/
def Before (i k i' k' : Nat) : Prop := i < i' ∨ i = i' ∧ k < k'

/-- **The reply tree of a transcript is kept.** Narrowing leaves everything but where attachments hang, and that too
unless it drops tool outputs. -/
structure KeepsReplyTree (sessionId : Text) (settings : Settings) (lines : List RawEntry) : Prop where
  distinct : ((transcript sessionId settings lines).map CanonicalEntry.externalId).Nodup
  ordered : (transcript sessionId settings lines).Pairwise fun x y => x.importOrder < y.importOrder
  known : ∀ x ∈ transcript sessionId settings lines, ∀ p ∈ x.parentExternalIds,
    ∃ y ∈ transcript sessionId everything lines, y.externalId = p
  replied : ∀ x ∈ transcript sessionId settings lines, ∀ y ∈ transcript sessionId everything lines,
    ∀ entry ∈ lines, ∀ parent ∈ lines, IsBlockOf sessionId entry (.top 0) x → IsBlockOf sessionId parent (.top 0) y →
      parent.uuid = entry.parentUuid → x.parentExternalIds.getLast? = some y.externalId
  later : ∀ x ∈ transcript sessionId settings lines, ∀ entry ∈ lines, ∀ k, IsBlockOf sessionId entry (.top (k + 1)) x →
    ∃ y ∈ transcript sessionId everything lines, IsBlockOf sessionId entry (.top 0) y ∧
      x.parentExternalIds.getLast? = some y.externalId
  answered : ∀ x ∈ transcript sessionId settings lines, ∀ i k t entry, lines[i]? = some entry →
    ResultAt lines i k t → IsBlockOf sessionId entry (.top k) x →
      ∀ i' k' entry', i' < i → lines[i']? = some entry' → CallAt lines i' k' t →
        (∀ i'' k'', CallAt lines i'' k'' t → Before i' k' i'' k'' → ¬Before i'' k'' i k) →
          ∃ y ∈ transcript sessionId everything lines, IsBlockOf sessionId entry' (.top k') y ∧
            x.parentExternalIds.head? = some y.externalId
  narrowed : ∀ narrower : Settings, narrower.Narrows settings →
      List.Sublist ((transcript sessionId narrower lines).map CanonicalEntry.unplaced)
          ((transcript sessionId settings lines).map CanonicalEntry.unplaced) ∧
        (narrower.shown = settings.shown →
          List.Sublist (transcript sessionId narrower lines) (transcript sessionId settings lines))

/-! ## What a line yields, by its shape -/

def isNull : Value → Bool
  | .null => true
  | _ => false

/-- A line that yields its first block when nothing is left out. -/
def yieldsFirst (entry : RawEntry) : Bool :=
  isCanonicalEventType entry.entryType && entry.uuid.isSome && (entry.timestamp.bind parseTimestampMillis).isSome &&
    if entry.entryType = "attachment" then true
    else if entry.entryType = "system" then entry.content.any fun value => !isNull value
    else !(messageBlocks entry).isEmpty

/-- The kind of a block of a message. -/
def blockKind (entryType : String) (block : Value) : String :=
  if blockType block = "tool_use".toList then "tool_call"
  else if blockType block = "tool_result".toList then "tool_output"
  else if blockType block = "image".toList then "attachment"
  else if blockType block = "thinking".toList ∨ blockType block = "redacted_thinking".toList then "reasoning"
  else
    match entryType with
    | "user" => "user"
    | "assistant" => "assistant"
    | _ => "system"

/-- A line whose first block is kept, or an image in it that hangs where the tool result would. -/
def anchored (settings : Settings) (entry : RawEntry) : Bool :=
  yieldsFirst entry &&
    if entry.entryType = "attachment" then
      "attachment" ∈ settings.includeTypes && settings.attachmentPolicy.includes (entry.subtype.getD [])
    else if entry.entryType = "system" then "system" ∈ settings.includeTypes
    else (messageBlocks entry).head?.any fun block =>
      blockKind entry.entryType block ∈ settings.includeTypes ||
        "attachment" ∈ settings.includeTypes && !settings.shown &&
          (innerImages block).any fun sub => blockType sub = "image".toList

/-- **A line answers no line that yields nothing**; an attachment whose parent is the empty text answers none at all. -/
def Resolvable (settings : Settings) (lines : List RawEntry) : Prop :=
  ∀ entry ∈ lines, anchored settings entry = true → ∀ parent ∈ lines, parent.uuid.isSome →
    parent.uuid = entry.parentUuid →
      (yieldsFirst parent = true ↔ ¬(entry.entryType = "attachment" ∧ entry.parentUuid = some []))

/-! ## Lines by their uuid -/

variable {sessionId : Text} {settings : Settings} {lines : List RawEntry}

theorem index_of_uuid (hu : (lines.filterMap RawEntry.uuid).Nodup) {i j : Nat} {a b : RawEntry} {u : Text}
    (ha : lines[i]? = some a) (hb : lines[j]? = some b) (hau : a.uuid = some u) (hbu : b.uuid = some u) : i = j := by
  have hpair : lines.Pairwise fun x y => ∀ v, x.uuid = some v → ∀ w, y.uuid = some w → v ≠ w :=
    List.pairwise_filterMap.1 hu
  obtain ⟨hi, rfl⟩ := List.getElem?_eq_some_iff.1 ha
  obtain ⟨hj, rfl⟩ := List.getElem?_eq_some_iff.1 hb
  rcases Nat.lt_trichotomy i j with hlt | heq | hlt
  · exact absurd rfl (List.pairwise_iff_getElem.1 hpair i j hi hj hlt u hau u hbu)
  · exact heq
  · exact absurd rfl (List.pairwise_iff_getElem.1 hpair j i hj hi hlt u hbu u hau)

theorem lookup_anchorMap_from (p : Text) : ∀ (lines : List RawEntry) (out : KeyMap Text Text),
    (lines.filterMap RawEntry.uuid).Nodup → (lines.foldl (insertAnchor sessionId) out).lookup p =
      match lines.find? fun entry => entry.uuid = some p with
      | some parent => some (buildBlockExternalId sessionId p (.top 0) (anchorPayload parent))
      | none => out.lookup p
  | [], _, _ => rfl
  | entry :: rest, out, hu => by
    rw [List.foldl_cons, List.find?_cons]
    cases huuid : entry.uuid with
    | none =>
      rw [List.filterMap_cons, huuid] at hu
      rw [lookup_anchorMap_from p rest _ hu, insertAnchor, huuid]
      rfl
    | some uuid =>
      rw [List.filterMap_cons, huuid] at hu
      obtain ⟨hnotin, hrest⟩ := List.nodup_cons.1 hu
      rw [lookup_anchorMap_from p rest _ hrest, insertAnchor, huuid]
      dsimp only
      by_cases hp : uuid = p
      · subst hp
        have hnone : rest.find? (fun entry => entry.uuid = some uuid) = none := by
          refine List.find?_eq_none.2 fun e he hfound => ?_
          exact hnotin (List.mem_filterMap.2 ⟨e, he, by simpa using hfound⟩)
        rw [hnone]
        simp [AList.lookup_insert]
      · have hne : decide ((some uuid : Option Text) = some p) = false := by simp [hp]
        rw [hne, AList.lookup_insert_ne (Ne.symm hp)]

/-- **The table holds the first blocks of the lines.** -/
theorem lookup_anchorMap (hu : (lines.filterMap RawEntry.uuid).Nodup) {p eid : Text} :
    (buildBlock0AnchorMap sessionId lines).lookup p = some eid ↔
      ∃ parent ∈ lines, parent.uuid = some p ∧
        eid = buildBlockExternalId sessionId p (.top 0) (anchorPayload parent) := by
  unfold buildBlock0AnchorMap
  rw [lookup_anchorMap_from p lines ∅ hu]
  constructor
  · intro h
    split at h
    · next parent hparent =>
      have huuid : parent.uuid = some p := by simpa using List.find?_some hparent
      exact ⟨parent, List.mem_of_find?_eq_some hparent, huuid, (Option.some.inj h).symm⟩
    · simp at h
  · rintro ⟨parent, hparent, huuid, rfl⟩
    cases hfound : lines.find? fun entry => entry.uuid = some p with
    | none => exact absurd huuid (by simpa using List.find?_eq_none.1 hfound parent hparent)
    | some found =>
      have hfoundUuid : found.uuid = some p := by simpa using List.find?_some hfound
      obtain ⟨i, hi⟩ := List.mem_iff_getElem?.1 (List.mem_of_find?_eq_some hfound)
      obtain ⟨j, hj⟩ := List.mem_iff_getElem?.1 hparent
      obtain rfl := index_of_uuid hu hi hj hfoundUuid huuid
      rw [Option.some.inj (hi.symm.trans hj)]

/-! ## Pieces by their place -/

variable {line : Line} {calls : KeyMap Text Text} {shown : Bool} {piece : Piece Body}

/-- **A piece is a whole line, a block, or an image within a tool result.** -/
inductive PieceOf (line : Line) (shown : Bool) (calls : KeyMap Text Text) : Piece Body → Prop where
  | attachment (h : line.entry.entryType = "attachment") :
      PieceOf line shown calls (line.whole (anchorPayload line.entry) ⟨"attachment", .roleMeta, attachment line.entry⟩)
  | system (value : Value) (h : line.entry.entryType = "system") (hcontent : line.entry.content = some value)
      (hnull : isNull value = false) : PieceOf line shown calls
        (line.whole (anchorPayload line.entry) ⟨"system", entryRole line.entry.entryType, system line.entry value⟩)
  | block (k : Nat) (block : Value) (h : IsMessage line.entry) (hblock : (messageBlocks line.entry)[k]? = some block) :
      PieceOf line shown calls (line.main (line.callsFrom calls 0 ((messageBlocks line.entry).take k)) k block)
  | inner (k j : Nat) (block sub : Value) (h : IsMessage line.entry)
      (hblock : (messageBlocks line.entry)[k]? = some block) (hsub : (innerImages block)[j]? = some sub)
      (himage : blockType sub = "image".toList) :
      PieceOf line shown calls (line.inner (line.innerParent shown k block) k j sub)

theorem mem_pieces : piece ∈ line.pieces shown calls ↔ PieceOf line shown calls piece := by
  unfold Line.pieces
  constructor
  · intro h
    split at h
    · next hattachment =>
      rw [List.mem_singleton.1 h]
      exact .attachment hattachment
    · next hattachment =>
      split at h
      · next hsystem =>
        rcases hcontent : line.entry.content with _ | value
        · rw [hcontent] at h
          exact absurd h List.not_mem_nil
        · rw [hcontent] at h
          cases value with
          | null => exact absurd h List.not_mem_nil
          | _ =>
            rw [List.mem_singleton.1 h]
            exact .system _ hsystem hcontent rfl
      · next hsystem =>
        obtain ⟨k, block, hblock, hpiece⟩ := mem_piecesFrom.1 h
        rw [Nat.zero_add] at hpiece
        rcases mem_blockPieces.1 hpiece with rfl | ⟨j, sub, hsub, himage, rfl⟩
        · exact .block k block ⟨hattachment, hsystem⟩ hblock
        · exact .inner k j block sub ⟨hattachment, hsystem⟩ hblock hsub himage
  · intro h
    cases h with
    | attachment h =>
      rw [if_pos h]
      exact List.mem_singleton_self _
    | system value h hcontent hnull =>
      rw [if_neg (by rw [h]; decide), if_pos h, hcontent]
      cases value with
      | null => exact absurd hnull (by decide)
      | _ => exact List.mem_singleton_self _
    | block k block h hblock =>
      rw [if_neg h.1, if_neg h.2]
      exact mem_piecesFrom.2 ⟨k, block, hblock, by
        rw [Nat.zero_add]
        exact mem_blockPieces.2 (.inl rfl)⟩
    | inner k j block sub h hblock hsub himage =>
      rw [if_neg h.1, if_neg h.2]
      exact mem_piecesFrom.2 ⟨k, block, hblock, by
        rw [Nat.zero_add]
        exact mem_blockPieces.2 (.inr ⟨j, sub, hsub, himage, rfl⟩)⟩

/-- The kind of a block's piece. -/
theorem shapeOf_kindTag (line : Line) (block : Value) :
    (line.shapeOf block : Shape Body).kindTag = blockKind line.entry.entryType block := by
  unfold Line.shapeOf blockKind
  split
  · rfl
  · split
    · rfl
    · split
      · rfl
      · split
        · rfl
        · rfl

theorem blockKind_mem (entryType : String) (block : Value) : blockKind entryType block ∈ everything.includeTypes := by
  unfold blockKind
  split
  · decide
  · split
    · decide
    · split
      · decide
      · split
        · decide
        · split <;> decide

/-- Nothing is left out when everything is included. -/
theorem keeps_everything (h : PieceOf line shown calls piece) : everything.keeps line.entry piece = true := by
  have hkind : piece.shape.kindTag ∈ everything.includeTypes := by
    cases h with
    | attachment =>
      show "attachment" ∈ _
      decide
    | system =>
      show "system" ∈ _
      decide
    | block k block =>
      show (line.shapeOf block : Shape Body).kindTag ∈ _
      rw [shapeOf_kindTag]
      exact blockKind_mem _ _
    | inner =>
      show "attachment" ∈ _
      decide
  have hpolicy : everything.attachmentPolicy.includes (line.entry.subtype.getD []) = true := rfl
  simp [Settings.keeps, hkind, hpolicy]

theorem IsMessage.payload_head {block : Value} (h : IsMessage line.entry)
    (hblock : (messageBlocks line.entry)[0]? = some block) : toJson block = anchorPayload line.entry :=
  (anchorPayload_message h.1 h.2 (by rw [List.head?_eq_getElem?, hblock])).symm

/-- What stands at a line's first place is what the table has of it. -/
theorem payload_first (h : PieceOf line shown calls piece) (htop : piece.idx = .top 0) :
    piece.payload = anchorPayload line.entry := by
  cases h with
  | attachment => rfl
  | system => rfl
  | block k block h hblock =>
    obtain rfl : k = 0 := BlockIdx.top.inj htop
    exact h.payload_head hblock
  | inner => simp [Line.inner] at htop

/-- A line that gives pieces gives its first. -/
theorem yieldsFirst_of_pieceOf {n : Nat} {anchorMap : KeyMap Text Text}
    (hcut : lineAt sessionId anchorMap line.entry n = some line) (h : PieceOf line shown calls piece) :
    yieldsFirst line.entry = true := by
  obtain ⟨-, -, -, huuid, hcanonical, htime, -⟩ := lineAt_spec hcut
  unfold yieldsFirst
  rw [hcanonical, huuid, htime]
  have hblocks : ∀ {k : Nat} {block : Value}, IsMessage line.entry → (messageBlocks line.entry)[k]? = some block →
      (if line.entry.entryType = "attachment" then true
        else if line.entry.entryType = "system" then line.entry.content.any fun value => !isNull value
        else !(messageBlocks line.entry).isEmpty) = true := by
    intro k block hmessage hblock
    rw [if_neg hmessage.1, if_neg hmessage.2]
    cases hall : messageBlocks line.entry with
    | nil =>
      rw [hall] at hblock
      simp at hblock
    | cons => rfl
  cases h with
  | attachment h =>
    rw [if_pos h]
    rfl
  | system value h hcontent hnull =>
    rw [if_neg (by rw [h]; decide), if_pos h, hcontent, Option.any_some, hnull]
    rfl
  | block k block h hblock =>
    rw [hblocks h hblock]
    rfl
  | inner k j block sub h hblock =>
    rw [hblocks h hblock]
    rfl

theorem cut_of_yieldsFirst {entry : RawEntry} (anchorMap : KeyMap Text Text) (n : Nat) (h : yieldsFirst entry = true) :
    ∃ line, lineAt sessionId anchorMap entry n = some line := by
  unfold yieldsFirst at h
  simp only [Bool.and_eq_true] at h
  exact lineAt_isSome n h.1.1.1 h.1.1.2 h.1.2

/-- **A line that yields its first block has a piece there.** -/
theorem exists_first (shown : Bool) (calls : KeyMap Text Text) (h : yieldsFirst line.entry = true) :
    ∃ piece : Piece Body, PieceOf line shown calls piece ∧ piece.idx = .top 0 := by
  unfold yieldsFirst at h
  simp only [Bool.and_eq_true] at h
  have hshape := h.2
  split at hshape
  · next hattachment => exact ⟨_, .attachment hattachment, rfl⟩
  · next hattachment =>
    split at hshape
    · next hsystem =>
      obtain ⟨value, hcontent, hnull⟩ := (Option.any_eq_true _ _).1 hshape
      exact ⟨_, .system value hsystem hcontent (by simpa using hnull), rfl⟩
    · next hsystem =>
      cases hall : messageBlocks line.entry with
      | nil =>
        rw [hall] at hshape
        exact absurd hshape (by decide)
      | cons block rest =>
        exact ⟨_, .block 0 block ⟨hattachment, hsystem⟩ (by rw [hall]; rfl), rfl⟩

/-! ## Entries by their place -/

variable {x : CanonicalEntry Body} {i : Nat}

theorem Placed.pieceOf (h : Placed sessionId settings lines x i line piece) :
    PieceOf line settings.shown (callsBefore sessionId (buildBlock0AnchorMap sessionId lines) lines i) piece :=
  mem_pieces.1 h.mem

theorem Placed.externalId (h : Placed sessionId settings lines x i line piece) :
    x.externalId = buildBlockExternalId sessionId line.uuid piece.idx piece.payload := by
  obtain ⟨-, hsession, -⟩ := lineAt_spec h.cut
  rw [h.eq, ← hsession]
  rfl

theorem Placed.isBlockOf (h : Placed sessionId settings lines x i line piece) :
    IsBlockOf sessionId line.entry piece.idx x := by
  obtain ⟨-, -, -, huuid, -⟩ := lineAt_spec h.cut
  exact ⟨line.uuid, piece.payload, huuid, h.externalId⟩

/-- An entry comes from one line and one place. -/
theorem Placed.unique (hu : (lines.filterMap RawEntry.uuid).Nodup) (h : Placed sessionId settings lines x i line piece)
    {j : Nat} {entry : RawEntry} {idx : BlockIdx} (hentry : lines[j]? = some entry)
    (hblock : IsBlockOf sessionId entry idx x) : j = i ∧ entry = line.entry ∧ idx = piece.idx := by
  obtain ⟨uuid, payload, huuid, heq⟩ := hblock
  obtain ⟨-, -, -, hline, -⟩ := lineAt_spec h.cut
  obtain ⟨hsame, hidx⟩ := externalId_inj (heq.symm.trans h.externalId)
  obtain rfl := index_of_uuid hu hentry h.here huuid (hsame ▸ hline)
  exact ⟨rfl, Option.some.inj (hentry.symm.trans h.here), hidx⟩

/-- **Every piece of a line that is cut is an entry when everything is included.** -/
theorem exists_everything (hhere : lines[i]? = some line.entry)
    (hcut : lineAt sessionId (buildBlock0AnchorMap sessionId lines) line.entry i = some line)
    (hpiece : PieceOf line true (callsBefore sessionId (buildBlock0AnchorMap sessionId lines) lines i) piece) :
    ∃ y ∈ transcript sessionId everything lines, IsBlockOf sessionId line.entry piece.idx y ∧
      y.externalId = line.eid piece.idx piece.payload := by
  have hplaced : Placed sessionId everything lines (line.entryOf piece) i line piece :=
    ⟨hhere, hcut, mem_pieces.2 hpiece, keeps_everything hpiece, rfl⟩
  exact ⟨_, mem_transcript.2 ⟨i, line, piece, hplaced⟩, hplaced.isBlockOf, rfl⟩

/-- The first block of a line that yields it, under the id the table has of it. -/
theorem exists_first_everything {parent : RawEntry} {p : Text} (hparent : parent ∈ lines) (huuid : parent.uuid = some p)
    (h : yieldsFirst parent = true) : ∃ y ∈ transcript sessionId everything lines, IsBlockOf sessionId parent (.top 0) y ∧
      y.externalId = buildBlockExternalId sessionId p (.top 0) (anchorPayload parent) := by
  obtain ⟨j, hj⟩ := List.mem_iff_getElem?.1 hparent
  obtain ⟨line, hcut⟩ := @cut_of_yieldsFirst Body _ sessionId parent (buildBlock0AnchorMap sessionId lines) j h
  obtain ⟨rfl, rfl, -, hline, -⟩ := lineAt_spec hcut
  obtain ⟨piece, hpiece, htop⟩ := @exists_first Body _ line true
    (callsBefore line.sessionId (buildBlock0AnchorMap line.sessionId lines) lines j) h
  obtain ⟨y, hy, hblock, heid⟩ := exists_everything hj hcut hpiece
  rw [htop] at hblock heid
  rw [payload_first hpiece htop] at heid
  rw [Option.some.inj (huuid.symm.trans hline)]
  exact ⟨y, hy, hblock, heid⟩

/-- What the first block of a line is placed by. -/
theorem mem_parentAnchor (hu : (lines.filterMap RawEntry.uuid).Nodup)
    (hcut : lineAt sessionId (buildBlock0AnchorMap sessionId lines) line.entry i = some line) {p : Text} :
    p ∈ line.parentAnchor ↔ ∃ parent ∈ lines, ∃ uuid, linkUuid line.entry = some uuid ∧ parent.uuid = some uuid ∧
      p = buildBlockExternalId sessionId uuid (.top 0) (anchorPayload parent) := by
  obtain ⟨-, -, -, -, -, -, hanchor⟩ := lineAt_spec hcut
  rw [hanchor, Option.mem_toList, Option.bind_eq_some_iff]
  constructor
  · rintro ⟨uuid, hlink, hlookup⟩
    obtain ⟨parent, hparent, huuid, rfl⟩ := (lookup_anchorMap hu).1 hlookup
    exact ⟨parent, hparent, uuid, hlink, huuid, rfl⟩
  · rintro ⟨parent, hparent, uuid, hlink, huuid, rfl⟩
    exact ⟨uuid, hlink, (lookup_anchorMap hu).2 ⟨parent, hparent, huuid, rfl⟩⟩

/-! ## Parents -/

theorem addAnchors_head : ∀ (anchors v : List Text), v ≠ [] →
    (anchors.foldl (fun v anchor => if anchor ∈ v then v else v ++ [anchor]) v).head? = v.head?
  | [], _, _ => rfl
  | anchor :: anchors, v, hv => by
    rw [List.foldl_cons]
    split
    · exact addAnchors_head anchors v hv
    · rw [addAnchors_head anchors _ (by simp), List.head?_append_of_ne_nil v hv]

theorem mem_addAnchors {p : Text} : ∀ {anchors v : List Text},
    p ∈ anchors.foldl (fun v anchor => if anchor ∈ v then v else v ++ [anchor]) v ↔ p ∈ v ∨ p ∈ anchors
  | [], v => by simp
  | anchor :: anchors, v => by
    rw [List.foldl_cons, mem_addAnchors, List.mem_cons]
    split
    · next hmem =>
      constructor
      · tauto
      · rintro (h | rfl | h)
        · exact .inl h
        · exact .inl hmem
        · exact .inr h
    · rw [List.mem_append, List.mem_singleton]
      tauto

theorem mem_toolOutputParents {call : Option Text} {anchors : List Text} {p : Text} :
    p ∈ toolOutputParents call anchors ↔ call = some p ∨ p ∈ anchors := by
  cases call with
  | none => simp [toolOutputParents]
  | some c =>
    unfold toolOutputParents
    rw [mem_addAnchors, List.mem_singleton, Option.some.injEq, eq_comm]

/-- A tool result's call comes first. -/
theorem toolOutputParents_head (c : Text) (anchors : List Text) : (toolOutputParents (some c) anchors).head? = some c :=
  addAnchors_head anchors [c] (by simp)

/-- The conversation comes last. -/
theorem toolOutputParents_last (call : Option Text) (a : Text) : (toolOutputParents call [a]).getLast? = some a := by
  cases call with
  | none => rfl
  | some c =>
    show (if a ∈ [c] then [c] else [c] ++ [a]).getLast? = some a
    split
    · next h =>
      rw [List.mem_singleton.1 h]
      rfl
    · rfl

theorem parentsOf_last {k : Nat} {block : Value} {a : Text} (h : line.conversation k = [a]) :
    (line.parentsOf calls k block).getLast? = some a := by
  unfold Line.parentsOf
  rw [h]
  split
  · exact toolOutputParents_last _ a
  · rfl

/-- A piece that hangs where the line hangs. -/
def Carries (shown : Bool) (piece : Piece Body) : Prop :=
  piece.idx = .top 0 ∨ shown = false ∧ ∃ j, piece.idx = .sub 0 j

/-- A block of the line itself. -/
def Own (line : Line) (calls : KeyMap Text Text) (p : Text) : Prop :=
  ∃ piece : Piece Body, PieceOf line true calls piece ∧ p = line.eid piece.idx piece.payload

theorem own_block {k : Nat} {block : Value} (hmessage : IsMessage line.entry)
    (hblock : (messageBlocks line.entry)[k]? = some block) : Own line calls (line.eid (.top k) (toJson block)) :=
  ⟨_, .block k block hmessage hblock, rfl⟩

theorem own_first {k : Nat} {block : Value} (hmessage : IsMessage line.entry)
    (hblock : (messageBlocks line.entry)[k]? = some block) : Own line calls line.firstId := by
  cases hfirst : messageBlocks line.entry with
  | nil =>
    rw [hfirst] at hblock
    simp at hblock
  | cons first rest =>
    have hget : (messageBlocks line.entry)[0]? = some first := by
      rw [hfirst]
      rfl
    have hown := @own_block Body _ line calls 0 first hmessage hget
    rwa [hmessage.payload_head hget] at hown

/-- Where a block hangs: where its line hangs, or below the line's first block. -/
theorem conversation_cases {k : Nat} {block : Value} {p : Text} (hmessage : IsMessage line.entry)
    (hblock : (messageBlocks line.entry)[k]? = some block) (hp : p ∈ line.conversation k) :
    k = 0 ∧ p ∈ line.parentAnchor ∨ Own line calls p := by
  unfold Line.conversation at hp
  split at hp
  · next hk => exact .inl ⟨hk, hp⟩
  · rw [List.mem_singleton.1 hp]
    exact .inr (own_first hmessage hblock)

/-- **The parents of a piece**: where the line hangs, a block of the line, or a call that was known when it came. -/
theorem parents_cases {p : Text} (h : PieceOf line shown calls piece) (hp : p ∈ piece.parents) :
    Carries shown piece ∧ p ∈ line.parentAnchor ∨ Own line calls p ∨ ∃ t, calls.lookup t = some p := by
  cases h with
  | attachment => exact .inl ⟨.inl rfl, hp⟩
  | system => exact .inl ⟨.inl rfl, hp⟩
  | block k block h hblock =>
    have hconversation : p ∈ line.conversation k →
        Carries shown (line.main (line.callsFrom calls 0 ((messageBlocks line.entry).take k)) k block : Piece Body) ∧
          p ∈ line.parentAnchor ∨ Own line calls p ∨ ∃ t, calls.lookup t = some p := by
      intro hp
      rcases @conversation_cases Body _ line calls k block p h hblock hp with ⟨rfl, hp⟩ | hp
      · exact .inl ⟨.inl rfl, hp⟩
      · exact .inr (.inl hp)
    have hparents : p ∈ line.parentsOf (line.callsFrom calls 0 ((messageBlocks line.entry).take k)) k block := hp
    unfold Line.parentsOf at hparents
    split at hparents
    · rcases mem_toolOutputParents.1 hparents with hcall | hp
      · obtain ⟨t, -, hlookup⟩ := Option.bind_eq_some_iff.1 hcall
        rcases callsFrom_origin hlookup with hlookup | ⟨j, block', hblock', rfl⟩
        · exact .inr (.inr ⟨t, hlookup⟩)
        · rw [Nat.zero_add]
          rw [List.getElem?_take] at hblock'
          split at hblock'
          · exact .inr (.inl (own_block h hblock'))
          · simp at hblock'
      · exact hconversation hp
    · exact hconversation hparents
  | inner k j block sub h hblock hsub himage =>
    have hparents : p ∈ line.innerParent shown k block := hp
    unfold Line.innerParent at hparents
    split at hparents
    · rw [List.mem_singleton.1 hparents]
      exact .inr (.inl (own_block h hblock))
    · next hshown =>
      rcases @conversation_cases Body _ line calls k block p h hblock hparents with ⟨rfl, hanchor⟩ | hp
      · exact .inl ⟨.inr ⟨by simpa using hshown, j, rfl⟩, hanchor⟩
      · exact .inr (.inl hp)

/-- Entries that hang where their line hangs make it anchored. -/
theorem anchored_of_carries {n : Nat} {anchorMap : KeyMap Text Text}
    (hcut : lineAt sessionId anchorMap line.entry n = some line) (h : PieceOf line settings.shown calls piece)
    (hkept : settings.keeps line.entry piece = true) (hcarries : Carries settings.shown piece) :
    anchored settings line.entry = true := by
  unfold anchored
  rw [yieldsFirst_of_pieceOf hcut h, Bool.true_and]
  unfold Settings.keeps at hkept
  rw [Bool.and_eq_true, decide_eq_true_eq] at hkept
  obtain ⟨hkind, hpolicy⟩ := hkept
  cases h with
  | attachment h =>
    have hkind' : "attachment" ∈ settings.includeTypes := hkind
    simp only [h, ne_eq, not_true, decide_false, Bool.false_or] at hpolicy
    rw [if_pos h, hpolicy, decide_eq_true hkind']
    rfl
  | system value h =>
    have hkind' : "system" ∈ settings.includeTypes := hkind
    rw [if_neg (by rw [h]; decide), if_pos h]
    exact decide_eq_true hkind'
  | block k block h hblock =>
    have hk : k = 0 := by
      rcases hcarries with htop | ⟨-, j, hsub⟩
      · exact BlockIdx.top.inj htop
      · simp [Line.main] at hsub
    subst hk
    have hkind' : blockKind line.entry.entryType block ∈ settings.includeTypes := by
      rw [← shapeOf_kindTag line block]
      exact hkind
    rw [if_neg h.1, if_neg h.2, List.head?_eq_getElem?, hblock, Option.any_some, decide_eq_true hkind']
    rfl
  | inner k j block sub h hblock hsub himage =>
    have hk : k = 0 ∧ settings.shown = false := by
      rcases hcarries with htop | ⟨hshown, j', hsub'⟩
      · simp [Line.inner] at htop
      · exact ⟨(BlockIdx.sub.inj hsub').1, hshown⟩
    obtain ⟨rfl, hshown⟩ := hk
    have hkind' : "attachment" ∈ settings.includeTypes := hkind
    have hany : ((innerImages block).any fun sub => decide (blockType sub = "image".toList)) = true :=
      List.any_eq_true.2 ⟨sub, List.mem_of_getElem? hsub, decide_eq_true himage⟩
    rw [if_neg h.1, if_neg h.2, List.head?_eq_getElem?, hblock, Option.any_some, decide_eq_true hkind', hshown, hany]
    simp

/-- **An anchored line yields an entry that hangs where the line hangs.** -/
theorem exists_carrier (calls : KeyMap Text Text) (h : anchored settings line.entry = true) :
    ∃ piece : Piece Body, PieceOf line settings.shown calls piece ∧ settings.keeps line.entry piece = true ∧
      (∀ p ∈ line.parentAnchor, p ∈ piece.parents) ∧
        (line.entry.entryType = "attachment" → piece.idx = .top 0 ∧ piece.parents = line.parentAnchor) := by
  unfold anchored at h
  rw [Bool.and_eq_true] at h
  obtain ⟨hfirst, hkept⟩ := h
  split at hkept
  · next hattachment =>
    rw [Bool.and_eq_true, decide_eq_true_eq] at hkept
    refine ⟨_, .attachment hattachment, ?_, fun p hp => hp, fun _ => ⟨rfl, rfl⟩⟩
    simp [Settings.keeps, Line.whole, hkept.1, hkept.2]
  · next hattachment =>
    split at hkept
    · next hsystem =>
      unfold yieldsFirst at hfirst
      simp only [Bool.and_eq_true, if_neg hattachment, if_pos hsystem] at hfirst
      obtain ⟨value, hcontent, hnull⟩ := (Option.any_eq_true _ _).1 hfirst.2
      refine ⟨_, .system value hsystem hcontent (by simpa using hnull), ?_, fun p hp => hp,
        fun he => absurd he hattachment⟩
      simp [Settings.keeps, Line.whole, of_decide_eq_true hkept, hattachment]
    · next hsystem =>
      have hmessage : IsMessage line.entry := ⟨hattachment, hsystem⟩
      obtain ⟨block, hhead, hkept⟩ := (Option.any_eq_true _ _).1 hkept
      have hblock : (messageBlocks line.entry)[0]? = some block := by rw [← List.head?_eq_getElem?, hhead]
      rw [Bool.or_eq_true] at hkept
      rcases hkept with hkind | hinner
      · refine ⟨_, .block 0 block hmessage hblock, ?_, fun p hp => ?_, fun he => absurd he hattachment⟩
        · have hshape := shapeOf_kindTag line block
          simp [Settings.keeps, Line.main, hshape, of_decide_eq_true hkind, hattachment]
        · show p ∈ line.parentsOf _ 0 block
          unfold Line.parentsOf
          split
          · exact mem_toolOutputParents.2 (.inr hp)
          · exact hp
      · rw [Bool.and_eq_true, Bool.and_eq_true, decide_eq_true_eq] at hinner
        obtain ⟨⟨hkind, hshown⟩, hany⟩ := hinner
        obtain ⟨sub, hmem, himage⟩ := List.any_eq_true.1 hany
        obtain ⟨j, hsub⟩ := List.mem_iff_getElem?.1 hmem
        have hshown' : settings.shown = false := by simpa using hshown
        refine ⟨_, .inner 0 j block sub hmessage hblock hsub (of_decide_eq_true himage), ?_, fun p hp => ?_,
          fun he => absurd he hattachment⟩
        · simp [Settings.keeps, Line.inner, hkind, hattachment]
        · show p ∈ line.innerParent settings.shown 0 block
          unfold Line.innerParent
          rw [hshown']
          exact hp

/-! ## The tree -/

theorem linkUuid_eq_some {entry : RawEntry} {uuid : Text} : linkUuid entry = some uuid ↔
    entry.parentUuid = some uuid ∧ ¬(entry.entryType = "attachment" ∧ uuid = []) := by
  unfold linkUuid
  split
  · next h =>
    rw [Option.filter_eq_some_iff]
    cases uuid <;> simp [h]
  · next h => simp [h]

/-- **Parents are ids of entries** that the transcript yields when nothing is left out. -/
theorem Placed.known (hu : (lines.filterMap RawEntry.uuid).Nodup) (hr : Resolvable settings lines)
    (h : Placed sessionId settings lines x i line piece) {p : Text} (hp : p ∈ x.parentExternalIds) :
    ∃ y ∈ transcript sessionId everything lines, y.externalId = p := by
  rw [h.eq] at hp
  rcases parents_cases h.pieceOf hp with ⟨hcarries, hanchor⟩ | ⟨own, hown, rfl⟩ | ⟨t, hlookup⟩
  · obtain ⟨parent, hparent, uuid, hlink, huuid, rfl⟩ := (mem_parentAnchor hu h.cut).1 hanchor
    obtain ⟨hreply, hplain⟩ := linkUuid_eq_some.1 hlink
    have hyields : yieldsFirst parent = true := by
      refine (hr line.entry (List.mem_of_getElem? h.here) (anchored_of_carries h.cut h.pieceOf h.kept hcarries) parent
        hparent (by rw [huuid]; rfl) (by rw [huuid, hreply])).2 ?_
      rintro ⟨hattachment, hempty⟩
      exact hplain ⟨hattachment, Option.some.inj (hreply.symm.trans hempty)⟩
    obtain ⟨y, hy, -, heid⟩ := @exists_first_everything Body _ sessionId lines _ _ hparent huuid hyields
    exact ⟨y, hy, heid⟩
  · obtain ⟨y, hy, -, heid⟩ := exists_everything h.here h.cut hown
    exact ⟨y, hy, heid⟩
  · have hi := (List.getElem?_eq_some_iff.1 h.here).1
    obtain ⟨j, entry, other, k, block, hentry, hcut, hmessage, hblock, rfl⟩ := callsBefore_origin (by omega) hlookup
    obtain ⟨rfl, -⟩ := lineAt_spec hcut
    obtain ⟨y, hy, -, heid⟩ := exists_everything hentry hcut (.block k block hmessage hblock)
    exact ⟨y, hy, heid⟩

/-- **A first block hangs below the first block its line answers.** -/
theorem Placed.replied (hu : (lines.filterMap RawEntry.uuid).Nodup) (hr : Resolvable settings lines)
    (h : Placed sessionId settings lines x i line piece) (htop : piece.idx = .top 0) {y : CanonicalEntry Body}
    (hy : y ∈ transcript sessionId everything lines) {parent : RawEntry} (hparent : parent ∈ lines)
    (hblock : IsBlockOf sessionId parent (.top 0) y) (hreply : parent.uuid = line.entry.parentUuid) :
    x.parentExternalIds.getLast? = some y.externalId := by
  obtain ⟨j, line', piece', hplaced⟩ := mem_transcript.1 hy
  obtain ⟨j', hj'⟩ := List.mem_iff_getElem?.1 hparent
  obtain ⟨rfl, rfl, htop'⟩ := hplaced.unique hu hj' hblock
  obtain ⟨-, -, -, huuid, -⟩ := lineAt_spec hplaced.cut
  have hyields := yieldsFirst_of_pieceOf hplaced.cut hplaced.pieceOf
  have hplain := (hr line.entry (List.mem_of_getElem? h.here)
    (anchored_of_carries h.cut h.pieceOf h.kept (.inl htop)) line'.entry hparent (by rw [huuid]; rfl) hreply).1 hyields
  have hlink : linkUuid line.entry = some line'.uuid := by
    refine linkUuid_eq_some.2 ⟨hreply.symm.trans huuid, ?_⟩
    rintro ⟨hattachment, hempty⟩
    exact hplain ⟨hattachment, by rw [← hreply, huuid, hempty]⟩
  have hanchor : line.parentAnchor = [y.externalId] := by
    obtain ⟨-, -, -, -, -, -, hanchor⟩ := lineAt_spec h.cut
    rw [hanchor, hlink, Option.bind_some, (lookup_anchorMap hu).2 ⟨line'.entry, hparent, huuid, rfl⟩,
      hplaced.externalId, ← htop', payload_first hplaced.pieceOf htop'.symm]
    rfl
  have hpiece := h.pieceOf
  rw [h.eq]
  cases hpiece with
  | attachment =>
    show line.parentAnchor.getLast? = _
    rw [hanchor]
    rfl
  | system =>
    show line.parentAnchor.getLast? = _
    rw [hanchor]
    rfl
  | block k block hmessage hblock =>
    obtain rfl : k = 0 := BlockIdx.top.inj htop
    exact parentsOf_last hanchor
  | inner => simp [Line.inner] at htop

/-- **A later block hangs below its line's first block.** -/
theorem Placed.later (h : Placed sessionId settings lines x i line piece) {k : Nat} (htop : piece.idx = .top (k + 1)) :
    ∃ y ∈ transcript sessionId everything lines, IsBlockOf sessionId line.entry (.top 0) y ∧
      x.parentExternalIds.getLast? = some y.externalId := by
  obtain ⟨-, hsession, -, huuid, -⟩ := lineAt_spec h.cut
  obtain ⟨y, hy, hblock, heid⟩ := @exists_first_everything Body _ sessionId lines _ _ (List.mem_of_getElem? h.here) huuid
    (yieldsFirst_of_pieceOf h.cut h.pieceOf)
  refine ⟨y, hy, hblock, ?_⟩
  have hfirst : y.externalId = line.firstId := by
    rw [heid, ← hsession]
    rfl
  have hpiece := h.pieceOf
  rw [h.eq, hfirst]
  cases hpiece with
  | attachment => simp [Line.whole] at htop
  | system => simp [Line.whole] at htop
  | block k' block hmessage hblock =>
    obtain rfl : k' = k + 1 := BlockIdx.top.inj htop
    refine parentsOf_last ?_
    unfold Line.conversation
    rw [if_neg (Nat.succ_ne_zero k)]
  | inner => simp [Line.inner] at htop

/-- **A tool result hangs below the last call with its id.** -/
theorem Placed.answered (h : Placed sessionId settings lines x i line piece) {k : Nat} {t : Text}
    (htop : piece.idx = .top k) (hresult : ResultAt lines i k t) {i' k' : Nat} {entry' : RawEntry} (hi : i' < i)
    (hentry' : lines[i']? = some entry') (hcall : CallAt lines i' k' t)
    (hlast : ∀ i'' k'', CallAt lines i'' k'' t → Before i' k' i'' k'' → ¬Before i'' k'' i k) :
    ∃ y ∈ transcript sessionId everything lines, IsBlockOf sessionId entry' (.top k') y ∧
      x.parentExternalIds.head? = some y.externalId := by
  obtain ⟨entry, block, hentry, hmessage, hblock, htool, hid⟩ := hresult
  obtain rfl : line.entry = entry := Option.some.inj (h.here.symm.trans hentry)
  obtain ⟨caller, call, hcaller, hcanonical, huuid, htime, hmessage', hcall', hiscall⟩ := hcall
  obtain rfl : entry' = caller := Option.some.inj (hentry'.symm.trans hcaller)
  obtain ⟨line', hcut'⟩ := @lineAt_isSome Body _ sessionId (buildBlock0AnchorMap sessionId lines) entry' i' hcanonical
    huuid htime
  obtain ⟨rfl, -⟩ := lineAt_spec hcut'
  obtain ⟨y, hy, hyblock, heid⟩ := exists_everything hentry' hcut' (.block k' call hmessage' hcall')
  refine ⟨y, hy, hyblock, ?_⟩
  obtain ⟨-, -, -, huuidLine, hcanonicalLine, htimeLine, -⟩ := lineAt_spec h.cut
  have hlength := (List.getElem?_eq_some_iff.1 h.here).1
  have hbefore := @callsBefore_last Body _ line' sessionId (buildBlock0AnchorMap sessionId lines) lines i i' k'
    line'.entry call t hentry' hcut' hmessage' hcall' hiscall hi (by omega)
    (fun k'' hk'' hc => hlast i' k'' hc (.inr ⟨rfl, hk''⟩) (.inl hi))
    (fun j k'' hj hji hc => hlast j k'' hc (.inl hj) (.inl hji))
  have hpiece := h.pieceOf
  rw [h.eq]
  cases hpiece with
  | attachment hattachment => exact absurd hattachment hmessage.1
  | system value hsystem => exact absurd hsystem hmessage.2
  | inner => simp [Line.inner] at htop
  | block n block' _ hblock' =>
    obtain rfl : n = k := BlockIdx.top.inj htop
    obtain rfl : block' = block := Option.some.inj (hblock'.symm.trans hblock)
    show (line.parentsOf _ n block').head? = _
    unfold Line.parentsOf
    rw [if_pos htool, hid, Option.bind_some, callsFrom_keep, hbefore, toolOutputParents_head, heid]
    · rfl
    · intro b hb hcallb
      obtain ⟨j, hj⟩ := List.mem_iff_getElem?.1 hb
      rw [List.getElem?_take] at hj
      split at hj
      · next hjn =>
        exact hlast i j ⟨line.entry, b, h.here, hcanonicalLine, by rw [huuidLine]; rfl, htimeLine, hmessage, hj, hcallb⟩
          (.inl hi) (.inr ⟨rfl, hjn⟩)
      · simp at hj

/-- **The reply tree is kept** where no line answers one that yields nothing, and only there. (The orders also need the
line numbers to stay within 31 bits.) -/
theorem replyTree (sessionId : Text) (settings : Settings) {lines : List RawEntry}
    (hu : (lines.filterMap RawEntry.uuid).Nodup) (hsize : ∀ entry ∈ lines, Sized entry) :
    (lines.length ≤ 2 ^ 31 → Resolvable settings lines → KeepsReplyTree sessionId settings lines) ∧
      (KeepsReplyTree sessionId settings lines → Resolvable settings lines) := by
  constructor
  · intro hlength hr
    refine {
      distinct := ?_
      ordered := ?_
      known := ?_
      replied := ?_
      later := ?_
      answered := ?_
      narrowed := ?_ }
    · rw [transcript_eq]
      exact entriesFrom_distinct hu hsize
    · rw [transcript_eq]
      exact entriesFrom_sorted (by omega) hsize
    · intro x hx p hp
      obtain ⟨i, line, piece, h⟩ := mem_transcript.1 hx
      exact h.known hu hr hp
    · intro x hx y hy entry hentry parent hparent hxblock hyblock hreply
      obtain ⟨i, line, piece, h⟩ := mem_transcript.1 hx
      obtain ⟨j, hj⟩ := List.mem_iff_getElem?.1 hentry
      obtain ⟨rfl, rfl, htop⟩ := h.unique hu hj hxblock
      exact h.replied hu hr htop.symm hy hparent hyblock hreply
    · intro x hx entry hentry k hxblock
      obtain ⟨i, line, piece, h⟩ := mem_transcript.1 hx
      obtain ⟨j, hj⟩ := List.mem_iff_getElem?.1 hentry
      obtain ⟨rfl, rfl, htop⟩ := h.unique hu hj hxblock
      exact h.later htop.symm
    · intro x hx i k t entry hentry hresult hxblock i' k' entry' hi hentry' hcall hlast
      obtain ⟨j, line, piece, h⟩ := mem_transcript.1 hx
      obtain ⟨rfl, rfl, htop⟩ := h.unique hu hentry hxblock
      exact h.answered htop.symm hresult hi hentry' hcall hlast
    · intro narrower hnarrows
      rw [transcript_eq, transcript_eq]
      exact ⟨entriesFrom_narrows hnarrows, fun hshown => entriesFrom_narrows_shown hnarrows hshown⟩
  · intro hkeeps entry hentry hanchored parent hparent huuid hreply
    obtain ⟨i, hi⟩ := List.mem_iff_getElem?.1 hentry
    have hyields : yieldsFirst entry = true := by
      unfold anchored at hanchored
      exact (Bool.and_eq_true_iff.1 hanchored).1
    obtain ⟨line, hcut⟩ := @cut_of_yieldsFirst Body _ sessionId entry (buildBlock0AnchorMap sessionId lines) i hyields
    obtain ⟨rfl, -⟩ := lineAt_spec hcut
    obtain ⟨piece, hpiece, hkept, hcarried, hattached⟩ := exists_carrier
      (callsBefore sessionId (buildBlock0AnchorMap sessionId lines) lines i) hanchored
    have hplaced : Placed sessionId settings lines (line.entryOf piece) i line piece :=
      ⟨hi, hcut, mem_pieces.2 hpiece, hkept, rfl⟩
    have hx : line.entryOf piece ∈ transcript sessionId settings lines := mem_transcript.2 ⟨i, line, piece, hplaced⟩
    obtain ⟨uuid, huuid⟩ := Option.isSome_iff_exists.1 huuid
    constructor
    · rintro hparentYields ⟨hattachment, hempty⟩
      -- The empty parent is not looked up, so the entry has no parents.
      obtain ⟨htop, hparents⟩ := hattached hattachment
      obtain ⟨y, hy, hyblock, -⟩ := @exists_first_everything Body _ sessionId lines _ _ hparent huuid hparentYields
      have hlast := hkeeps.replied _ hx y hy line.entry hentry parent hparent (htop ▸ hplaced.isBlockOf) hyblock hreply
      have hnone : line.parentAnchor = [] := by
        obtain ⟨-, -, -, -, -, -, hanchor⟩ := lineAt_spec hcut
        unfold linkUuid at hanchor
        rw [if_pos hattachment, hempty] at hanchor
        exact hanchor
      have hlast' : piece.parents.getLast? = some y.externalId := hlast
      rw [hparents, hnone] at hlast'
      simp at hlast'
    · intro hplain
      have hlink : linkUuid line.entry = some uuid := by
        refine linkUuid_eq_some.2 ⟨hreply.symm.trans huuid, ?_⟩
        rintro ⟨hattachment, hempty⟩
        exact hplain ⟨hattachment, by rw [← hreply, huuid, hempty]⟩
      have hanchor := (mem_parentAnchor hu hcut).2 ⟨parent, hparent, uuid, hlink, huuid, rfl⟩
      obtain ⟨y, hy, heid⟩ := hkeeps.known _ hx _ (hcarried _ hanchor)
      obtain ⟨j, line', piece', hplaced'⟩ := mem_transcript.1 hy
      obtain ⟨j', hj'⟩ := List.mem_iff_getElem?.1 hparent
      obtain ⟨-, rfl, -⟩ := hplaced'.unique hu hj' ⟨uuid, anchorPayload parent, huuid, heid⟩
      exact yieldsFirst_of_pieceOf hplaced'.cut hplaced'.pieceOf

instance : DecidablePred Sized := fun entry => by unfold Sized; infer_instance

instance (settings : Settings) (lines : List RawEntry) : Decidable (Resolvable settings lines) := by
  unfold Resolvable
  infer_instance

end Rendered

/-! ## A transcript -/

mutual

/-- `serde_json::to_string`, of texts without escapes. -/
def plainJson : Value → Text
  | .null => "null".toList
  | .bool b => (toString b).toList
  | .number n => (toString n).toList
  | .string s => '"' :: s ++ ['"']
  | .array values => '[' :: plainJsons values ++ [']']
  | .object fields => '{' :: plainFields fields ++ ['}']

def plainJsons : List Value → Text
  | [] => []
  | [value] => plainJson value
  | value :: values => plainJson value ++ ',' :: plainJsons values

def plainFields : List (String × Value) → Text
  | [] => []
  | [(key, value)] => '"' :: key.toList ++ "\":".toList ++ plainJson value
  | (key, value) :: fields => '"' :: key.toList ++ "\":".toList ++ plainJson value ++ ',' :: plainFields fields

end

/-- Entries without bodies, at one time. -/
@[reducible] def bare : Rendering Unit where
  parseTimestampMillis s := if s = "2026-04-17T11:28:13.321Z".toList then some 1776425293321 else none
  toLowercase s := s.map Char.toLower
  toJson := plainJson
  system _ _ := ()
  textBlock _ _ _ := ()
  toolCall _ _ := ()
  toolOutput _ _ := ()
  image _ _ _ := ()
  reasoning _ _ _ := ()
  attachment _ := ()

/-- A line with these blocks. -/
def messageLine (entryType uuid : String) (parentUuid : Option String) (timestamp : Option String) (blocks : List Value) :
    RawEntry where
  entryType := entryType
  uuid := some uuid.toList
  timestamp := timestamp.map String.toList
  parentUuid := parentUuid.map String.toList
  message := some (.object [("content", .array blocks)])
  content := none
  subtype := none
  raw := .object []

def textOf (s : String) : Value := .object [("text", .string s.toList), ("type", .string "text".toList)]

/-- A question, a call and its result. -/
def asked : List RawEntry :=
  [messageLine "user" "u1" none (some "2026-04-17T11:28:13.321Z") [textOf "list the files"],
    messageLine "assistant" "u2" (some "u1") (some "2026-04-17T11:28:13.321Z")
      [textOf "looking", .object [("id", .string "toolu_1".toList), ("type", .string "tool_use".toList)]],
    messageLine "user" "u3" (some "u2") (some "2026-04-17T11:28:13.321Z")
      [.object [("content", .array [.object [("type", .string "image".toList)]]),
        ("tool_use_id", .string "toolu_1".toList), ("type", .string "tool_result".toList)]]]

theorem replyTree_asked : @KeepsReplyTree Unit bare "s".toList everything asked ∧ @Resolvable Unit bare everything asked :=
  have h := @replyTree Unit bare "s".toList everything asked (by decide +kernel) (by decide +kernel)
  have kept := h.1 (by decide) (by decide +kernel)
  ⟨kept, h.2 kept⟩

/-- An answer to a line without a time. -/
def untimed : List RawEntry :=
  [messageLine "user" "u1" none none [textOf "list the files"],
    messageLine "assistant" "u2" (some "u1") (some "2026-04-17T11:28:13.321Z") [textOf "looking"]]

/-- **An answer to a line without a time hangs below nothing**: no setting yields that line. -/
theorem untimed_parent_missing : ¬@KeepsReplyTree Unit bare "s".toList everything untimed := by
  intro h
  have hknown := @KeepsReplyTree.known Unit bare "s".toList everything untimed h
  exact absurd hknown (by decide +kernel)

end MemoryStore.AgentImport.ClaudeCode
