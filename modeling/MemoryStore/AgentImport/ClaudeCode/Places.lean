/-
The places of a transcript: an external id tells its line and its block, import
orders follow the lines and the blocks, and what a line gives stands in this
order.
-/
import MemoryStore.AgentImport.ClaudeCode.Emission
import MemoryStore.Lib.Netstring

namespace MemoryStore.AgentImport.ClaudeCode

open Rendering

/-! ## Ids -/

theorem hexDigit_ne_colon : ∀ n, n < 16 → Sha256.hexDigit n ≠ ':' := by decide

theorem colon_not_mem_sha1HexPrefix (input : Text) (n : Nat) : ':' ∉ sha1HexPrefix input n := by
  intro h
  have hdigest := List.mem_of_mem_take h
  unfold Sha1.digestHex at hdigest
  obtain ⟨word, -, hword⟩ := List.mem_flatMap.1 hdigest
  unfold Sha256.hexWord at hword
  obtain ⟨byte, hbyte, hc⟩ := List.mem_flatMap.1 hword
  have hlt : byte < 256 := by
    simp only [Sha256.bigEndian, List.mem_cons, List.not_mem_nil, or_false] at hbyte
    omega
  simp only [List.mem_cons, List.not_mem_nil, or_false] at hc
  rcases hc with hc | hc
  · exact hexDigit_ne_colon (byte / 16) (by omega) hc.symm
  · exact hexDigit_ne_colon (byte % 16) (by omega) hc.symm

theorem underscore_not_mem_repr (n : Nat) : '_' ∉ (toString n).toList := fun h =>
  absurd (Netstring.isDigit_of_mem_repr h) (by decide)

theorem colon_not_mem_token : ∀ idx : BlockIdx, ':' ∉ idx.token
  | .top i => by
    unfold BlockIdx.token
    rw [List.mem_cons, not_or]
    exact ⟨by decide, Netstring.colon_not_mem_repr i⟩
  | .sub o i => by
    unfold BlockIdx.token
    rw [List.mem_append, List.cons_append, List.mem_cons, List.mem_append, not_or, not_or, not_or]
    exact ⟨⟨by decide, Netstring.colon_not_mem_repr o, by decide⟩, Netstring.colon_not_mem_repr i⟩

theorem toString_inj {m n : Nat} (h : (toString m).toList = (toString n).toList) : m = n :=
  Nat.repr_injective (String.toList_inj.1 h)

/-- The digits before the first character that is none. -/
theorem before_underscore : ∀ {xs ys r r' : Text}, '_' ∉ xs → '_' ∉ ys → xs ++ '_' :: r = ys ++ '_' :: r' →
    xs = ys ∧ r = r'
  | [], [], _, _, _, _, h => ⟨rfl, (List.cons.inj h).2⟩
  | [], y :: ys, _, _, _, hy, h => absurd (List.cons.inj h).1 fun he => hy (he ▸ List.mem_cons_self)
  | x :: xs, [], _, _, hx, _, h => absurd (List.cons.inj h).1 fun he => hx (he ▸ List.mem_cons_self)
  | x :: xs, y :: ys, _, _, hx, hy, h => by
    obtain ⟨rfl, htail⟩ := List.cons.inj (by simpa only [List.cons_append] using h)
    obtain ⟨rfl, hr⟩ := before_underscore (fun hm => hx (List.mem_cons_of_mem _ hm))
      (fun hm => hy (List.mem_cons_of_mem _ hm)) htail
    exact ⟨rfl, hr⟩

/-- A token tells its place. -/
theorem token_inj : ∀ {a b : BlockIdx}, a.token = b.token → a = b
  | .top i, .top j, h => by
    rw [toString_inj (List.cons.inj h).2]
  | .top i, .sub o j, h => by
    have htail : (toString i).toList = (toString o).toList ++ "_sub".toList ++ (toString j).toList := (List.cons.inj h).2
    have hmem : '_' ∈ (toString i).toList := by
      rw [htail]
      simp
    exact absurd hmem (underscore_not_mem_repr i)
  | .sub o i, .top j, h => by
    have htail : (toString o).toList ++ "_sub".toList ++ (toString i).toList = (toString j).toList := (List.cons.inj h).2
    have hmem : '_' ∈ (toString j).toList := by
      rw [← htail]
      simp
    exact absurd hmem (underscore_not_mem_repr j)
  | .sub o i, .sub o' i', h => by
    have htail : (toString o).toList ++ '_' :: ("sub".toList ++ (toString i).toList) =
        (toString o').toList ++ '_' :: ("sub".toList ++ (toString i').toList) := by
      have h' : (toString o).toList ++ "_sub".toList ++ (toString i).toList =
        (toString o').toList ++ "_sub".toList ++ (toString i').toList := (List.cons.inj h).2
      rw [List.append_assoc, List.append_assoc] at h'
      exact h'
    obtain ⟨ho, hi⟩ := before_underscore (underscore_not_mem_repr o) (underscore_not_mem_repr o') htail
    rw [toString_inj ho, toString_inj (List.append_cancel_left hi)]

/-- What ends in a part without a colon. -/
theorem after_colon {a b a' b' : Text} (hb : ':' ∉ b) (hb' : ':' ∉ b') (h : a ++ ':' :: b = a' ++ ':' :: b') :
    a = a' ∧ b = b' := by
  have hrev : b.reverse ++ ':' :: a.reverse = b'.reverse ++ ':' :: a'.reverse := by
    have := congrArg List.reverse h
    simpa using this
  obtain ⟨hb, ha⟩ := Netstring.before_colon (by simpa using hb) (by simpa using hb') hrev
  exact ⟨List.reverse_injective ha, List.reverse_injective hb⟩

/-- **An external id tells the line and the block**, whatever digest it carries. -/
theorem externalId_inj {sessionId u u' p p' : Text} {a b : BlockIdx}
    (h : buildBlockExternalId sessionId u a p = buildBlockExternalId sessionId u' b p') : u = u' ∧ a = b := by
  unfold buildBlockExternalId at h
  obtain ⟨h, -⟩ := after_colon (colon_not_mem_sha1HexPrefix p 16) (colon_not_mem_sha1HexPrefix p' 16) h
  obtain ⟨h, htoken⟩ := after_colon (colon_not_mem_token a) (colon_not_mem_token b) h
  exact ⟨(List.cons.inj (List.append_cancel_left h)).2, token_inj htoken⟩

/-! ## Orders -/

theorem top_offset (i : Nat) : (BlockIdx.top i).orderOffset = i * 2 ^ 16 := Nat.shiftLeft_eq i 16

theorem sub_offset (o : Nat) {i : Nat} (h : i < 2 ^ 15) : (BlockIdx.sub o i).orderOffset = o * 2 ^ 16 + (2 ^ 15 + i) := by
  have hlow : 1 <<< 15 ||| i = 2 ^ 15 + i := by
    rw [← Nat.shiftLeft_add_eq_or_of_lt h, Nat.shiftLeft_eq, Nat.one_mul]
  show (o <<< 16 ||| 1 <<< 15) ||| i = _
  rw [Nat.or_assoc, hlow, ← Nat.shiftLeft_add_eq_or_of_lt (by omega), Nat.shiftLeft_eq]

/-- Within the headroom of a signed 64-bit number, an order is the line and the block's offset. -/
theorem importOrder_eq {n : Nat} {idx : BlockIdx} (hn : n < 2 ^ 31) (h : idx.orderOffset < 2 ^ 32) :
    importOrder n idx = ((n * 2 ^ 32 + idx.orderOffset : Nat) : Int) := by
  unfold importOrder
  rw [← Nat.shiftLeft_add_eq_or_of_lt h, Nat.shiftLeft_eq]
  exact Int.bmod_eq_of_le_mul_two (by omega) (by omega)

/-! ## Pieces -/

variable {Body : Type} [Rendering Body] {line : Line} {calls : KeyMap Text Text} {shown : Bool}

/-- The piece of a block itself. -/
def Line.main (line : Line) (calls : KeyMap Text Text) (k : Nat) (block : Value) : Piece Body :=
  ⟨.top k, toJson block, line.parentsOf calls k block, line.shapeOf block⟩

/-- The piece of an image within a tool result. -/
def Line.inner (line : Line) (parent : List Text) (k i : Nat) (sub : Value) : Piece Body :=
  ⟨.sub k i, toJson sub, parent, "attachment", .roleTool, image line.entry sub "tool_result.image"⟩

/-- Where the images of a tool result hang. -/
def Line.innerParent (line : Line) (shown : Bool) (k : Nat) (block : Value) : List Text :=
  if shown then [line.eid (.top k) (toJson block)] else line.conversation k

theorem mem_imagePieces {parent : List Text} {k : Nat} {piece : Piece Body} : ∀ {i : Nat} {subs : List Value},
    piece ∈ line.imagePieces parent k i subs ↔
      ∃ j sub, subs[j]? = some sub ∧ blockType sub = "image".toList ∧ piece = line.inner parent k (i + j) sub
  | _, [] => by simp [Line.imagePieces]
  | i, sub :: rest => by
    have ih := @mem_imagePieces parent k piece (i + 1) rest
    rw [Line.imagePieces]
    constructor
    · intro h
      have hcases : (blockType sub = "image".toList ∧ piece = line.inner parent k i sub) ∨
          piece ∈ line.imagePieces parent k (i + 1) rest := by
        split at h
        · next htype =>
          rcases List.mem_cons.1 h with h | h
          · exact .inl ⟨htype, h⟩
          · exact .inr h
        · exact .inr h
      rcases hcases with ⟨htype, h⟩ | h
      · exact ⟨0, sub, rfl, htype, h⟩
      · obtain ⟨j, sub', hsub', htype, h⟩ := ih.1 h
        exact ⟨j + 1, sub', hsub', htype, by rw [h, Nat.add_right_comm, Nat.add_assoc]⟩
    · rintro ⟨j, sub', hsub', htype, h⟩
      cases j with
      | zero =>
        obtain rfl : sub = sub' := Option.some.inj hsub'
        rw [if_pos htype]
        exact List.mem_cons.2 (.inl h)
      | succ j =>
        have hmem := ih.2 ⟨j, sub', hsub', htype, by rw [h, Nat.add_right_comm, Nat.add_assoc]⟩
        split
        · exact List.mem_cons_of_mem _ hmem
        · exact hmem

theorem mem_blockPieces {k : Nat} {block : Value} {piece : Piece Body} :
    piece ∈ line.blockPieces shown calls k block ↔ piece = line.main calls k block ∨
      ∃ j sub, (innerImages block)[j]? = some sub ∧ blockType sub = "image".toList ∧
        piece = line.inner (line.innerParent shown k block) k j sub := by
  unfold Line.blockPieces
  rw [List.mem_cons, mem_imagePieces]
  simp only [Nat.zero_add]
  exact Iff.rfl

/-- The calls that are known when a block comes. -/
theorem mem_piecesFrom {piece : Piece Body} : ∀ {calls : KeyMap Text Text} {k : Nat} {blocks : List Value},
    piece ∈ line.piecesFrom shown calls k blocks ↔
      ∃ j block, blocks[j]? = some block ∧
        piece ∈ line.blockPieces shown (line.callsFrom calls k (blocks.take j)) (k + j) block
  | _, _, [] => by simp [Line.piecesFrom]
  | calls, k, block :: rest => by
    have ih := @mem_piecesFrom piece (line.register k block calls) (k + 1) rest
    rw [Line.piecesFrom, List.mem_append, ih]
    constructor
    · rintro (h | ⟨j, block', hblock', h⟩)
      · exact ⟨0, block, rfl, h⟩
      · rw [Nat.add_assoc, Nat.add_comm 1 j] at h
        exact ⟨j + 1, block', hblock', h⟩
    · rintro ⟨j, block', hblock', h⟩
      cases j with
      | zero =>
        obtain rfl : block = block' := Option.some.inj hblock'
        exact .inl h
      | succ j =>
        refine .inr ⟨j, block', hblock', ?_⟩
        rw [Nat.add_assoc, Nat.add_comm 1 j]
        exact h

/-- Fewer than 2 ^ 15 blocks in a message and in each of its blocks. -/
def Sized (entry : RawEntry) : Prop :=
  (messageBlocks entry).length < 2 ^ 15 ∧ ∀ block ∈ messageBlocks entry, (arrayAt "content" block).length < 2 ^ 15

theorem innerImages_length {block : Value} (h : (arrayAt "content" block).length < 2 ^ 15) :
    (innerImages block).length < 2 ^ 15 := by
  unfold innerImages
  split
  · exact h
  · exact Nat.two_pow_pos 15

/-- The offsets of the images of a tool result go up, within its share. -/
theorem imagePieces_sorted {parent : List Text} {k : Nat} : ∀ {i : Nat} {subs : List Value}, i + subs.length ≤ 2 ^ 15 →
    (line.imagePieces parent k i subs : List (Piece Body)).Pairwise (fun a b => a.idx.orderOffset < b.idx.orderOffset)
  | _, [], _ => .nil
  | i, sub :: rest, h => by
    rw [List.length_cons] at h
    have ih := @imagePieces_sorted parent k (i + 1) rest (by omega)
    rw [Line.imagePieces]
    split
    · refine List.pairwise_cons.2 ⟨fun piece hpiece => ?_, ih⟩
      obtain ⟨j, sub', hsub', -, rfl⟩ := mem_imagePieces.1 hpiece
      have hj := (List.getElem?_eq_some_iff.1 hsub').1
      show (BlockIdx.sub k i).orderOffset < (BlockIdx.sub k (i + 1 + j)).orderOffset
      rw [sub_offset k (by omega), sub_offset k (by omega)]
      omega
    · exact ih

theorem blockPieces_offset {k : Nat} {block : Value} {piece : Piece Body}
    (hsize : (arrayAt "content" block).length < 2 ^ 15) (h : piece ∈ line.blockPieces shown calls k block) :
    k * 2 ^ 16 ≤ piece.idx.orderOffset ∧ piece.idx.orderOffset < (k + 1) * 2 ^ 16 := by
  rcases mem_blockPieces.1 h with rfl | ⟨j, sub, hsub, -, rfl⟩
  · show _ ≤ (BlockIdx.top k).orderOffset ∧ (BlockIdx.top k).orderOffset < _
    rw [top_offset]
    omega
  · have hj := (List.getElem?_eq_some_iff.1 hsub).1
    have hlength := innerImages_length hsize
    show _ ≤ (BlockIdx.sub k j).orderOffset ∧ (BlockIdx.sub k j).orderOffset < _
    rw [sub_offset k (by omega)]
    omega

theorem blockPieces_sorted {k : Nat} {block : Value} (hsize : (arrayAt "content" block).length < 2 ^ 15) :
    (line.blockPieces shown calls k block : List (Piece Body)).Pairwise
      (fun a b => a.idx.orderOffset < b.idx.orderOffset) := by
  have hlength := innerImages_length hsize
  refine List.pairwise_cons.2 ⟨fun piece hpiece => ?_, imagePieces_sorted (by omega)⟩
  obtain ⟨j, sub, hsub, -, rfl⟩ := mem_imagePieces.1 hpiece
  have hj := (List.getElem?_eq_some_iff.1 hsub).1
  show (BlockIdx.top k).orderOffset < (BlockIdx.sub k (0 + j)).orderOffset
  rw [top_offset, sub_offset k (by omega)]
  omega

theorem piecesFrom_sorted : ∀ {calls : KeyMap Text Text} {k : Nat} {blocks : List Value},
    (∀ block ∈ blocks, (arrayAt "content" block).length < 2 ^ 15) →
      (line.piecesFrom shown calls k blocks : List (Piece Body)).Pairwise
        (fun a b => a.idx.orderOffset < b.idx.orderOffset)
  | _, _, [], _ => .nil
  | calls, k, block :: rest, h => by
    rw [Line.piecesFrom]
    refine List.pairwise_append.2 ⟨blockPieces_sorted (h block List.mem_cons_self),
      piecesFrom_sorted fun b hb => h b (List.mem_cons_of_mem _ hb), fun a ha b hb => ?_⟩
    obtain ⟨-, hlt⟩ := blockPieces_offset (h block List.mem_cons_self) ha
    obtain ⟨j, block', hblock', hb⟩ := mem_piecesFrom.1 hb
    have hmem : block' ∈ rest := List.mem_of_getElem? hblock'
    obtain ⟨hle, -⟩ := blockPieces_offset (h block' (List.mem_cons_of_mem _ hmem)) hb
    have hshare : (k + 1) * 2 ^ 16 ≤ (k + 1 + j) * 2 ^ 16 := Nat.mul_le_mul_right _ (by omega)
    omega

/-- **The pieces of a line stand in their order**, and leave the upper half of the number to the line. -/
theorem pieces_sorted (h : Sized line.entry) :
    (line.pieces shown calls : List (Piece Body)).Pairwise (fun a b => a.idx.orderOffset < b.idx.orderOffset) ∧
      ∀ piece ∈ (line.pieces shown calls : List (Piece Body)), piece.idx.orderOffset < 2 ^ 32 := by
  have hwhole : ∀ (payload : Text) (shape : Shape Body),
      [line.whole payload shape].Pairwise (fun a b => a.idx.orderOffset < b.idx.orderOffset) ∧
        ∀ piece ∈ [line.whole payload shape], piece.idx.orderOffset < 2 ^ 32 := by
    intro payload shape
    refine ⟨List.pairwise_singleton _ _, fun piece hpiece => ?_⟩
    rw [List.mem_singleton.1 hpiece]
    show (BlockIdx.top 0).orderOffset < 2 ^ 32
    decide
  unfold Line.pieces
  split
  · exact hwhole _ _
  · split
    · rcases line.entry.content with _ | value
      · exact ⟨.nil, fun _ hp => absurd hp List.not_mem_nil⟩
      · cases value with
        | null => exact ⟨.nil, fun _ hp => absurd hp List.not_mem_nil⟩
        | _ => exact hwhole _ _
    · refine ⟨piecesFrom_sorted h.2, fun piece hpiece => ?_⟩
      obtain ⟨j, block, hblock, hpiece⟩ := mem_piecesFrom.1 hpiece
      have hj := (List.getElem?_eq_some_iff.1 hblock).1
      obtain ⟨-, hlt⟩ := blockPieces_offset (h.2 block (List.mem_of_getElem? hblock)) hpiece
      have hlength := h.1
      omega

end MemoryStore.AgentImport.ClaudeCode

/-!
Where the entries of a transcript come from, and which tool calls are known when
a block comes: the last call with an id is found, and what is found is the id of
a call's block.
-/

namespace MemoryStore.AgentImport.ClaudeCode

open Rendering

variable {Body : Type} [Rendering Body] {line : Line} {calls : KeyMap Text Text}
variable {sessionId : Text} {anchorMap : KeyMap Text Text} {settings : Settings}

/-- A block that calls a tool under this id. -/
def IsCall (block : Value) (t : Text) : Prop := blockType block = "tool_use".toList ∧ textAt "id" block = some t

/-! ## Within a line -/

theorem register_lookup_self {k : Nat} {block : Value} {t : Text} (h : IsCall block t) :
    (line.register k block calls).lookup t = some (line.eid (.top k) (toJson block)) := by
  unfold Line.register
  rw [if_pos h.1, h.2]
  exact AList.lookup_insert calls

theorem register_lookup_ne {k : Nat} {block : Value} {t : Text} (h : ¬IsCall block t) :
    (line.register k block calls).lookup t = calls.lookup t := by
  unfold Line.register
  split
  · next htype =>
    split
    · next tid htid =>
      exact AList.lookup_insert_ne fun ht => h ⟨htype, ht ▸ htid⟩
    · rfl
  · rfl

theorem callsFrom_append : ∀ {calls : KeyMap Text Text} {k : Nat} (blocks more : List Value),
    line.callsFrom calls k (blocks ++ more) = line.callsFrom (line.callsFrom calls k blocks) (k + blocks.length) more
  | _, _, [], _ => rfl
  | calls, k, block :: rest, more => by
    rw [List.cons_append, Line.callsFrom, Line.callsFrom, callsFrom_append, List.length_cons]
    congr 1
    omega

theorem callsFrom_keep {t : Text} : ∀ {calls : KeyMap Text Text} {k : Nat} {blocks : List Value},
    (∀ block ∈ blocks, ¬IsCall block t) → (line.callsFrom calls k blocks).lookup t = calls.lookup t
  | _, _, [], _ => rfl
  | calls, k, block :: rest, h => by
    rw [Line.callsFrom, callsFrom_keep fun b hb => h b (List.mem_cons_of_mem _ hb),
      register_lookup_ne (h block List.mem_cons_self)]

/-- The last call with an id is the one that is found. -/
theorem callsFrom_last {k j : Nat} {block : Value} {blocks : List Value} {t : Text} (hblock : blocks[j]? = some block)
    (hcall : IsCall block t) (hlast : ∀ j' b, j < j' → blocks[j']? = some b → ¬IsCall b t) :
    (line.callsFrom calls k blocks).lookup t = some (line.eid (.top (k + j)) (toJson block)) := by
  obtain ⟨hj, hget⟩ := List.getElem?_eq_some_iff.1 hblock
  have hsplit : blocks = blocks.take j ++ block :: blocks.drop (j + 1) := by
    rw [← hget, List.getElem_cons_drop, List.take_append_drop]
  have hlength : (blocks.take j).length = j := by
    rw [List.length_take]
    omega
  rw [hsplit, callsFrom_append, hlength, Line.callsFrom, callsFrom_keep, register_lookup_self hcall]
  intro b hb
  obtain ⟨n, hn⟩ := List.mem_iff_getElem?.1 hb
  rw [List.getElem?_drop] at hn
  exact hlast (j + 1 + n) b (by omega) hn

/-- What is found was known before, or is a block of the line. -/
theorem callsFrom_origin {t c : Text} : ∀ {calls : KeyMap Text Text} {k : Nat} {blocks : List Value},
    (line.callsFrom calls k blocks).lookup t = some c →
      calls.lookup t = some c ∨ ∃ j block, blocks[j]? = some block ∧ c = line.eid (.top (k + j)) (toJson block)
  | _, _, [], h => .inl h
  | calls, k, block :: rest, h => by
    rw [Line.callsFrom] at h
    rcases callsFrom_origin h with h | ⟨j, block', hblock', hc⟩
    · by_cases hcall : IsCall block t
      · rw [register_lookup_self hcall] at h
        exact .inr ⟨0, block, rfl, (Option.some.inj h).symm⟩
      · rw [register_lookup_ne hcall] at h
        exact .inl h
    · refine .inr ⟨j + 1, block', hblock', ?_⟩
      rw [hc, Nat.add_right_comm, Nat.add_assoc]

/-! ## Lines -/

/-- A line of messages: its blocks are cut. -/
def IsMessage (entry : RawEntry) : Prop := entry.entryType ≠ "attachment" ∧ entry.entryType ≠ "system"

/-- Whom a line answers. -/
def linkUuid (entry : RawEntry) : Option Text :=
  if entry.entryType = "attachment" then entry.parentUuid.filter fun p => !p.isEmpty else entry.parentUuid

/-- What a line that is cut is made of. -/
theorem lineAt_spec {entry : RawEntry} {n : Nat} (h : lineAt sessionId anchorMap entry n = some line) :
    line.entry = entry ∧ line.sessionId = sessionId ∧ line.lineIdx = n ∧ entry.uuid = some line.uuid ∧
      isCanonicalEventType entry.entryType = true ∧ (entry.timestamp.bind parseTimestampMillis).isSome ∧
      line.parentAnchor = ((linkUuid entry).bind anchorMap.lookup).toList := by
  unfold lineAt at h
  split at h
  · next hcanonical =>
    split at h
    · next uuid timestampMs huuid htime =>
      obtain rfl := Option.some.inj h
      exact ⟨rfl, rfl, rfl, huuid, hcanonical, by rw [htime]; rfl, rfl⟩
    · simp at h
  · simp at h

theorem lineAt_isSome {entry : RawEntry} (n : Nat) (hcanonical : isCanonicalEventType entry.entryType = true)
    (huuid : entry.uuid.isSome) (htime : (entry.timestamp.bind parseTimestampMillis).isSome) :
    ∃ line, lineAt sessionId anchorMap entry n = some line := by
  obtain ⟨uuid, huuid⟩ := Option.isSome_iff_exists.1 huuid
  obtain ⟨timestampMs, htime⟩ := Option.isSome_iff_exists.1 htime
  unfold lineAt
  rw [if_pos hcanonical, huuid, htime]
  exact ⟨_, rfl⟩

/-- The calls that are known after some lines. -/
def callsAfter (sessionId : Text) (anchorMap : KeyMap Text Text) :
    Nat → KeyMap Text Text → List RawEntry → KeyMap Text Text
  | _, calls, [] => calls
  | n, calls, entry :: rest => callsAfter sessionId anchorMap (n + 1) (lineCalls sessionId anchorMap entry n calls) rest

theorem callsAfter_append : ∀ {n : Nat} {calls : KeyMap Text Text} (lines more : List RawEntry),
    callsAfter sessionId anchorMap n calls (lines ++ more) =
      callsAfter sessionId anchorMap (n + lines.length) (callsAfter sessionId anchorMap n calls lines) more
  | _, _, [], _ => rfl
  | n, calls, entry :: rest, more => by
    rw [List.cons_append, callsAfter, callsAfter, callsAfter_append, List.length_cons]
    congr 1
    omega

/-- The calls that are known when a line comes. -/
def callsBefore (sessionId : Text) (anchorMap : KeyMap Text Text) (lines : List RawEntry) (i : Nat) : KeyMap Text Text :=
  callsAfter sessionId anchorMap 0 ∅ (lines.take i)

theorem callsBefore_succ {lines : List RawEntry} {i : Nat} {entry : RawEntry} (h : lines[i]? = some entry) :
    callsBefore sessionId anchorMap lines (i + 1) =
      lineCalls sessionId anchorMap entry i (callsBefore sessionId anchorMap lines i) := by
  obtain ⟨hi, hget⟩ := List.getElem?_eq_some_iff.1 h
  have hlength : (lines.take i).length = i := by
    rw [List.length_take]
    omega
  unfold callsBefore
  rw [List.take_succ_eq_append_getElem hi, hget, callsAfter_append, hlength, Nat.zero_add]
  rfl

/-- A tool call in a transcript, on a line that is cut. -/
def CallAt (lines : List RawEntry) (i k : Nat) (t : Text) : Prop :=
  ∃ entry block, lines[i]? = some entry ∧ isCanonicalEventType entry.entryType = true ∧ entry.uuid.isSome ∧
    (entry.timestamp.bind parseTimestampMillis).isSome ∧ IsMessage entry ∧ (messageBlocks entry)[k]? = some block ∧
    IsCall block t

theorem calls_message {entry : RawEntry} {n : Nat} (hline : lineAt sessionId anchorMap entry n = some line)
    (hmessage : IsMessage entry) :
    lineCalls sessionId anchorMap entry n calls = line.callsFrom calls 0 (messageBlocks entry) := by
  obtain ⟨hentry, -⟩ := lineAt_spec hline
  unfold lineCalls Line.calls
  rw [hline]
  dsimp only
  rw [hentry, if_neg (not_or.2 hmessage)]

/-- A line without a call of this id leaves what is found for it. -/
theorem lineCalls_keep {lines : List RawEntry} {i : Nat} {entry : RawEntry} {t : Text} (h : lines[i]? = some entry)
    (hno : ∀ k, ¬CallAt lines i k t) :
    (lineCalls sessionId anchorMap entry i calls).lookup t = calls.lookup t := by
  cases hline : lineAt sessionId anchorMap entry i with
  | none =>
    unfold lineCalls
    rw [hline]
  | some line =>
    by_cases hmessage : IsMessage entry
    · obtain ⟨-, -, -, huuid, hcanonical, htime, -⟩ := lineAt_spec hline
      rw [calls_message hline hmessage, callsFrom_keep]
      intro block hblock hcall
      obtain ⟨k, hk⟩ := List.mem_iff_getElem?.1 hblock
      exact hno k ⟨entry, block, h, hcanonical, by rw [huuid]; rfl, htime, hmessage, hk, hcall⟩
    · obtain ⟨hentry, -⟩ := lineAt_spec hline
      unfold lineCalls Line.calls
      rw [hline]
      dsimp only
      rw [hentry, if_pos (by unfold IsMessage at hmessage; tauto)]

theorem callsBefore_keep {lines : List RawEntry} {i : Nat} {t : Text} : ∀ {n : Nat}, i + n ≤ lines.length →
    (∀ j k, i ≤ j → j < i + n → ¬CallAt lines j k t) →
      (callsBefore sessionId anchorMap lines (i + n)).lookup t = (callsBefore sessionId anchorMap lines i).lookup t
  | 0, _, _ => rfl
  | n + 1, hle, hno => by
    have hget : lines[i + n]? = some (lines.get ⟨i + n, by omega⟩) := List.getElem?_eq_getElem (by omega)
    have ih := @callsBefore_keep lines i t n (by omega) fun j k hj hlt => hno j k hj (by omega)
    rw [← Nat.add_assoc, callsBefore_succ hget,
      lineCalls_keep hget fun k => hno (i + n) k (by omega) (by omega), ih]

/-- **The last call with an id is what a later line finds.** -/
theorem callsBefore_last {lines : List RawEntry} {i j k : Nat} {entry : RawEntry} {block : Value} {t : Text}
    (hentry : lines[j]? = some entry) (hline : lineAt sessionId anchorMap entry j = some line)
    (hmessage : IsMessage entry) (hblock : (messageBlocks entry)[k]? = some block) (hcall : IsCall block t)
    (hi : j < i) (hle : i ≤ lines.length) (hsame : ∀ k', k < k' → ¬CallAt lines j k' t)
    (hbetween : ∀ j' k', j < j' → j' < i → ¬CallAt lines j' k' t) :
    (callsBefore sessionId anchorMap lines i).lookup t = some (line.eid (.top k) (toJson block)) := by
  obtain ⟨n, rfl⟩ : ∃ n, i = j + 1 + n := ⟨i - (j + 1), by omega⟩
  obtain ⟨-, -, -, huuid, hcanonical, htime, -⟩ := lineAt_spec hline
  rw [callsBefore_keep hle fun j' k' hj hlt => hbetween j' k' (by omega) hlt, callsBefore_succ hentry,
    calls_message hline hmessage, callsFrom_last hblock hcall, Nat.zero_add]
  intro k' b hk' hb hcall'
  exact hsame k' hk' ⟨entry, b, hentry, hcanonical, by rw [huuid]; rfl, htime, hmessage, hb, hcall'⟩

/-- What is found is the id of a block of an earlier line. -/
theorem callsBefore_origin {lines : List RawEntry} {t c : Text} : ∀ {i : Nat}, i ≤ lines.length →
    (callsBefore sessionId anchorMap lines i).lookup t = some c →
      ∃ j entry line k block, lines[j]? = some entry ∧ lineAt sessionId anchorMap entry j = some line ∧
        IsMessage entry ∧ (messageBlocks entry)[k]? = some block ∧ c = line.eid (.top k) (toJson block)
  | 0, _, h => by
    rw [callsBefore, List.take_zero] at h
    exact absurd h (by rw [callsAfter, AList.lookup_empty]; simp)
  | i + 1, hle, h => by
    have hget : lines[i]? = some (lines.get ⟨i, by omega⟩) := List.getElem?_eq_getElem (by omega)
    rw [callsBefore_succ hget] at h
    have hknown := @callsBefore_origin lines t c i (by omega)
    cases hline : lineAt sessionId anchorMap (lines.get ⟨i, by omega⟩) i with
    | none =>
      unfold lineCalls at h
      rw [hline] at h
      exact hknown h
    | some line =>
      by_cases hmessage : IsMessage (lines.get ⟨i, by omega⟩)
      · rw [calls_message hline hmessage] at h
        rcases callsFrom_origin h with h | ⟨k, block, hblock, hc⟩
        · exact hknown h
        · exact ⟨i, _, line, k, block, hget, hline, hmessage, hblock, by rw [hc, Nat.zero_add]⟩
      · obtain ⟨hentry, -⟩ := lineAt_spec hline
        unfold lineCalls Line.calls at h
        rw [hline] at h
        dsimp only at h
        rw [hentry, if_pos (by unfold IsMessage at hmessage; tauto)] at h
        exact hknown h

/-! ## Entries -/

/-- Where an entry comes from. -/
structure Placed (sessionId : Text) (settings : Settings) (lines : List RawEntry) (x : CanonicalEntry Body) (i : Nat)
    (line : Line) (piece : Piece Body) : Prop where
  here : lines[i]? = some line.entry
  cut : lineAt sessionId (buildBlock0AnchorMap sessionId lines) line.entry i = some line
  mem : piece ∈ line.pieces settings.shown (callsBefore sessionId (buildBlock0AnchorMap sessionId lines) lines i)
  kept : settings.keeps line.entry piece = true
  eq : x = line.entryOf piece

theorem mem_entriesFrom {x : CanonicalEntry Body} : ∀ {n : Nat} {calls : KeyMap Text Text} {lines : List RawEntry},
    x ∈ entriesFrom sessionId settings anchorMap n calls lines ↔
      ∃ i entry, lines[i]? = some entry ∧ x ∈ lineEntries sessionId settings anchorMap entry (n + i)
        (callsAfter sessionId anchorMap n calls (lines.take i))
  | _, _, [] => by simp [entriesFrom]
  | n, calls, entry :: rest => by
    have ih := @mem_entriesFrom x (n + 1) (lineCalls sessionId anchorMap entry n calls) rest
    rw [entriesFrom, List.mem_append, ih]
    constructor
    · rintro (h | ⟨i, entry', hentry', h⟩)
      · exact ⟨0, entry, rfl, h⟩
      · rw [Nat.add_right_comm, Nat.add_assoc] at h
        exact ⟨i + 1, entry', hentry', h⟩
    · rintro ⟨i, entry', hentry', h⟩
      cases i with
      | zero =>
        obtain rfl : entry = entry' := Option.some.inj hentry'
        exact .inl h
      | succ i =>
        refine .inr ⟨i, entry', hentry', ?_⟩
        rw [Nat.add_right_comm, Nat.add_assoc]
        exact h

theorem mem_transcript {lines : List RawEntry} {x : CanonicalEntry Body} :
    x ∈ transcript sessionId settings lines ↔ ∃ i line piece, Placed sessionId settings lines x i line piece := by
  rw [transcript_eq, mem_entriesFrom]
  constructor
  · rintro ⟨i, entry, hentry, h⟩
    rw [Nat.zero_add] at h
    unfold lineEntries at h
    split at h
    · exact absurd h List.not_mem_nil
    · next line hline =>
      obtain ⟨rfl, -⟩ := lineAt_spec hline
      obtain ⟨piece, hpiece, rfl⟩ := List.mem_map.1 h
      obtain ⟨hmem, hkept⟩ := List.mem_filter.1 hpiece
      exact ⟨i, line, piece, hentry, hline, hmem, hkept, rfl⟩
  · rintro ⟨i, line, piece, hplaced⟩
    refine ⟨i, line.entry, hplaced.here, ?_⟩
    rw [Nat.zero_add]
    unfold lineEntries
    rw [hplaced.cut, hplaced.eq]
    exact List.mem_map_of_mem (List.mem_filter.2 ⟨hplaced.mem, hplaced.kept⟩)

end MemoryStore.AgentImport.ClaudeCode
