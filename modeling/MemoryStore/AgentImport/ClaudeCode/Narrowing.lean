/-
The entries of a transcript one after the other: their orders go up, no id comes
twice, and narrower settings take entries away.
-/
import MemoryStore.AgentImport.ClaudeCode.Places

namespace MemoryStore.AgentImport.ClaudeCode

open Rendering

/-- Attachments without their place in the tree. -/
def CanonicalEntry.unplaced {Body : Type} (x : CanonicalEntry Body) : CanonicalEntry Body :=
  if x.kindTag = "attachment" then { x with parentExternalIds := [] } else x

/-- An attachment's piece without its place. -/
def Piece.unplaced {Body : Type} (piece : Piece Body) : Piece Body :=
  if piece.shape.kindTag = "attachment" then { piece with parents := [] } else piece

theorem unplaced_shape {Body : Type} (piece : Piece Body) : piece.unplaced.shape = piece.shape := by
  unfold Piece.unplaced
  split <;> rfl

variable {Body : Type} [Rendering Body] {line : Line} {calls : KeyMap Text Text}
variable {sessionId : Text} {anchorMap : KeyMap Text Text} {settings narrower : Settings}

/-! ## Orders -/

theorem entryOf_importOrder (piece : Piece Body) :
    (line.entryOf piece).importOrder = importOrder line.lineIdx piece.idx := by
  simp only [Line.entryOf]

/-- The orders of a line's entries are in its share. -/
theorem lineEntries_order {entry : RawEntry} {n : Nat} {x : CanonicalEntry Body} (hsize : Sized entry) (hn : n < 2 ^ 31)
    (h : x ∈ lineEntries sessionId settings anchorMap entry n calls) :
    ((n * 2 ^ 32 : Nat) : Int) ≤ x.importOrder ∧ x.importOrder < (((n + 1) * 2 ^ 32 : Nat) : Int) := by
  unfold lineEntries at h
  split at h
  · exact absurd h List.not_mem_nil
  · next line hline =>
    obtain ⟨rfl, -, rfl, -⟩ := lineAt_spec hline
    obtain ⟨piece, hpiece, rfl⟩ := List.mem_map.1 h
    have hlt := (pieces_sorted hsize).2 piece (List.mem_of_mem_filter hpiece)
    rw [entryOf_importOrder, importOrder_eq hn hlt]
    omega

theorem lineEntries_sorted {entry : RawEntry} {n : Nat} (hsize : Sized entry) (hn : n < 2 ^ 31) :
    (lineEntries sessionId settings anchorMap entry n calls).Pairwise fun x y => x.importOrder < y.importOrder := by
  unfold lineEntries
  split
  · exact .nil
  · next line hline =>
    obtain ⟨rfl, -, rfl, -⟩ := lineAt_spec hline
    obtain ⟨hsorted, hbound⟩ := @pieces_sorted Body _ line calls settings.shown hsize
    refine List.pairwise_map.2 ((hsorted.imp_of_mem fun {a b} ha hb hlt => ?_).filter _)
    rw [entryOf_importOrder, entryOf_importOrder, importOrder_eq hn (hbound a ha), importOrder_eq hn (hbound b hb)]
    omega

/-- **Import orders go up.** -/
theorem entriesFrom_sorted : ∀ {n : Nat} {calls : KeyMap Text Text} {lines : List RawEntry},
    n + lines.length ≤ 2 ^ 31 → (∀ entry ∈ lines, Sized entry) →
      (entriesFrom sessionId settings anchorMap n calls lines).Pairwise fun x y => x.importOrder < y.importOrder
  | _, _, [], _, _ => .nil
  | n, calls, entry :: rest, hn, hsize => by
    rw [List.length_cons] at hn
    rw [entriesFrom]
    refine List.pairwise_append.2 ⟨lineEntries_sorted (hsize entry List.mem_cons_self) (by omega),
      entriesFrom_sorted (by omega) fun e he => hsize e (List.mem_cons_of_mem _ he), fun x hx y hy => ?_⟩
    obtain ⟨-, hlt⟩ := lineEntries_order (hsize entry List.mem_cons_self) (by omega) hx
    obtain ⟨i, entry', hentry', hy⟩ := mem_entriesFrom.1 hy
    have hi := (List.getElem?_eq_some_iff.1 hentry').1
    obtain ⟨hle, -⟩ := lineEntries_order (hsize entry' (List.mem_cons_of_mem _ (List.mem_of_getElem? hentry'))) (by omega) hy
    have hshare : ((n + 1) * 2 ^ 32 : Nat) ≤ (n + 1 + i) * 2 ^ 32 := Nat.mul_le_mul_right _ (by omega)
    omega

/-! ## Ids -/

theorem lineEntries_externalId {entry : RawEntry} {n : Nat} {x : CanonicalEntry Body}
    (h : x ∈ lineEntries sessionId settings anchorMap entry n calls) :
    ∃ uuid idx payload, entry.uuid = some uuid ∧ x.externalId = buildBlockExternalId sessionId uuid idx payload := by
  unfold lineEntries at h
  split at h
  · exact absurd h List.not_mem_nil
  · next line hline =>
    obtain ⟨rfl, rfl, -, huuid, -⟩ := lineAt_spec hline
    obtain ⟨piece, -, rfl⟩ := List.mem_map.1 h
    exact ⟨line.uuid, piece.idx, piece.payload, huuid, rfl⟩

theorem lineEntries_distinct {entry : RawEntry} {n : Nat} (hsize : Sized entry) :
    ((lineEntries sessionId settings anchorMap entry n calls).map CanonicalEntry.externalId).Nodup := by
  unfold lineEntries
  split
  · exact List.nodup_nil
  · next line hline =>
    obtain ⟨rfl, -⟩ := lineAt_spec hline
    have hsorted := (@pieces_sorted Body _ line calls settings.shown hsize).1
    unfold Line.entries
    rw [List.map_map]
    refine List.pairwise_map.2 ((hsorted.imp fun {a b} hlt he => ?_).filter _)
    obtain ⟨-, hidx⟩ := externalId_inj he
    rw [hidx] at hlt
    exact absurd hlt (lt_irrefl _)

/-- **No external id comes twice.** -/
theorem entriesFrom_distinct : ∀ {n : Nat} {calls : KeyMap Text Text} {lines : List RawEntry},
    (lines.filterMap RawEntry.uuid).Nodup → (∀ entry ∈ lines, Sized entry) →
      ((entriesFrom sessionId settings anchorMap n calls lines).map CanonicalEntry.externalId).Nodup
  | _, _, [], _, _ => List.nodup_nil
  | n, calls, entry :: rest, hu, hsize => by
    have hrest : (rest.filterMap RawEntry.uuid).Nodup := by
      refine List.Nodup.sublist ?_ hu
      rw [List.filterMap_cons]
      split
      · exact List.Sublist.refl _
      · exact List.sublist_cons_self _ _
    rw [entriesFrom, List.map_append]
    refine List.nodup_append.2 ⟨lineEntries_distinct (hsize entry List.mem_cons_self),
      entriesFrom_distinct hrest fun e he => hsize e (List.mem_cons_of_mem _ he), fun a ha b hb he => ?_⟩
    obtain ⟨x, hx, rfl⟩ := List.mem_map.1 ha
    obtain ⟨y, hy, rfl⟩ := List.mem_map.1 hb
    obtain ⟨i, entry', hentry', hy⟩ := mem_entriesFrom.1 hy
    obtain ⟨u, idx, p, huuid, hxid⟩ := lineEntries_externalId hx
    obtain ⟨u', idx', p', huuid', hyid⟩ := lineEntries_externalId hy
    obtain ⟨rfl, -⟩ := externalId_inj (hxid.symm.trans (he.trans hyid))
    rw [List.filterMap_cons, huuid] at hu
    exact (List.nodup_cons.1 hu).1 (List.mem_filterMap.2 ⟨entry', List.mem_of_getElem? hentry', huuid'⟩)

/-! ## Narrower settings -/

/-- Narrower settings have the same policy and fewer types. -/
structure Settings.Narrows (narrower settings : Settings) : Prop where
  policy : narrower.attachmentPolicy = settings.attachmentPolicy
  types : narrower.includeTypes ⊆ settings.includeTypes

theorem Settings.Narrows.keeps (h : narrower.Narrows settings) {entry : RawEntry} {piece : Piece Body}
    (hkept : narrower.keeps entry piece = true) : settings.keeps entry piece = true := by
  unfold Settings.keeps at hkept ⊢
  rw [← h.policy]
  rw [Bool.and_eq_true, decide_eq_true_eq] at hkept ⊢
  exact ⟨h.types hkept.1, hkept.2⟩

theorem entryOf_unplaced (piece : Piece Body) : (line.entryOf piece).unplaced = line.entryOf piece.unplaced := by
  unfold CanonicalEntry.unplaced Piece.unplaced Line.entryOf
  dsimp only
  by_cases hkind : piece.shape.kindTag = "attachment" <;> simp only [hkind, if_true, if_false]

theorem keeps_unplaced {entry : RawEntry} (piece : Piece Body) :
    settings.keeps entry piece.unplaced = settings.keeps entry piece := by
  unfold Settings.keeps
  rw [unplaced_shape]

theorem imagePieces_unplaced {parent parent' : List Text} {k : Nat} : ∀ {i : Nat} {subs : List Value},
    (line.imagePieces parent k i subs : List (Piece Body)).map Piece.unplaced =
      (line.imagePieces parent' k i subs).map Piece.unplaced
  | _, [] => rfl
  | i, sub :: rest => by
    have ih := @imagePieces_unplaced parent parent' k (i + 1) rest
    rw [Line.imagePieces, Line.imagePieces]
    split
    · rw [List.map_cons, List.map_cons, ih]
      rfl
    · exact ih

theorem piecesFrom_unplaced {shown shown' : Bool} : ∀ {calls : KeyMap Text Text} {k : Nat} {blocks : List Value},
    (line.piecesFrom shown calls k blocks : List (Piece Body)).map Piece.unplaced =
      (line.piecesFrom shown' calls k blocks).map Piece.unplaced
  | _, _, [] => rfl
  | calls, k, block :: rest => by
    rw [Line.piecesFrom, Line.piecesFrom, List.map_append, List.map_append, piecesFrom_unplaced, Line.blockPieces,
      Line.blockPieces, List.map_cons, List.map_cons, imagePieces_unplaced]

/-- The settings move nothing but attachments. -/
theorem pieces_unplaced {shown shown' : Bool} : (line.pieces shown calls : List (Piece Body)).map Piece.unplaced =
    (line.pieces shown' calls).map Piece.unplaced := by
  unfold Line.pieces
  split
  · rfl
  · split
    · rfl
    · exact piecesFrom_unplaced

theorem entries_unplaced : (line.entries settings calls).map CanonicalEntry.unplaced =
    (((line.pieces settings.shown calls).map Piece.unplaced).filter (settings.keeps line.entry)).map line.entryOf := by
  unfold Line.entries
  rw [List.filter_map, List.map_map, List.map_map]
  have hkeeps : settings.keeps line.entry ∘ Piece.unplaced = fun piece : Piece Body => settings.keeps line.entry piece :=
    funext keeps_unplaced
  rw [hkeeps]
  exact List.map_congr_left fun piece _ => entryOf_unplaced piece

/-- **Narrower settings only take entries away**, but for where attachments hang. -/
theorem entriesFrom_narrows (h : narrower.Narrows settings) :
    ∀ {n : Nat} {calls : KeyMap Text Text} {lines : List RawEntry},
      List.Sublist ((entriesFrom sessionId narrower anchorMap n calls lines).map CanonicalEntry.unplaced)
        ((entriesFrom sessionId settings anchorMap n calls lines).map CanonicalEntry.unplaced)
  | _, _, [] => List.Sublist.refl _
  | n, calls, entry :: rest => by
    rw [entriesFrom, entriesFrom, List.map_append, List.map_append]
    refine List.Sublist.append ?_ (entriesFrom_narrows h)
    unfold lineEntries
    split
    · exact List.Sublist.refl _
    · next line hline =>
      rw [entries_unplaced, entries_unplaced, @pieces_unplaced Body _ line calls narrower.shown settings.shown]
      exact (List.monotone_filter_right _ fun piece hkept => h.keeps hkept).map _

/-- Where tool outputs stay or are gone already, attachments hang where they hung. -/
theorem entriesFrom_narrows_shown (h : narrower.Narrows settings) (hshown : narrower.shown = settings.shown) :
    ∀ {n : Nat} {calls : KeyMap Text Text} {lines : List RawEntry},
      List.Sublist (entriesFrom sessionId narrower anchorMap n calls lines)
        (entriesFrom sessionId settings anchorMap n calls lines)
  | _, _, [] => List.Sublist.refl _
  | n, calls, entry :: rest => by
    rw [entriesFrom, entriesFrom]
    refine List.Sublist.append ?_ (entriesFrom_narrows_shown h hshown)
    unfold lineEntries
    split
    · exact List.Sublist.refl _
    · next line hline =>
      unfold Line.entries
      rw [hshown]
      exact (List.monotone_filter_right _ fun piece hkept => h.keeps hkept).map _

end MemoryStore.AgentImport.ClaudeCode
