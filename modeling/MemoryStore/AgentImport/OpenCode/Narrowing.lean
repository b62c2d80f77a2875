/-
What other settings and other rows do to a session. Which kinds are imported
decides which entries are there, never whether a session can be read or what an
entry's id, role and time are; a row that is still there gives the same entries
whatever came or went around it; and an id names its session, message and part.
-/
import MemoryStore.AgentImport.OpenCode.NormalizeExact

namespace MemoryStore.AgentImport.OpenCode

open ClaudeCode (CanonicalEntry MessageRole)
open ReadyOrder

/-! ## What is noted does not bear on what is read -/

/-- Whatever is noted so far, the same is read. -/
def Steady {α : Type} (x : Noting α) : Prop := ∀ n n', (x.run.run n).1 = (x.run.run n').1

section Steady

variable {α β : Type} {x : Noting α} {f : α → Noting β}

theorem steady_pure (a : α) : Steady (pure a : Noting α) := fun _ _ => rfl

theorem steady_except (y : Except String α) : Steady (liftM y : Noting α) := fun _ _ => rfl

theorem steady_modify (g : Noted → Noted) : Steady (modify g : Noting Unit) := fun _ _ => rfl

theorem steady_bind (hx : Steady x) (hf : ∀ a, Steady (f a)) : Steady (x >>= f) := by
  intro n n'
  simp only [ExceptT.run_bind, StateT.run_bind]
  have h := hx n n'
  generalize hr : x.run.run n = r at h
  generalize hr' : x.run.run n' = r' at h
  obtain ⟨o, n₁⟩ := r
  obtain ⟨o', n₁'⟩ := r'
  obtain rfl : o = o' := h
  cases o with
  | error e => rfl
  | ok a => exact hf a n₁ n₁'

theorem steady_discard (hx : Steady x) : Steady (discard x : Noting Unit) := by
  have hbind : (discard x : Noting Unit) = x >>= fun _ => pure () := by
    rw [discard, LawfulFunctor.map_const, Function.comp_apply, ← bind_pure_comp]
  rw [hbind]
  exact steady_bind hx fun _ => steady_pure ()

theorem steady_forM {l : List β} {g : β → Noting Unit} (hg : ∀ b, Steady (g b)) : Steady (l.forM g) := by
  induction l with
  | nil => exact steady_pure ()
  | cons b l ih => exact steady_bind (hg b) fun _ => ih

end Steady

theorem steady_usageNumber (messageId : Text) (data : Fields) (key field : String) :
    Steady (usageNumber messageId data key field) := by
  unfold usageNumber
  split
  · exact steady_pure ()
  · exact steady_modify _

theorem steady_normalizeUsage (data : Fields) (messageId : Text) : Steady (normalizeUsage data messageId) := by
  unfold normalizeUsage
  refine steady_bind (steady_usageNumber _ _ _ _) fun _ => ?_
  split
  · exact steady_pure ()
  · refine steady_bind (steady_except _) fun tokens => ?_
    refine steady_bind (steady_forM fun key => steady_usageNumber _ _ _ _) fun _ => ?_
    split
    · exact steady_pure ()
    · exact steady_bind (steady_except _) fun cache => steady_forM fun key => steady_usageNumber _ _ _ _

theorem steady_validAttachments (sessionId messageId : Text) : ∀ (attachments : List Data) (seen : List Text),
    Steady (validAttachments sessionId messageId seen attachments)
  | [], _ => steady_pure []
  | attachment :: rest, seen => by
    have hskip : ∀ seen', Steady (do
        noting fun d => d.exclude "invalid_file_part" 1
        validAttachments sessionId messageId seen' rest) :=
      fun seen' => steady_bind (steady_modify _) fun _ => steady_validAttachments sessionId messageId rest seen'
    unfold validAttachments
    split
    · exact hskip _
    · split
      · exact hskip _
      · split
        · exact hskip _
        · split
          · exact hskip _
          · exact steady_bind (steady_validAttachments sessionId messageId rest _) fun valid => steady_pure _

/-! ## Marks -/

section Marks

variable {Body : Type}

/-- What tells an entry from another, whatever it hangs off. -/
structure Mark where
  externalId : Text
  role : MessageRole
  timestampMs : Int
  kindTag : String

/-- The mark of an entry. -/
def markOf (e : CanonicalEntry Body) : Mark := ⟨e.externalId, e.role, e.timestampMs, e.kindTag⟩

/-- The marks of the kinds that are included, and how many are not. -/
def included (includeTypes : List String) (marks : List Mark) : List Mark × Nat :=
  (marks.filter fun m => m.kindTag ∈ includeTypes, marks.countP fun m => m.kindTag ∉ includeTypes)

/-- The loop went on with these marks. -/
def Includes (includeTypes : List String) (s : Emission Body) (marks : List Mark) (s' : Emission Body) : Prop :=
  s'.entries.map markOf = s.entries.map markOf ++ (included includeTypes marks).1 ∧
    s'.filtered = s.filtered + (included includeTypes marks).2

theorem includes_nil (includeTypes : List String) {s s' : Emission Body} (he : s'.entries = s.entries)
    (hf : s'.filtered = s.filtered) : Includes includeTypes s [] s' := by
  simp [Includes, included, he, hf]

theorem Includes.append {includeTypes : List String} {s s' s'' : Emission Body} {marks marks' : List Mark}
    (h : Includes includeTypes s marks s') (h' : Includes includeTypes s' marks' s'') :
    Includes includeTypes s (marks ++ marks') s'' := by
  obtain ⟨he, hf⟩ := h
  obtain ⟨he', hf'⟩ := h'
  refine ⟨?_, ?_⟩
  · rw [he', he]
    simp [included]
  · rw [hf', hf]
    simp only [included, List.countP_append]
    omega

/-- The marks of many rows, one after the other. -/
def marksOf {α : Type} (marks : α → Except String (List Mark)) (rows : List α) : Except String (List Mark) :=
  List.flatten <$> rows.mapM marks

/-- A step fails as its marks do, and otherwise goes on with them. -/
def Tells {σ : Type} (adds : List Mark → σ → Prop) (x : Except String σ) (marks : Except String (List Mark)) : Prop :=
  (∃ e, x = .error e ∧ marks = .error e) ∨ ∃ s ms, x = .ok s ∧ marks = .ok ms ∧ adds ms s

theorem Tells.mono {σ : Type} {adds adds' : List Mark → σ → Prop} {x : Except String σ}
    {marks : Except String (List Mark)} (h : Tells adds x marks) (hadds : ∀ ms s, adds ms s → adds' ms s) :
    Tells adds' x marks := by
  rcases h with h | ⟨s, ms, hx, hms, hadd⟩
  · exact .inl h
  · exact .inr ⟨s, ms, hx, hms, hadds ms s hadd⟩

/-- The same failing step comes first. -/
theorem Tells.after {α σ : Type} {adds : List Mark → σ → Prop} {x : Except String α} {f : α → Except String σ}
    {g : α → Except String (List Mark)} (h : ∀ a, Tells adds (f a) (g a)) : Tells adds (x >>= f) (x >>= g) := by
  cases x with
  | error e => exact .inl ⟨e, rfl, rfl⟩
  | ok a => exact h a

theorem marksOf_cons {α : Type} (marks : α → Except String (List Mark)) (a : α) (rows : List α) :
    marksOf marks (a :: rows) = do return (← marks a) ++ (← marksOf marks rows) := by
  unfold marksOf
  rw [List.mapM_cons]
  cases marks a with
  | error e => rfl
  | ok ms =>
    cases rows.mapM marks with
    | error e => rfl
    | ok mss => rfl

/-- A loop goes on with the marks of its rows. -/
theorem tells_foldlM {α σ : Type} (adds : σ → List Mark → σ → Prop) (hnil : ∀ s, adds s [] s)
    (happend : ∀ s s' s'' ms ms', adds s ms s' → adds s' ms' s'' → adds s (ms ++ ms') s'')
    {step : σ → α → Except String σ} {marks : α → Except String (List Mark)}
    (hstep : ∀ s a, Tells (adds s) (step s a) (marks a)) :
    ∀ (rows : List α) (s : σ), Tells (adds s) (rows.foldlM step s) (marksOf marks rows)
  | [], s => .inr ⟨s, [], rfl, rfl, hnil s⟩
  | a :: rows, s => by
    rw [List.foldlM_cons, marksOf_cons]
    rcases hstep s a with ⟨e, hx, hms⟩ | ⟨s', ms, hx, hms, hadd⟩
    · exact .inl ⟨e, by rw [hx]; rfl, by rw [hms]; rfl⟩
    · rw [hx, hms]
      rcases tells_foldlM adds hnil happend hstep rows s' with ⟨e, hx', hms'⟩ | ⟨s'', ms', hx', hms', hadd'⟩
      · exact .inl ⟨e, hx', by rw [hms']; rfl⟩
      · exact .inr ⟨s'', ms ++ ms', hx', by rw [hms']; rfl, happend _ _ _ _ _ hadd hadd'⟩

/-- What is collected from rows is collected from one of them, and each of them succeeds. -/
theorem mem_marksOf {α : Type} {marks : α → Except String (List Mark)} : ∀ {rows : List α} {ms : List Mark},
    marksOf marks rows = .ok ms →
      (∀ a ∈ rows, ∃ ns, marks a = .ok ns) ∧ ∀ m, m ∈ ms ↔ ∃ a ∈ rows, ∃ ns, marks a = .ok ns ∧ m ∈ ns
  | [], ms, h => by
    obtain rfl : [] = ms := Except.ok.inj h
    simp
  | a :: rows, ms, h => by
    rw [marksOf_cons, Except.bind_eq_ok] at h
    obtain ⟨ns, hns, h⟩ := h
    rw [Except.bind_eq_ok] at h
    obtain ⟨rest, hrest, h⟩ := h
    obtain rfl : ns ++ rest = ms := Except.ok.inj h
    obtain ⟨hall, hmem⟩ := mem_marksOf hrest
    refine ⟨?_, fun m => ?_⟩
    · intro b hb
      rcases List.mem_cons.1 hb with rfl | hb
      · exact ⟨ns, hns⟩
      · exact hall b hb
    · rw [List.mem_append, hmem]
      simp [hns]

end Marks

/-! ## Ids -/

theorem Acceptable.session_colon {session : Session} {messages : List MessageRow} {parts : List PartRow}
    (h : Acceptable session messages parts) : ':' ∉ session.row.id := by
  have hchecked := h.checked
  unfold checkSession at hchecked
  rw [Except.bind_eq_ok] at hchecked
  obtain ⟨_, hid, -⟩ := hchecked
  exact colon_not_mem (validateId_ok.1 hid)

/-- A base names its session. -/
theorem session_of_under {sid sid' m m' p p' id : Text} (hs : ':' ∉ sid) (hs' : ':' ∉ sid')
    (h : Under (partBase sid m p) id) (h' : Under (partBase sid' m' p') id) : sid = sid' := by
  have hmsg : ":msg:".toList = ':' :: "msg:".toList := by decide
  obtain ⟨tail, rfl, -⟩ := under_tail h
  obtain ⟨tail', heq, -⟩ := under_tail h'
  unfold partBase at heq
  simp only [List.append_assoc, List.append_cancel_left_eq, hmsg, List.cons_append] at heq
  exact (Netstring.before_colon hs hs' heq).1

/-! ## An example -/

/-- The rows of the example of a user message that names a parent, read as they are stored. -/
def readNamed : Option (Except String (Import Unit)) :=
  @normalizeSession Unit noBase64 bare ⟨asStored, asStored, asStored, asStored⟩ 3
    ⟨⟨"ses_a".toList, 1, 1, none, none⟩, none⟩ named namedParts ["user"]

/-- They give two entries. -/
theorem readNamed_ok : ∃ result, readNamed = some (.ok result) ∧ result.entries.length = 2 := by
  have hrun : (readNamed.map fun r => r.toOption.map fun result => result.entries.length) = some (some 2) := by
    decide +kernel
  rcases h : readNamed with _ | e | result
  · rw [h] at hrun
    cases hrun
  · rw [h] at hrun
    cases hrun
  · rw [h] at hrun
    exact ⟨result, rfl, by simpa [Except.toOption] using hrun⟩

section Rendered

variable {Body : Type} [Rendering Body]

theorem emitEntry_includes (parents : KeyMap Text Text) (includeTypes : List String) (message : MessageRow)
    (s : Emission Body) (previous : Option Text) (e : CanonicalEntry Body) :
    Includes includeTypes s [markOf e] (emitEntry parents includeTypes message (s, previous) e).1 := by
  have hwarn : (s.warnParent message.id).filtered = s.filtered := by
    unfold Emission.warnParent
    split <;> rfl
  unfold Includes included emitEntry
  by_cases hkind : e.kindTag ∈ includeTypes
  · simp only [hkind, not_true_eq_false, if_false]
    split
    · simp [markOf, hkind, hwarn, (warnParent_frame s message.id).1]
    · simp [markOf, hkind]
  · simp [markOf, hkind]

theorem emitProduced_includes (parents : KeyMap Text Text) (includeTypes : List String) (message : MessageRow) :
    ∀ (produced : List (CanonicalEntry Body)) (s : Emission Body × Option Text),
      Includes includeTypes s.1 (produced.map markOf)
        (produced.foldl (emitEntry parents includeTypes message) s).1
  | [], _ => includes_nil includeTypes rfl rfl
  | e :: produced, s => (emitEntry_includes parents includeTypes message s.1 s.2 e).append
      (emitProduced_includes parents includeTypes message produced _)

variable [Base64]

theorem steady_attachmentEntries (common : Common) (outputId : Text) (timestamp : Int) (valid : List (Text × Fields)) :
    Steady (attachmentEntries common outputId timestamp valid) := by
  induction valid with
  | nil => exact steady_pure []
  | cons file rest ih =>
    unfold attachmentEntries
    split
    · exact steady_bind (steady_modify _) fun _ => steady_bind ih fun more => steady_pure _
    · exact steady_bind (steady_modify _) fun _ => ih

theorem steady_outputFiles (common : Common) (outputId : Text) (timestamp : Int) (state : Fields) :
    Steady (outputFiles common outputId timestamp state) := by
  unfold outputFiles
  split
  · exact steady_pure []
  · exact steady_bind (steady_validAttachments _ _ _ _) fun valid => steady_attachmentEntries _ _ _ _

theorem steady_normalizeToolPart (base : Text) (data : Fields) (common : Common) :
    Steady (normalizeToolPart base data common) := by
  unfold normalizeToolPart
  refine steady_bind (steady_except _) fun state => steady_bind (steady_except _) fun state =>
    steady_bind (steady_except _) fun status => ?_
  split
  · exact steady_pure []
  refine steady_bind (steady_discard (steady_except _)) fun _ =>
    steady_bind (steady_discard (steady_except _)) fun _ => ?_
  split
  · exact steady_pure []
  refine steady_bind (steady_except _) fun time => steady_bind (steady_except _) fun callTimestamp =>
    steady_bind (steady_except _) fun outputTimestamp => steady_bind (steady_except _) fun _ =>
    steady_bind (steady_except _) fun output => ?_
  dsimp only
  split
  · exact steady_pure _
  · exact steady_bind (steady_outputFiles _ _ _ _) fun files => steady_pure _

/-- **What a part is cut into does not depend on what is noted before it.** -/
theorem steady_normalizePart (sessionId : Text) (message : MessageRow) (part : PartRow) (role : Text) :
    Steady (normalizePart sessionId message part role) := by
  unfold normalizePart
  refine steady_bind (steady_except _) fun _ => steady_bind (steady_except _) fun data =>
    steady_bind (steady_except _) fun kind => steady_bind (steady_except _) fun _ =>
    steady_bind (steady_except _) fun messageData => steady_bind (steady_except _) fun _ =>
    steady_bind (steady_discard (steady_except _)) fun _ => steady_bind (steady_except _) fun _ =>
    steady_bind ?_ fun _ => ?_
  · unfold assistantChecks
    split
    · exact steady_bind (steady_normalizeUsage _ _) fun _ => steady_except _
    · exact steady_pure ()
  dsimp only
  split
  · exact steady_except _
  split
  · unfold toolPart
    refine steady_bind (steady_except _) fun _ => steady_bind (steady_except _) fun _ =>
      steady_bind (steady_except _) fun _ => ?_
    split
    · exact steady_pure []
    · exact steady_normalizeToolPart _ _ _
  split
  · unfold filePart
    exact steady_bind (steady_except _) fun _ => steady_bind (steady_except _) fun _ =>
      steady_bind (steady_modify _) fun _ => steady_pure _
  split
  · exact steady_except _
  · exact steady_pure []

/-! ## What the rows say -/

/-- What a part is cut into, its kinds all included. -/
def partMarks (sessionId role : Text) (message : MessageRow) (part : PartRow) : Except String (List Mark) :=
  match ((normalizePart sessionId message part role).run.run .start).1 with
  | .error e => if partType part = "file".toList ∧ isAttachmentError e then .ok [] else .error e
  | .ok produced => .ok (produced.map markOf)

/-- What a part is cut into goes by its base, and no two by one id. -/
theorem partMarks_ids {sessionId role : Text} {message : MessageRow} {part : PartRow} {ns : List Mark}
    (h : partMarks sessionId role message part = .ok ns) :
    (∀ m ∈ ns, Under (partBase sessionId message.id part.id) m.externalId) ∧ (ns.map Mark.externalId).Nodup := by
  unfold partMarks at h
  split at h
  · split at h
    · obtain rfl := Except.ok.inj h
      exact ⟨fun m hm => absurd hm List.not_mem_nil, .nil⟩
    · cases h
  next produced heq =>
    obtain rfl := Except.ok.inj h
    have hgives := gives_normalizePart sessionId message part role .start produced _ (Prod.ext heq rfl)
    refine ⟨fun m hm => ?_, ?_⟩
    · obtain ⟨e, he, rfl⟩ := List.mem_map.1 hm
      exact hgives.under e he
    · rw [List.map_map]
      exact hgives.nodup

/-- What the parts of a message are cut into. -/
def messageMarks (sessionId : Text) (parts : List PartRow) (message : MessageRow) : Except String (List Mark) := do
  let data ← object message.data "message.data"
  let role ← nonEmptyString (data.lookup "role") "message.role"
  if role ≠ "user".toList ∧ role ≠ "assistant".toList then pure []
  else do
    let incomplete ← isIncomplete role data
    if incomplete then pure []
    else marksOf (partMarks sessionId role message) (sortParts (parts.filter fun part => part.messageId = message.id))

/-! ## The loops -/

/-- **A part goes on with what it is cut into**, whatever was noted before. -/
theorem emitPart_tells (sessionId : Text) (parents : KeyMap Text Text) (includeTypes : List String)
    (message : MessageRow) (role : Text) (s : Emission Body × Option Text) (part : PartRow) :
    Tells (fun ms s' => Includes includeTypes s.1 ms s'.1)
      (emitPart sessionId parents includeTypes message role s part) (partMarks sessionId role message part) := by
  have hsteady := steady_normalizePart sessionId message part role .start
    (s.1.noted.note (noteCompacted part (partType part)))
  unfold emitPart partMarks
  rw [hsteady]
  dsimp only
  generalize (normalizePart sessionId message part role).run.run _ = run
  obtain ⟨r, noted⟩ := run
  cases r with
  | error e =>
    dsimp only
    split
    · exact .inr ⟨_, _, rfl, rfl, includes_nil includeTypes rfl rfl⟩
    · exact .inl ⟨e, rfl, rfl⟩
  | ok produced => exact .inr ⟨_, _, rfl, rfl, emitProduced_includes parents includeTypes message produced _⟩

theorem emitMessage_tells {messages : List MessageRow} {parts : List PartRow} {p : Prepared}
    (hp : Prepares messages parts p) (sessionId : Text) (includeTypes : List String) (s : Emission Body)
    (message : MessageRow) :
    Tells (Includes includeTypes s) (emitMessage sessionId p includeTypes s message)
      (messageMarks sessionId parts message) := by
  unfold emitMessage messageMarks
  rw [hp.partsOf]
  refine Tells.after fun data => Tells.after fun role => ?_
  split
  · exact .inr ⟨_, _, rfl, rfl, includes_nil includeTypes rfl rfl⟩
  refine Tells.after fun incomplete => ?_
  split
  · exact .inr ⟨_, _, rfl, rfl, includes_nil includeTypes rfl rfl⟩
  have hloop := tells_foldlM (fun s ms s' => Includes includeTypes s.1 ms s'.1)
    (fun s => includes_nil includeTypes rfl rfl)
    (fun s s' s'' ms ms' (h : Includes includeTypes s.1 ms s'.1) (h' : Includes includeTypes s'.1 ms' s''.1) =>
      h.append h')
    (emitPart_tells sessionId p.parentMessages includeTypes message role)
    (sortParts (parts.filter fun part => part.messageId = message.id)) (s, none)
  rcases hloop with ⟨e, hx, hms⟩ | ⟨s', ms, hx, hms, hadd⟩
  · exact .inl ⟨e, by rw [hx]; rfl, hms⟩
  · exact .inr ⟨s'.1, ms, by rw [hx]; rfl, hms, hadd⟩

/-- **The whole loop goes on with the marks of the messages.** -/
theorem emitMessages_tells {messages : List MessageRow} {parts : List PartRow} {p : Prepared}
    (hp : Prepares messages parts p) (sessionId : Text) (includeTypes : List String) (ordered : List MessageRow) :
    Tells (fun ms (result : Import Body) =>
        (result.entries.map markOf, result.sourceFilteredCount) = included includeTypes ms)
      (emitMessages sessionId p includeTypes ordered) (marksOf (messageMarks sessionId parts) ordered) := by
  have hnumbered : ∀ entries : List (CanonicalEntry Body), (numbered entries).map markOf = entries.map markOf :=
    fun entries => List.ext_getElem? fun i => by
      simp only [numbered, List.getElem?_map, List.getElem?_mapIdx, Option.map_map]
      rfl
  unfold emitMessages
  rcases tells_foldlM (Includes includeTypes) (fun s => includes_nil includeTypes rfl rfl)
      (fun _ _ _ _ _ h h' => h.append h') (emitMessage_tells hp sessionId includeTypes) ordered
      ⟨[], 0, .start, [], [], ∅⟩ with ⟨e, hx, hms⟩ | ⟨s', ms, hx, hms, he, hf⟩
  · exact .inl ⟨e, by rw [hx]; rfl, hms⟩
  · refine .inr ⟨_, ms, by rw [hx]; rfl, hms, ?_⟩
    dsimp only
    rw [hnumbered, he, hf]
    simp

/-! ## Other settings, other rows -/

/-- **The kinds that are imported are picked from the same entries.** Whether a session can be read does not depend
on them, and neither does an entry's place among the others, its id, role or time. -/
theorem normalizeSession_narrows (session : Session) (messages : List MessageRow) (parts : List PartRow) :
    ∃ all : Option (List Mark), ∀ (orders : Orders), ∀ steps > messages.length, ∀ includeTypes : List String,
      ∃ r : Except String (Import Body),
        normalizeSession orders steps session messages parts includeTypes = some r ∧
        r.toOption.map (fun result => (result.entries.map markOf, result.sourceFilteredCount)) =
          all.map (included includeTypes) := by
  by_cases hex : Acceptable session messages parts ∧
      ∃ ordered, EarliestReady (parentRow messages) readyBefore messages ordered
  · obtain ⟨haccept, ordered, hordered⟩ := hex
    refine ⟨(marksOf (messageMarks session.row.id parts) ordered).toOption,
      fun orders steps hsteps includeTypes => ?_⟩
    obtain ⟨p, hp⟩ := (prepare_or orders session messages parts).resolve_right fun hbad => hbad.1 haccept
    obtain ⟨r, hr, hrun, -⟩ := normalizeSession_spec orders includeTypes hsteps hp
    refine ⟨r, hr, ?_⟩
    rw [hrun ordered hordered]
    rcases emitMessages_tells (prepares hp) session.row.id includeTypes ordered with
      ⟨e, hx, hms⟩ | ⟨s, ms, hx, hms, hs⟩
    · rw [hx, hms]
      rfl
    · rw [hx, hms]
      exact congrArg some hs
  · refine ⟨none, fun orders steps hsteps includeTypes => ?_⟩
    rcases prepare_or orders session messages parts with ⟨p, hp⟩ | ⟨-, e, he⟩
    · obtain ⟨r, hr, -, hfail⟩ := normalizeSession_spec orders includeTypes hsteps hp
      obtain ⟨e, rfl⟩ := hfail.resolve_right fun hordered => hex ⟨(prepare_ok.1 hp).1, hordered⟩
      exact ⟨_, hr, rfl⟩
    · exact ⟨_, normalizeSession_error he, rfl⟩

/-- The rows that an entry comes from. -/
structure CutFrom (sessionId : Text) (messages : List MessageRow) (parts : List PartRow) (message : MessageRow)
    (part : PartRow) (m : Mark) : Prop where
  message_mem : message ∈ messages
  part_mem : part ∈ parts
  owner : part.messageId = message.id
  role : ∃ data role, message.data = .object data ∧ nonEmptyString (data.lookup "role") "message.role" = .ok role ∧
    (role = "user".toList ∨ role = "assistant".toList) ∧ isIncomplete role data = .ok false ∧
    ∃ ns, partMarks sessionId role message part = .ok ns ∧ m ∈ ns

/-- A message has one role. -/
theorem CutFrom.of_role {sessionId : Text} {messages : List MessageRow} {parts : List PartRow} {message : MessageRow}
    {part : PartRow} {m : Mark} (h : CutFrom sessionId messages parts message part m) {data : Fields} {role : Text}
    (hdata : message.data = .object data) (hrole : nonEmptyString (data.lookup "role") "message.role" = .ok role) :
    (role = "user".toList ∨ role = "assistant".toList) ∧ isIncomplete role data = .ok false ∧
      ∃ ns, partMarks sessionId role message part = .ok ns ∧ m ∈ ns := by
  obtain ⟨data', role', hdata', hrole', hcut⟩ := h.role
  obtain rfl : data = data' := by
    rw [hdata] at hdata'
    exact Data.object.inj hdata'
  obtain rfl : role = role' := Except.ok.inj (hrole.symm.trans hrole')
  exact hcut

/-- A mark of a message is cut from one of its parts, and every part of a message is cut. -/
theorem mem_messageMarks {sessionId : Text} {messages : List MessageRow} {parts : List PartRow} {message : MessageRow}
    {ms : List Mark} (hmessage : message ∈ messages) (h : messageMarks sessionId parts message = .ok ms) (m : Mark) :
    m ∈ ms ↔ ∃ part, CutFrom sessionId messages parts message part m := by
  unfold messageMarks at h
  rw [Except.bind_eq_ok] at h
  obtain ⟨data, hdata, h⟩ := h
  rw [object_ok] at hdata
  rw [Except.bind_eq_ok] at h
  obtain ⟨role, hrole, h⟩ := h
  split at h
  next hother =>
    obtain rfl : [] = ms := Except.ok.inj h
    refine ⟨fun hm => absurd hm List.not_mem_nil, fun hcut => ?_⟩
    obtain ⟨part, hcut⟩ := hcut
    exact absurd (hcut.of_role hdata hrole).1 (not_or.2 hother)
  next hknown =>
    rw [Except.bind_eq_ok] at h
    obtain ⟨incomplete, hincomplete, h⟩ := h
    split at h
    next hyes =>
      obtain rfl : [] = ms := Except.ok.inj h
      refine ⟨fun hm => absurd hm List.not_mem_nil, fun hcut => ?_⟩
      obtain ⟨part, hcut⟩ := hcut
      rw [hyes, (hcut.of_role hdata hrole).2.1] at hincomplete
      cases Except.ok.inj hincomplete
    next hno =>
      rw [(mem_marksOf h).2]
      simp only [sortParts, List.mem_insertionSort, List.mem_filter, decide_eq_true_eq]
      constructor
      · intro hm
        obtain ⟨part, ⟨hpart, howner⟩, ns, hns, hm⟩ := hm
        have hrole' : role = "user".toList ∨ role = "assistant".toList := by
          by_contra hother
          exact hknown (not_or.1 hother)
        rw [Bool.not_eq_true] at hno
        rw [hno] at hincomplete
        exact ⟨part, hmessage, hpart, howner, data, role, hdata, hrole, hrole', hincomplete, ns, hns, hm⟩
      · intro hcut
        obtain ⟨part, hcut⟩ := hcut
        exact ⟨part, ⟨hcut.part_mem, hcut.owner⟩, (hcut.of_role hdata hrole).2.2⟩

/-- **What is answered is cut from the rows**, one by one. -/
theorem normalizeSession_cut {session : Session} {messages : List MessageRow} {parts : List PartRow} {orders : Orders}
    {steps : Nat} {includeTypes : List String} {result : Import Body} (hsteps : messages.length < steps)
    (h : normalizeSession orders steps session messages parts includeTypes = some (.ok result)) :
    Acceptable session messages parts ∧ ∀ m : Mark, m ∈ result.entries.map markOf ↔
      m.kindTag ∈ includeTypes ∧ ∃ message part, CutFrom session.row.id messages parts message part m := by
  rcases prepare_or orders session messages parts with ⟨p, hp⟩ | ⟨-, e, he⟩
  swap
  · rw [normalizeSession_error he] at h
    cases h
  refine ⟨(prepare_ok.1 hp).1, fun m => ?_⟩
  obtain ⟨r, hr, hrun, hfail⟩ := normalizeSession_spec orders includeTypes hsteps hp
  obtain rfl := Option.some.inj (hr.symm.trans h)
  obtain ⟨ordered, hordered⟩ := hfail.resolve_left fun hbad => by
    obtain ⟨e, he⟩ := hbad
    cases he
  have hemit := hrun ordered hordered
  rcases emitMessages_tells (prepares hp) session.row.id includeTypes ordered with
    ⟨e, hx, -⟩ | ⟨s, ms, hx, hms, hs⟩
  · rw [hx] at hemit
    cases hemit
  rw [hx] at hemit
  obtain rfl := Except.ok.inj hemit
  obtain ⟨hall, hmem⟩ := mem_marksOf hms
  rw [(Prod.mk.inj hs).1, List.mem_filter, hmem, decide_eq_true_eq, and_comm]
  refine and_congr_right fun _ => ⟨fun hm => ?_, fun hm => ?_⟩
  · obtain ⟨message, hmessage, ns, hns, hm⟩ := hm
    obtain ⟨part, hcut⟩ := (mem_messageMarks (hordered.perm.mem_iff.1 hmessage) hns m).1 hm
    exact ⟨message, part, hcut⟩
  · obtain ⟨message, part, hcut⟩ := hm
    obtain ⟨ns, hns⟩ := hall message (hordered.perm.mem_iff.2 hcut.message_mem)
    exact ⟨message, hordered.perm.mem_iff.2 hcut.message_mem, ns, hns,
      (mem_messageMarks hcut.message_mem hns m).2 ⟨part, hcut⟩⟩

/-- An entry goes by the base of the part that it is cut from. -/
theorem CutFrom.under {sessionId : Text} {messages : List MessageRow} {parts : List PartRow} {message : MessageRow}
    {part : PartRow} {m : Mark} (h : CutFrom sessionId messages parts message part m) :
    Under (partBase sessionId message.id part.id) m.externalId := by
  obtain ⟨_, _, _, _, _, _, ns, hns, hm⟩ := h.role
  exact (partMarks_ids hns).1 m hm

/-- **A row that is still there gives the same entries**, whatever came or went around it and whichever kinds were
imported before. -/
theorem normalizeSession_keeps {session : Session} {messages : List MessageRow} {parts : List PartRow} {orders : Orders}
    {steps : Nat} {includeTypes : List String} {result : Import Body} (hsteps : messages.length < steps)
    (h : normalizeSession orders steps session messages parts includeTypes = some (.ok result)) :
    ∀ m ∈ result.entries.map markOf, ∃ message ∈ messages, ∃ part ∈ parts, part.messageId = message.id ∧
      Under (partBase session.row.id message.id part.id) m.externalId ∧
      ∀ (session' : Session) (messages' : List MessageRow) (parts' : List PartRow) (orders' : Orders)
        (steps' : Nat) (includeTypes' : List String) (result' : Import Body), session'.row.id = session.row.id →
        messages'.length < steps' →
        normalizeSession orders' steps' session' messages' parts' includeTypes' = some (.ok result') →
        message ∈ messages' → part ∈ parts' → m.kindTag ∈ includeTypes' → m ∈ result'.entries.map markOf := by
  intro m hm
  obtain ⟨-, message, part, hcut⟩ := ((normalizeSession_cut hsteps h).2 m).1 hm
  refine ⟨message, hcut.message_mem, part, hcut.part_mem, hcut.owner, hcut.under, ?_⟩
  intro session' messages' parts' orders' steps' includeTypes' result' hsame hsteps' h' hmessage hpart hkind
  refine ((normalizeSession_cut hsteps' h').2 m).2 ⟨hkind, message, part, hmessage, hpart, hcut.owner, ?_⟩
  rw [hsame]
  exact hcut.role

omit [Base64] in
/-- Each of the two entries is kept with its part. -/
theorem named_kept : ∃ result, readNamed = some (.ok result) ∧ result.entries.length = 2 ∧
    ∀ m ∈ result.entries.map markOf, ∃ part ∈ namedParts,
      Under (partBase "ses_a".toList part.messageId part.id) m.externalId := by
  obtain ⟨result, hresult, hlength⟩ := readNamed_ok
  refine ⟨result, hresult, hlength, fun m hm => ?_⟩
  obtain ⟨message, -, part, hpart, howner, hunder, -⟩ :=
    @normalizeSession_keeps Unit bare noBase64 _ _ _ _ _ _ _ (by decide) hresult m hm
  exact ⟨part, hpart, howner ▸ hunder⟩

/-- Of one part, no two entries have one id. -/
theorem CutFrom.inj {sessionId : Text} {messages messages' : List MessageRow} {parts parts' : List PartRow}
    {message : MessageRow} {part : PartRow} {m m' : Mark} (h : CutFrom sessionId messages parts message part m)
    (h' : CutFrom sessionId messages' parts' message part m') (hid : m.externalId = m'.externalId) : m = m' := by
  obtain ⟨data, role, hdata, hrole, -, -, ns, hns, hm⟩ := h.role
  obtain ⟨-, -, ns', hns', hm'⟩ := h'.of_role hdata hrole
  obtain rfl : ns = ns' := Except.ok.inj (hns.symm.trans hns')
  exact List.inj_on_of_nodup_map (partMarks_ids hns).2 hm hm' hid

end Rendered

end MemoryStore.AgentImport.OpenCode
