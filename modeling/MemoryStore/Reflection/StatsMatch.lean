/-
The derived statistics against a rebuild of them.

Finalize adds to the counts as it inserts, a rebuild counts the child rows, and
a deletion leaves the counts alone. So a count is to be what a rebuild would
count now and what deleted reflections had contributed since the last one. It
is `tool_contribution_stats` that can part from this: finalize counts every
entry of `tool_outcomes`, and the table keeps equal entries once.
-/
import MemoryStore.Reflection.Steps

namespace MemoryStore.Reflection

open Table

/-! ## Joins -/

section Joined

variable {ρ κ : Type} {owner : ρ → Nat} {key : IndexRow → ρ → κ}

/-- Joining a new sidecar row and its new child rows adds just them. -/
theorem joined_insert {index : List IndexRow} {child news : List ρ} {tri : IndexRow}
    (hindex : ∀ row ∈ index, row.memoryId ≠ tri.memoryId) (hchild : ∀ r ∈ child, owner r ≠ tri.memoryId)
    (hnews : ∀ r ∈ news, owner r = tri.memoryId) :
    joined owner key (index ++ [tri]) (child ++ news) =
      joined owner key index child ++ news.map fun r => (key tri r, tri.createdAt) := by
  have hown : (child ++ news).filter (fun r => owner r = tri.memoryId) = news := by
    rw [List.filter_append, List.filter_eq_nil_iff.2 fun r hr => by simpa using hchild r hr,
      List.filter_eq_self.2 fun r hr => by simpa using hnews r hr, List.nil_append]
  unfold joined
  rw [List.flatMap_append, List.flatMap_singleton, hown]
  congr 1
  refine List.flatMap_congr fun row hrow => ?_
  have hnone : news.filter (fun r => owner r = row.memoryId) = [] := by
    refine List.filter_eq_nil_iff.2 fun r hr => ?_
    have := hindex row hrow
    simp [hnews r hr, Ne.symm this]
  rw [List.filter_append, hnone, List.append_nil]

/-- Taking the rows of a memory away takes its joined rows from the counts. -/
theorem count_joined_delete [DecidableEq κ] (memoryId : Nat) (child : List ρ) (k : κ) : ∀ index : List IndexRow,
    ((joined owner key index child).map Prod.fst).count k =
      ((joined owner key (index.filter fun row => row.memoryId ≠ memoryId)
        (child.filter fun r => owner r ≠ memoryId)).map Prod.fst).count k +
      ((joined owner key (index.filter fun row => row.memoryId = memoryId) child).map Prod.fst).count k
  | [] => rfl
  | row :: index => by
    have ih := count_joined_delete memoryId child k index
    have hcons : ∀ (row : IndexRow) (index : List IndexRow) (child : List ρ),
        ((joined owner key (row :: index) child).map Prod.fst).count k =
          ((joined owner key [row] child).map Prod.fst).count k +
            ((joined owner key index child).map Prod.fst).count k := by
      intro row index child
      rw [← List.count_append, ← List.map_append]
      unfold joined
      rw [List.flatMap_cons, List.flatMap_singleton]
    rw [hcons, ih]
    by_cases hrow : row.memoryId = memoryId
    · rw [List.filter_cons_of_neg (by simpa using hrow), List.filter_cons_of_pos (by simpa using hrow), hcons row
        (index.filter fun row => row.memoryId = memoryId)]
      omega
    · have hsame : joined owner key [row] (child.filter fun r => owner r ≠ memoryId) = joined owner key [row] child := by
        unfold joined
        rw [List.flatMap_singleton, List.flatMap_singleton, List.filter_filter]
        congr 1
        refine List.filter_congr fun r _ => ?_
        by_cases hr : owner r = row.memoryId
        · simp [hr, hrow]
        · simp [hr]
      rw [List.filter_cons_of_pos (by simpa using hrow), List.filter_cons_of_neg (by simpa using hrow), hcons row _
        (child.filter fun r => owner r ≠ memoryId), hsame]
      omega

end Joined

/-! ## One reflection -/

section Counts

variable {req : ValidRequest} {userId : Int} {memoryId : Nat}

/-- The tool rows of a new reflection. -/
def ValidRequest.newTools (req : ValidRequest) (memoryId : Nat) : List ToolRow :=
  insertAll id (req.namedTools.map (ToolRow.mk memoryId)) []

/-- The tool outcome rows of a new reflection. -/
def ValidRequest.newOutcomes (req : ValidRequest) (memoryId : Nat) : List ToolOutcomeRow :=
  insertAll id (req.outcomeRows memoryId) []

/-- Rows inserted each once, under keys that tell them apart. -/
theorem count_map_insertAll {α β : Type} [DecidableEq α] [DecidableEq β] {f : α → β} {news : List α}
    (hf : ∀ a ∈ news, ∀ b ∈ news, f a = f b → a = b) (k : β) :
    ((insertAll id news []).map f).count k = if k ∈ news.map f then 1 else 0 := by
  have hsub : ∀ a ∈ insertAll id news [], a ∈ news := fun a ha => by
    simpa using mem_insertAll news ha
  have hmem : k ∈ (insertAll id news []).map f ↔ k ∈ news.map f := by
    constructor
    · rintro hk
      obtain ⟨a, ha, rfl⟩ := List.mem_map.1 hk
      exact List.mem_map_of_mem (hsub a ha)
    · rintro hk
      obtain ⟨a, ha, rfl⟩ := List.mem_map.1 hk
      refine List.mem_map_of_mem ?_
      have : a ∈ (insertAll id news []).map id := key_mem_insertAll.2 (.inr (by simpa using ha))
      simpa using this
  have hnodup : ((insertAll id news []).map f).Nodup := by
    have : ((insertAll id news []).map id).Nodup := nodup_insertAll news List.nodup_nil
    rw [List.map_id] at this
    exact List.Nodup.map_on (fun a ha b hb he => hf a (hsub a ha) b (hsub b hb) he) this
  split
  · next h => exact List.count_eq_one_of_mem hnodup (hmem.2 h)
  · next h => exact List.count_eq_zero_of_not_mem (mt hmem.1 h)

theorem nodup_eraseDups : ∀ l : List String, l.eraseDups.Nodup
  | [] => List.nodup_nil
  | a :: l => by
    rw [List.eraseDups_cons, List.nodup_cons]
    refine ⟨fun h => ?_, nodup_eraseDups _⟩
    simpa using List.mem_eraseDups.1 h
  termination_by l => l.length
  decreasing_by exact Nat.lt_succ_of_le (List.length_filter_le _ _)

/-- **Tools are counted as they are stored**: each named one once. -/
theorem count_newTools (tri : IndexRow) (htri : tri.originUserId = userId ∧ tri.outcome = req.outcome)
    (k : ToolOutcomeKey) : ((req.newTools memoryId).map (toolOutcomeKey tri)).count k =
      (req.outcomeKeys userId).count k := by
  have hkeys : (req.namedTools.map (ToolRow.mk memoryId)).map (toolOutcomeKey tri) =
      req.namedTools.map fun tool => ⟨userId, tool, req.outcome⟩ := by
    rw [List.map_map]
    refine List.map_congr_left fun tool _ => ?_
    simp only [Function.comp_apply, toolOutcomeKey, htri.1, htri.2]
  have hnodup : (req.outcomeKeys userId).Nodup := by
    refine List.Nodup.map_on ?_ (nodup_eraseDups _)
    intro a _ b _ he
    exact congrArg ToolOutcomeKey.tool he
  unfold ValidRequest.newTools
  rw [count_map_insertAll, hkeys]
  · split
    · next h =>
      refine (List.count_eq_one_of_mem hnodup ?_).symm
      obtain ⟨tool, ht, rfl⟩ := List.mem_map.1 h
      exact List.mem_map.2 ⟨tool, List.mem_eraseDups.2 ht, rfl⟩
    · next h =>
      refine (List.count_eq_zero_of_not_mem fun hk => h ?_).symm
      obtain ⟨tool, ht, rfl⟩ := List.mem_map.1 hk
      exact List.mem_map.2 ⟨tool, List.mem_eraseDups.1 ht, rfl⟩
  · intro a ha b hb he
    obtain ⟨x, -, rfl⟩ := List.mem_map.1 ha
    obtain ⟨y, -, rfl⟩ := List.mem_map.1 hb
    exact congrArg (ToolRow.mk memoryId) (congrArg ToolOutcomeKey.tool he)

/-- Tool outcomes are stored once each, however often they are counted. -/
theorem count_newOutcomes (tri : IndexRow) (htri : tri.originUserId = userId) (k : ToolContributionKey) :
    ((req.newOutcomes memoryId).map (toolContributionKey tri)).count k =
      if k ∈ req.contributionKeys userId then 1 else 0 := by
  have hkeys : (req.outcomeRows memoryId).map (toolContributionKey tri) = req.contributionKeys userId := by
    unfold ValidRequest.outcomeRows ValidRequest.contributionKeys
    rw [List.map_map]
    refine List.map_congr_left fun e _ => ?_
    simp only [Function.comp_apply, toolContributionKey, ToolOutcomeEntry.contributionKey, htri]
  unfold ValidRequest.newOutcomes
  rw [count_map_insertAll, hkeys]
  intro a ha b hb he
  obtain ⟨x, -, rfl⟩ := List.mem_map.1 ha
  obtain ⟨y, -, rfl⟩ := List.mem_map.1 hb
  have h : _ ∧ _ ∧ _ ∧ _ := ToolContributionKey.mk.injEq .. ▸ he
  obtain ⟨-, ht, hc, hk⟩ := h
  rw [ToolOutcomeRow.mk.injEq]
  exact ⟨rfl, ht, hc, hk⟩

/-- No entry of `tool_outcomes` equals another in tool, contribution and error kind, none and the empty one being equal. -/
def ValidRequest.Distinct (req : ValidRequest) : Prop :=
  (req.toolOutcomes.map fun e => (e.tool, e.contribution, e.errorKind.getD "")).Nodup

instance ValidRequest.decidableDistinct (req : ValidRequest) : Decidable req.Distinct :=
  inferInstanceAs (Decidable (List.Nodup _))

theorem ValidRequest.distinct_iff : req.Distinct ↔ (req.contributionKeys userId).Nodup := by
  have hmap : req.contributionKeys userId =
      (req.toolOutcomes.map fun e => (e.tool, e.contribution, e.errorKind.getD "")).map fun t =>
        ⟨userId, t.1, t.2.1, t.2.2⟩ := by
    rw [List.map_map]
    rfl
  rw [hmap]
  refine (List.nodup_map_iff ?_).symm
  rintro ⟨a, b, c⟩ ⟨a', b', c'⟩ he
  have h : _ ∧ _ ∧ _ ∧ _ := ToolContributionKey.mk.injEq .. ▸ he
  obtain ⟨-, rfl, rfl, rfl⟩ := h
  rfl

/-- Entries are counted as they are stored exactly when none is repeated. -/
theorem ValidRequest.distinct_iff_count : req.Distinct ↔
    ∀ k, (req.contributionKeys userId).count k = if k ∈ req.contributionKeys userId then 1 else 0 := by
  rw [@ValidRequest.distinct_iff req userId]
  constructor
  · intro h k
    split
    · next hk => exact List.count_eq_one_of_mem h hk
    · next hk => exact List.count_eq_zero_of_not_mem hk
  · intro h
    refine List.nodup_iff_count_le_one.2 fun k => ?_
    rw [h k]
    split <;> omega

end Counts

/-! ## The statistics -/

/-- Every count is what a rebuild would count, and what the reflections deleted
since the last rebuild had contributed. -/
structure System.StatsMatch (sys : System) : Prop where
  outcomes : ∀ k, Counter.countOf sys.store.toolOutcomeStats k =
    (sys.store.toolOutcomeEntries.map Prod.fst).count k + sys.droppedOutcomes.count k
  contributions : ∀ k, Counter.countOf sys.store.toolContributionStats k =
    (sys.store.toolContributionEntries.map Prod.fst).count k + sys.droppedContributions.count k

/-- A step that inserts a reflection inserts one without repeated tool outcomes. -/
def System.Recounts [Settings] (sys : System) (a : Action) : Prop := ∀ call ∈ sys.inserting a, call.request.Distinct

instance System.decidableRecounts [Settings] (sys : System) (a : Action) : Decidable (sys.Recounts a) :=
  inferInstanceAs (Decidable (∀ call ∈ sys.inserting a, call.request.Distinct))

/-- With nothing deleted since, a rebuild changes no count. -/
def System.RebuildKeeps (sys : System) : Prop := ∀ user : Option Int,
  (sys.droppedOutcomes = [] → ∀ k, Counter.countOf (sys.store.rebuildToolOutcomeStats user).toolOutcomeStats k =
    Counter.countOf sys.store.toolOutcomeStats k) ∧
  (sys.droppedContributions = [] → ∀ k,
    Counter.countOf (sys.store.rebuildToolContributionStats user).toolContributionStats k =
      Counter.countOf sys.store.toolContributionStats k)

section Steps

variable {sys : System}

theorem toolOutcomeEntries_reflected {s : Store} (hs : s.Below) (req : ValidRequest) (p : PhaseOne)
    (threadId : Nat) (calledAt now : Int) (k : ToolOutcomeKey) :
    ((s.reflected req p threadId calledAt now).toolOutcomeEntries.map Prod.fst).count k =
      (s.toolOutcomeEntries.map Prod.fst).count k + (req.outcomeKeys p.originUserId).count k := by
  have hnews : ∀ r ∈ req.newTools s.conversation.nextId, r.memoryId = s.conversation.nextId := by
    intro r hr
    obtain ⟨_, -, rfl⟩ := List.mem_map.1 ((mem_insertAll _ hr).resolve_left List.not_mem_nil)
    rfl
  have htools : (s.reflected req p threadId calledAt now).tools = s.tools ++ req.newTools s.conversation.nextId := by
    have happend : insertAll id (req.namedTools.map (ToolRow.mk s.conversation.nextId)) (s.tools ++ []) =
        s.tools ++ req.newTools s.conversation.nextId := by
      refine insertAll_append fun a ha r hr he => ?_
      obtain ⟨_, -, rfl⟩ := List.mem_map.1 ha
      have hlt := hs.tools r hr
      rw [id_eq, id_eq] at he
      rw [he] at hlt
      exact absurd hlt (Nat.lt_irrefl _)
    rwa [List.append_nil] at happend
  have hindex : (s.reflected req p threadId calledAt now).index =
      s.index ++ [req.indexRow p threadId s.conversation.nextId now] := rfl
  unfold Store.toolOutcomeEntries
  rw [hindex, htools, joined_insert (fun row hrow => Nat.ne_of_lt (hs.index row hrow))
    (fun r hr => Nat.ne_of_lt (hs.tools r hr)) hnews, List.map_append, List.count_append, List.map_map]
  congr 1
  exact count_newTools (req.indexRow p threadId s.conversation.nextId now) ⟨rfl, rfl⟩ k

theorem toolContributionEntries_reflected {s : Store} (hs : s.Below) (req : ValidRequest) (p : PhaseOne)
    (threadId : Nat) (calledAt now : Int) (k : ToolContributionKey) :
    ((s.reflected req p threadId calledAt now).toolContributionEntries.map Prod.fst).count k =
      (s.toolContributionEntries.map Prod.fst).count k +
        if k ∈ req.contributionKeys p.originUserId then 1 else 0 := by
  have hnews : ∀ r ∈ req.newOutcomes s.conversation.nextId, r.memoryId = s.conversation.nextId := by
    intro r hr
    obtain ⟨_, -, rfl⟩ := List.mem_map.1 ((mem_insertAll _ hr).resolve_left List.not_mem_nil)
    rfl
  have houtcomes : (s.reflected req p threadId calledAt now).toolOutcomes =
      s.toolOutcomes ++ req.newOutcomes s.conversation.nextId := by
    have happend : insertAll id (req.outcomeRows s.conversation.nextId) (s.toolOutcomes ++ []) =
        s.toolOutcomes ++ req.newOutcomes s.conversation.nextId := by
      refine insertAll_append fun a ha r hr he => ?_
      obtain ⟨_, -, rfl⟩ := List.mem_map.1 ha
      have hlt := hs.toolOutcomes r hr
      rw [id_eq, id_eq] at he
      rw [he] at hlt
      exact absurd hlt (Nat.lt_irrefl _)
    rwa [List.append_nil] at happend
  have hindex : (s.reflected req p threadId calledAt now).index =
      s.index ++ [req.indexRow p threadId s.conversation.nextId now] := rfl
  unfold Store.toolContributionEntries
  rw [hindex, houtcomes, joined_insert (fun row hrow => Nat.ne_of_lt (hs.index row hrow))
    (fun r hr => Nat.ne_of_lt (hs.toolOutcomes r hr)) hnews, List.map_append, List.count_append, List.map_map]
  congr 1
  exact count_newOutcomes (req.indexRow p threadId s.conversation.nextId now) rfl k

/-- **Inserting a reflection** keeps the counts matched exactly if no entry is repeated. -/
theorem System.StatsMatch.reflected_iff (h : sys.StatsMatch) (hs : sys.store.Below) (req : ValidRequest) (p : PhaseOne)
    (threadId : Nat) (calledAt now : Int) (calls : List Call) (inserted : List Inserted) :
    System.StatsMatch { sys with store := sys.store.reflected req p threadId calledAt now, calls, inserted } ↔
      req.Distinct := by
  rw [@ValidRequest.distinct_iff_count req p.originUserId]
  constructor
  · intro h' k
    have hk := h'.contributions k
    have hadd : Counter.countOf (sys.store.reflected req p threadId calledAt now).toolContributionStats k =
        Counter.countOf sys.store.toolContributionStats k + (req.contributionKeys p.originUserId).count k :=
      Counter.countOf_upsertAll now k _ _
    rw [toolContributionEntries_reflected hs, hadd, h.contributions k] at hk
    dsimp only at hk
    omega
  · intro hd
    constructor
    · intro k
      have hadd : Counter.countOf (sys.store.reflected req p threadId calledAt now).toolOutcomeStats k =
          Counter.countOf sys.store.toolOutcomeStats k + (req.outcomeKeys p.originUserId).count k :=
        Counter.countOf_upsertAll now k _ _
      rw [toolOutcomeEntries_reflected hs, hadd, h.outcomes k]
      dsimp only
      omega
    · intro k
      have hadd : Counter.countOf (sys.store.reflected req p threadId calledAt now).toolContributionStats k =
          Counter.countOf sys.store.toolContributionStats k + (req.contributionKeys p.originUserId).count k :=
        Counter.countOf_upsertAll now k _ _
      rw [toolContributionEntries_reflected hs, hadd, h.contributions k, hd k]
      dsimp only
      omega

/-- Deleting a reflection moves its rows from the tables to the ledger. -/
theorem System.StatsMatch.deleted (h : sys.StatsMatch) (memoryId : Nat) (c : Conversation.Store) :
    System.StatsMatch
      { sys with
          store := sys.store.withoutReflection memoryId c
          deleted := sys.deleted ++ [memoryId]
          droppedOutcomes := sys.droppedOutcomes ++ sys.store.toolOutcomesOf memoryId
          droppedContributions := sys.droppedContributions ++ sys.store.toolContributionsOf memoryId } where
  outcomes k := by
    have hsplit := @count_joined_delete _ _ ToolRow.memoryId toolOutcomeKey _ memoryId sys.store.tools k
      sys.store.index
    have hk := h.outcomes k
    unfold Store.toolOutcomeEntries at hk
    rw [hsplit] at hk
    dsimp only
    rw [List.count_append]
    refine hk.trans ?_
    rw [Nat.add_assoc, Nat.add_comm (List.count k _) (List.count k sys.droppedOutcomes)]
    rfl
  contributions k := by
    have hsplit := @count_joined_delete _ _ ToolOutcomeRow.memoryId toolContributionKey _ memoryId
      sys.store.toolOutcomes k sys.store.index
    have hk := h.contributions k
    unfold Store.toolContributionEntries at hk
    rw [hsplit] at hk
    dsimp only
    rw [List.count_append]
    refine hk.trans ?_
    rw [Nat.add_assoc, Nat.add_comm (List.count k _) (List.count k sys.droppedContributions)]
    rfl

theorem count_filter_not {κ : Type} [DecidableEq κ] (scope : κ → Bool) (k : κ) (l : List κ) :
    (l.filter fun x => !scope x).count k = if scope k = true then 0 else l.count k := by
  split
  · next h =>
    refine List.count_eq_zero_of_not_mem fun hk => ?_
    simpa [h] using (List.mem_filter.1 hk).2
  · next h => exact List.count_filter (by simpa using h)

/-- A rebuild of one table, for one user or all, counts anew and clears its ledger. -/
theorem System.StatsMatch.rebuiltOutcomes (h : sys.StatsMatch) (user : Option Int) :
    System.StatsMatch
      { sys with
          store := sys.store.rebuildToolOutcomeStats user
          droppedOutcomes := sys.droppedOutcomes.filter fun k => !inScope user k.originUserId } where
  outcomes k := by
    have hrebuild := Counter.countOf_rebuild (fun k : ToolOutcomeKey => inScope user k.originUserId)
      sys.store.toolOutcomeEntries sys.store.toolOutcomeStats k
    have hledger := count_filter_not (fun k : ToolOutcomeKey => inScope user k.originUserId) k sys.droppedOutcomes
    refine hrebuild.trans ?_
    dsimp only
    rw [hledger]
    split
    · rfl
    · exact h.outcomes k
  contributions := h.contributions

theorem System.StatsMatch.rebuiltContributions (h : sys.StatsMatch) (user : Option Int) :
    System.StatsMatch
      { sys with
          store := sys.store.rebuildToolContributionStats user
          droppedContributions := sys.droppedContributions.filter fun k => !inScope user k.originUserId } where
  outcomes := h.outcomes
  contributions k := by
    have hrebuild := Counter.countOf_rebuild (fun k : ToolContributionKey => inScope user k.originUserId)
      sys.store.toolContributionEntries sys.store.toolContributionStats k
    have hledger := count_filter_not (fun k : ToolContributionKey => inScope user k.originUserId) k
      sys.droppedContributions
    refine hrebuild.trans ?_
    dsimp only
    rw [hledger]
    split
    · rfl
    · exact h.contributions k

/-- **One step** keeps the counts matched exactly if it inserts no repeated tool outcome. -/
theorem Action.exec_statsMatch_iff [Settings] (a : Action) (hs : sys.store.Below) (h : sys.StatsMatch) :
    (a.exec sys).StatsMatch ↔ sys.Recounts a := by
  cases a with
  | call req now =>
    refine iff_of_true ?_ fun _ hc => by cases hc
    simp only [Action.exec]
    split
    · exact ⟨h.outcomes, h.contributions⟩
    · exact h
  | advance i now =>
    simp only [Action.exec, System.Recounts, System.inserting]
    cases hc : sys.calls[i]? with
    | none => exact iff_of_true h fun _ hc => by cases hc
    | some call =>
      have hinserting : (∀ c ∈ (some call).filter (fun c => c.inserts sys.store), c.request.Distinct) ↔
          (call.inserts sys.store = true → call.request.Distinct) := by
        simp [Option.filter_some]
      show (sys.advance i call now).StatsMatch ↔ _
      rw [hinserting]
      have hadv := call.advance_spec now hs
      unfold System.advance
      generalize call.advance now sys.store = next at hadv ⊢
      cases hadv with
      | inserts p t n hstage hfound hfree =>
        rw [(call.inserts_iff hstage).2 ⟨hfound, hfree⟩]
        exact (h.reflected_iff hs _ _ _ _ _ _ _).trans ⟨fun hd _ => hd, fun hd => hd rfl⟩
      | aggregates p hstage _ =>
        refine iff_of_true ⟨h.outcomes, h.contributions⟩ fun hi => ?_
        unfold Call.inserts at hi
        rw [hstage] at hi
        cases hi
      | waits stage hw _ =>
        refine iff_of_true ⟨h.outcomes, h.contributions⟩ fun hi => ?_
        rw [hw] at hi
        cases hi
  | collide i =>
    refine iff_of_true ?_ fun _ hc => by cases hc
    simp only [Action.exec]
    split
    · split
      · exact ⟨h.outcomes, h.contributions⟩
      · exact h
    · exact h
  | drop i =>
    refine iff_of_true ?_ fun _ hc => by cases hc
    simp only [Action.exec]
    split
    · exact ⟨h.outcomes, h.contributions⟩
    · exact h
  | guardDelete memoryId =>
    refine iff_of_true ?_ fun _ hc => by cases hc
    simp only [Action.exec]
    split
    · exact ⟨h.outcomes, h.contributions⟩
    · exact h
  | delete memoryId now =>
    refine iff_of_true ?_ fun _ hc => by cases hc
    simp only [Action.exec]
    split
    · rcases sys.delete_cases memoryId now with hd | ⟨c, -, hd⟩
      · rw [hd]
        exact h
      · rw [hd]
        exact h.deleted memoryId c
    · exact h
  | rebuildToolOutcomeStats user => exact iff_of_true (h.rebuiltOutcomes user) fun _ hc => by cases hc
  | rebuildToolContributionStats user => exact iff_of_true (h.rebuiltContributions user) fun _ hc => by cases hc
  | remove removal now =>
    refine iff_of_true ?_ fun _ hc => by cases hc
    simp only [Action.exec]
    rw [onConversation_commit]
    exact ⟨h.outcomes, h.contributions⟩

theorem System.StatsMatch.rebuildKeeps (h : sys.StatsMatch) : sys.RebuildKeeps := by
  intro user
  constructor
  · intro hd k
    have ho := h.outcomes k
    have hr := (h.rebuiltOutcomes user).outcomes k
    simp only [hd, List.filter_nil, List.count_nil, Nat.add_zero] at ho hr
    exact hr.trans ho.symm
  · intro hd k
    have ho := h.contributions k
    have hr := (h.rebuiltContributions user).contributions k
    simp only [hd, List.filter_nil, List.count_nil, Nat.add_zero] at ho hr
    exact hr.trans ho.symm

end Steps

/-! ## Runs -/

/-- A deployment without reflections has no id in use that was not drawn. -/
theorem Store.below_fresh {c : Conversation.Store} (hc : c.Valid) : (Store.fresh c).Below where
  memories := hc.memoryId_lt
  threads := hc.threadId_lt
  attachments a ha := by
    obtain ⟨row, hrow⟩ := Option.isSome_iff_exists.1 (hc.attachedMemory a ha)
    have hid : row.id = a.memoryId := by simpa using List.find?_some hrow
    exact hid ▸ hc.memoryId_lt row (List.mem_of_find?_eq_some hrow)
  index _ h := absurd h List.not_mem_nil
  failureModes _ h := absurd h List.not_mem_nil
  tools _ h := absurd h List.not_mem_nil
  toolOutcomes _ h := absurd h List.not_mem_nil
  facts _ h := absurd h List.not_mem_nil

theorem System.statsMatch_start (c : Conversation.Store) : (System.start (.fresh c)).StatsMatch where
  outcomes _ := rfl
  contributions _ := rfl

/-- **The statistics match a rebuild throughout a run** of finalize calls,
deletions and rebuilds, however interleaved, exactly when every reflection it
inserts has pairwise distinct tool outcomes. -/
theorem statistics_match_iff [Settings] {c : Conversation.Store} (hc : c.Valid) (actions : List Action) :
    (∀ n, ((System.start (.fresh c)).after (actions.take n)).StatsMatch ∧
      ((System.start (.fresh c)).after (actions.take n)).RebuildKeeps) ↔
    Run.Allowed Action.exec System.Recounts actions (System.start (.fresh c)) := by
  have hrun : (∀ n, ((System.start (.fresh c)).after (actions.take n)).StatsMatch) ↔
      Run.Allowed Action.exec System.Recounts actions (System.start (.fresh c)) :=
    Run.throughout_iff (J := fun sys => sys.store.Below) (fun _ a hs => a.exec_below hs)
      (fun _ a hs h => a.exec_statsMatch_iff hs h) actions (Store.below_fresh hc) (System.statsMatch_start c)
  rw [← hrun]
  exact forall_congr' fun n => ⟨And.left, fun h => ⟨h, h.rebuildKeeps⟩⟩

section Scenarios

open Scenario

theorem oneThread_valid : oneThread.Valid := by
  constructor <;> simp [oneThread, UniqueWhere, Conversation.Store.findMemory, Conversation.Store.findThread]

/-- One reflection, a second one, the deletion of the first, and a rebuild. -/
def deletedAndRebuilt : List Action :=
  finalize 0 (request "a" [⟨"bash", 1, none⟩, ⟨"bash", 1, some "timeout"⟩]) 100 ++
    finalize 1 (request "b" [⟨"bash", 1, none⟩]) 200 ++
    [.guardDelete 3, .delete 3 300, .rebuildToolContributionStats (some 7)]

/-- The run keeps the statistics matched at every step. -/
theorem deletedAndRebuilt_match : (∀ n, (@System.after sqlite (System.start (.fresh oneThread))
      (deletedAndRebuilt.take n)).StatsMatch ∧
    (@System.after sqlite (System.start (.fresh oneThread)) (deletedAndRebuilt.take n)).RebuildKeeps) ∧
    (@System.after sqlite (System.start (.fresh oneThread)) deletedAndRebuilt).store.index.length = 1 := by
  refine ⟨(@statistics_match_iff sqlite oneThread oneThread_valid deletedAndRebuilt).2 ?_, ?_⟩
  · decide +kernel
  · decide +kernel

/-- A reflection that lists one tool outcome twice is counted twice and stored once. -/
def repeatedOutcome : List Action := finalize 0 (request "a" [⟨"bash", 1, none⟩, ⟨"bash", 1, some ""⟩]) 100

/-- **The claim fails**: after that one finalize a rebuild would change a count. -/
theorem repeated_outcome_drifts : ¬ ∀ (settings : Settings) (c : Conversation.Store), c.Valid →
    ∀ actions : List Action, (@System.after settings (System.start (.fresh c)) actions).StatsMatch := by
  intro h
  have hmatch := (h sqlite oneThread oneThread_valid repeatedOutcome).contributions ⟨7, "bash", 1, ""⟩
  revert hmatch
  decide +kernel

end Scenarios

end MemoryStore.Reflection
