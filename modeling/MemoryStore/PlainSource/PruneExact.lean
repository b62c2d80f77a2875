/-
What a prune deletes: exactly what is gone, as long as the file system answers for
the recorded paths what the tree holds.
-/
import MemoryStore.PlainSource.Prune

namespace MemoryStore.PlainSource

/-! ## What the file system answers -/

namespace Vault

variable {v : Vault} {elsewhere : Bytes → Bool}

/-- Something stands at a path: every directory above can be searched and the name resolves. -/
def Stands (v : Vault) (elsewhere : Bytes → Bool) (text : Text) : Prop :=
  match place? text with
  | some rel => v.searchable rel = true ∧ ∃ node, v.node rel = some node ∧
      (∀ resolves, node = .special resolves → resolves = true) ∧
      (wantsDir (Utf8.encode text) = true → node.isDir = true)
  | none => elsewhere (Utf8.encode text) = true

/-- The recorded file no longer exists, under the root or where its path leads outside it. -/
def Gone (v : Vault) (elsewhere : Bytes → Bool) (text : Text) : Prop :=
  ¬ v.OnDisk text ∧ (place? text = none → elsewhere (Utf8.encode text) = false)

theorem stat_eq_some {rel : RelPath} {node : Node} :
    v.stat rel = some node ↔
      v.searchable rel = true ∧ v.node rel = some node ∧ ∀ resolves, node = .special resolves → resolves = true := by
  simp only [stat]
  split
  · next hs =>
    split
    · next hn =>
      constructor
      · intro h
        cases h
      · rintro ⟨-, hnode, hr⟩
        rw [hn] at hnode
        cases hnode
        cases hr false rfl
    · next hn =>
      constructor
      · intro h
        refine ⟨hs, h, ?_⟩
        rintro resolves rfl
        cases resolves
        · exact absurd h hn
        · rfl
      · exact fun h => h.2.1
  · next hs => simp [hs]

/-- The probe says that something stands at the path. -/
theorem fsPathExists_iff {text : Text} : v.fsPathExists elsewhere text = true ↔ v.Stands elsewhere text := by
  simp only [fsPathExists, Stands]
  cases place? text with
  | some rel =>
    simp only
    split
    · next node hnode =>
      rw [stat_eq_some] at hnode
      obtain ⟨hs, hn, hr⟩ := hnode
      constructor
      · intro h
        refine ⟨hs, node, hn, hr, fun hw => ?_⟩
        simpa [hw] using h
      · rintro ⟨-, node', hn', -, hd⟩
        obtain rfl : node' = node := Option.some.inj (hn'.symm.trans hn)
        cases hw : wantsDir (Utf8.encode text)
        · simp
        · simp [hd hw]
    · next hnode =>
      constructor
      · intro h
        cases h
      · rintro ⟨hs, node, hn, hr, -⟩
        rw [stat_eq_some.mpr ⟨hs, hn, hr⟩] at hnode
        cases hnode
  | none => rfl

/-! ### Files that are found again -/

end Vault

/-! ## One prune -/

section
variable {rpc : Rpc}

theorem deleteCandidate_memories (p : PruneProgress) (cand : PruneCandidate) :
    (deleteCandidate rpc p cand).server.memories =
      p.server.memories.filter fun m => ¬ (cand.memoryId = m.id ∧ rpc.deleteMemory cand.memoryId ≠ .failed) := by
  simp only [deleteCandidate]
  split
  · next h =>
    simp only [Server.deleteMemory, h]
    exact List.filter_congr fun m _ => by simp [eq_comm]
  · next h => simp [h]
  · next h =>
    simp only [Server.deleteMemory, h]
    exact List.filter_congr fun m _ => by simp [eq_comm]

theorem deleteCandidate_threads (p : PruneProgress) (cand : PruneCandidate) :
    (deleteCandidate rpc p cand).server.threads = p.server.threads := by
  simp only [deleteCandidate]
  split <;> rfl

theorem deleteCandidate_touched {p : PruneProgress} {cand : PruneCandidate} {tid : ℕ}
    (h : tid ∈ (deleteCandidate rpc p cand).touchedThreads) :
    tid ∈ p.touchedThreads ∨ cand.threadId = some tid ∧ rpc.deleteMemory cand.memoryId = .ok := by
  simp only [deleteCandidate] at h
  split at h
  · next hok =>
    split at h
    · next t ht =>
      split at h
      · exact .inl h
      · rcases List.mem_append.mp h with h | h
        · exact .inl h
        · exact .inr ⟨by rw [ht, List.mem_singleton.mp h], hok⟩
    · exact .inl h
  · exact .inl h
  · exact .inl h

/-- The memories that a list of deletions leaves. -/
theorem deleteCandidates_memories : ∀ (cands : List PruneCandidate) (p : PruneProgress) {m : ServerMemory},
    m ∈ (cands.foldl (deleteCandidate rpc) p).server.memories ↔
      m ∈ p.server.memories ∧ ∀ c ∈ cands, c.memoryId = m.id → rpc.deleteMemory c.memoryId = .failed
  | [], p, m => by simp
  | cand :: cands, p, m => by
    rw [List.foldl_cons, deleteCandidates_memories cands, deleteCandidate_memories, List.mem_filter]
    simp only [List.mem_cons, forall_eq_or_imp, decide_eq_true_eq, not_and, not_not, ne_eq, and_assoc]

theorem deleteCandidates_threads : ∀ (cands : List PruneCandidate) (p : PruneProgress),
    (cands.foldl (deleteCandidate rpc) p).server.threads = p.server.threads
  | [], _ => rfl
  | cand :: cands, p => by
    rw [List.foldl_cons, deleteCandidates_threads cands, deleteCandidate_threads]

theorem deleteCandidates_touched : ∀ (cands : List PruneCandidate) (p : PruneProgress) {tid : ℕ},
    tid ∈ (cands.foldl (deleteCandidate rpc) p).touchedThreads →
      tid ∈ p.touchedThreads ∨ ∃ c ∈ cands, c.threadId = some tid ∧ rpc.deleteMemory c.memoryId = .ok
  | [], _, _, h => .inl h
  | cand :: cands, p, tid, h => by
    rw [List.foldl_cons] at h
    rcases deleteCandidates_touched cands _ h with h | ⟨c, hc, h⟩
    · rcases deleteCandidate_touched h with h | h
      · exact .inl h
      · exact .inr ⟨cand, List.mem_cons_self, h⟩
    · exact .inr ⟨c, List.mem_cons_of_mem _ hc, h⟩

theorem deleteOrphanThread_memories (p : PruneProgress) (tid : ℕ) :
    (deleteOrphanThread rpc p tid).server.memories = p.server.memories := by
  simp only [deleteOrphanThread]
  split
  · rfl
  · split
    · split <;> rfl
    · rfl

theorem deleteOrphanThread_threads {p : PruneProgress} {tid t : ℕ} (ht : t ∈ p.server.threads)
    (h : t ∉ (deleteOrphanThread rpc p tid).server.threads) :
    t = tid ∧ p.server.countMemoriesInThread tid = 0 := by
  have hgone : t ∉ (p.server.deleteThread tid).threads → t = tid := by
    intro h
    by_contra hne
    exact h (List.mem_filter.mpr ⟨ht, by simpa using hne⟩)
  simp only [deleteOrphanThread] at h
  split at h
  · exact absurd ht h
  · split at h
    · next hcount =>
      split at h
      · exact ⟨hgone h, hcount⟩
      · exact absurd ht h
      · exact ⟨hgone h, hcount⟩
    · exact absurd ht h

theorem count_eq_zero {s : Server} {tid : ℕ} :
    s.countMemoriesInThread tid = 0 ↔ ∀ m ∈ s.memories, tid ∉ m.threadIds := by
  simp [Server.countMemoriesInThread, List.filter_eq_nil_iff]

/-- The sweep of the touched threads keeps the memories, and only takes threads that hold none. -/
theorem deleteOrphanThreads_spec : ∀ (tids : List ℕ) (p : PruneProgress),
    (tids.foldl (deleteOrphanThread rpc) p).server.memories = p.server.memories ∧
      ∀ t ∈ p.server.threads, t ∉ (tids.foldl (deleteOrphanThread rpc) p).server.threads →
        t ∈ tids ∧ ∀ m ∈ p.server.memories, t ∉ m.threadIds
  | [], p => ⟨rfl, fun t ht h => absurd ht h⟩
  | tid :: tids, p => by
    obtain ⟨hmem, hthr⟩ := deleteOrphanThreads_spec tids (deleteOrphanThread rpc p tid)
    rw [deleteOrphanThread_memories] at hmem hthr
    refine ⟨hmem, fun t ht h => ?_⟩
    by_cases hnow : t ∈ (deleteOrphanThread rpc p tid).server.threads
    · obtain ⟨hin, hempty⟩ := hthr t hnow h
      exact ⟨List.mem_cons_of_mem _ hin, hempty⟩
    · obtain ⟨rfl, hcount⟩ := deleteOrphanThread_threads ht hnow
      exact ⟨List.mem_cons_self, count_eq_zero.mp hcount⟩

end

theorem mem_filterCandidates {dPath : List (List Component)} {pathExistsOnFs : Text → Bool} :
    ∀ {cands : List PruneCandidate} {c : PruneCandidate},
      c ∈ (filterCandidates dPath pathExistsOnFs cands).1 ↔
        c ∈ cands ∧ ∃ path, c.metadataPath = some path ∧ (pathOf path ∈ dPath ∨ pathExistsOnFs path = false)
  | [], c => by simp [filterCandidates]
  | cand :: rest, c => by
    have ih := @mem_filterCandidates dPath pathExistsOnFs rest c
    simp only [filterCandidates]
    split
    · next hpath =>
      rw [ih, List.mem_cons]
      constructor
      · exact fun ⟨hc, h⟩ => ⟨.inr hc, h⟩
      · rintro ⟨rfl | hc, h⟩
        · obtain ⟨path, hp, -⟩ := h
          rw [hpath] at hp
          cases hp
        · exact ⟨hc, h⟩
    · next path hpath =>
      have hcand : (∃ p, cand.metadataPath = some p ∧ (pathOf p ∈ dPath ∨ pathExistsOnFs p = false)) ↔
          (pathOf path ∈ dPath ∨ pathExistsOnFs path = false) := by
        simp [hpath]
      split
      · next hd =>
        rw [List.mem_cons, ih, List.mem_cons]
        constructor
        · rintro (rfl | ⟨hc, h⟩)
          · exact ⟨.inl rfl, hcand.mpr (.inl hd)⟩
          · exact ⟨.inr hc, h⟩
        · rintro ⟨rfl | hc, h⟩
          · exact .inl rfl
          · exact .inr ⟨hc, h⟩
      · next hd =>
        split
        · next he =>
          rw [ih, List.mem_cons]
          constructor
          · exact fun ⟨hc, h⟩ => ⟨.inr hc, h⟩
          · rintro ⟨rfl | hc, h⟩
            · rcases hcand.mp h with h | h
              · exact absurd h hd
              · rw [he] at h
                cases h
            · exact ⟨hc, h⟩
        · next he =>
          rw [List.mem_cons, ih, List.mem_cons]
          constructor
          · rintro (rfl | ⟨hc, h⟩)
            · exact ⟨.inl rfl, hcand.mpr (.inr (by simpa using he))⟩
            · exact ⟨.inr hc, h⟩
          · rintro ⟨rfl | hc, h⟩
            · exact .inl rfl
            · exact .inr ⟨hc, h⟩

/-- What a confirmed prune does to the server, whatever its RPCs answer. -/
theorem executePrune_spec (rpc : Rpc) (cfg : PruneConfig) (cands : List PruneCandidate) (stats : PruneSummary)
    (s : Server) {s' : Server}
    (hs' : s' = (executePruneWithConfirm rpc cfg (fun _ => .proceed) cands stats s).2) :
    (∀ m, m ∈ s'.memories ↔
      m ∈ s.memories ∧ ∀ c ∈ cands, c.memoryId = m.id → rpc.deleteMemory c.memoryId = .failed) ∧
    ∀ t ∈ s.threads, t ∉ s'.threads →
      (∃ c ∈ cands, c.threadId = some t ∧ rpc.deleteMemory c.memoryId = .ok) ∧ ∀ m ∈ s'.memories, t ∉ m.threadIds := by
  subst hs'
  simp only [executePruneWithConfirm]
  split
  · next hempty =>
    rw [List.isEmpty_iff.mp hempty]
    exact ⟨fun m => by simp, fun t ht h => absurd ht h⟩
  · set p := cands.foldl (deleteCandidate rpc) { server := s, touchedThreads := [], stats }
    have hp : ∀ m, m ∈ p.server.memories ↔
        m ∈ s.memories ∧ ∀ c ∈ cands, c.memoryId = m.id → rpc.deleteMemory c.memoryId = .failed :=
      fun m => deleteCandidates_memories cands _
    have hthreads : p.server.threads = s.threads := deleteCandidates_threads cands _
    split
    · obtain ⟨hmem, hgone⟩ := @deleteOrphanThreads_spec rpc p.touchedThreads p
      refine ⟨fun m => by rw [hmem]; exact hp m, fun t ht h => ?_⟩
      obtain ⟨htouched, hempty⟩ := hgone t (by rw [hthreads]; exact ht) h
      rw [hmem]
      refine ⟨?_, hempty⟩
      rcases deleteCandidates_touched cands _ htouched with h | h
      · cases h
      · exact h
    · refine ⟨hp, fun t ht h => ?_⟩
      rw [hthreads] at h
      exact absurd ht h

/-! ## What an import emits -/

theorem mapM_eq_some {α β : Type} {f : α → Option β} : ∀ {l : List α} {l' : List β}, l.mapM f = some l' →
    (∀ a ∈ l, ∃ b ∈ l', f a = some b) ∧ ∀ b ∈ l', ∃ a ∈ l, f a = some b
  | [], l', h => by
    obtain rfl : [] = l' := by simpa using h
    exact ⟨fun a ha => absurd ha List.not_mem_nil, fun b hb => absurd hb List.not_mem_nil⟩
  | a :: l, l', h => by
    simp only [List.mapM_cons, Option.bind_eq_bind, Option.bind_eq_some_iff, Option.pure_def, Option.some.injEq] at h
    obtain ⟨b, hb, bs, hbs, rfl⟩ := h
    obtain ⟨hto, hfrom⟩ := mapM_eq_some hbs
    refine ⟨?_, ?_⟩
    · rintro x (_ | ⟨_, hx⟩)
      · exact ⟨b, List.mem_cons_self, hb⟩
      · obtain ⟨y, hy, hf⟩ := hto x hx
        exact ⟨y, List.mem_cons_of_mem _ hy, hf⟩
    · rintro y (_ | ⟨_, hy⟩)
      · exact ⟨a, List.mem_cons_self, hb⟩
      · obtain ⟨x, hx, hf⟩ := hfrom y hy
        exact ⟨x, List.mem_cons_of_mem _ hx, hf⟩

theorem mapM_isSome {α β : Type} {f : α → Option β} : ∀ {l : List α}, (∀ a ∈ l, (f a).isSome = true) →
    ∃ l', l.mapM f = some l'
  | [], _ => ⟨[], rfl⟩
  | a :: l, h => by
    obtain ⟨b, hb⟩ := Option.isSome_iff_exists.mp (h a List.mem_cons_self)
    obtain ⟨bs, hbs⟩ := mapM_isSome fun x hx => h x (List.mem_cons_of_mem _ hx)
    exact ⟨b :: bs, by simp [List.mapM_cons, hb, hbs]⟩

/-- The entries collected for the prune are those sent, each under its creator's external id. -/
structure ImportRun.Consistent (run : ImportRun) (sourceName : Text) (userId : ℤ) : Prop where
  sent : ∀ e ∈ run.sent, e.entry ∈ run.collected ∧
    namespaceExternalId sourceName userId e.entry.externalId = some e.externalId
  collected : ∀ entry ∈ run.collected, ∃ e ∈ run.sent, e.entry = entry

theorem namespaced_eq_some {sourceName : Text} {userId : ℤ} {entry : CanonicalEntry} {e : SentEntry}
    (h : namespaced sourceName userId entry = some e) :
    e.entry = entry ∧ namespaceExternalId sourceName userId entry.externalId = some e.externalId := by
  simp only [namespaced, Option.map_eq_some_iff] at h
  obtain ⟨externalId, hext, rfl⟩ := h
  exact ⟨rfl, hext⟩

theorem runImport_consistent {args : PlainArgs} {g : GlobalArgs} {failed : List SentEntry → Bool}
    {entries : List CanonicalEntry} {run : ImportRun} (h : runImport args g failed entries = some run) :
    run.Consistent args.sourceName g.userId := by
  simp only [runImport, Option.bind_eq_bind, Option.bind_eq_some_iff, Option.pure_def, Option.some.injEq] at h
  obtain ⟨sent, hsent, rfl⟩ := h
  obtain ⟨hto, hfrom⟩ := mapM_eq_some hsent
  constructor
  · intro e he
    obtain ⟨entry, hentry, hns⟩ := hfrom e he
    obtain ⟨rfl, hext⟩ := namespaced_eq_some hns
    rw [List.mem_filter, List.mem_insertionSort] at hentry
    exact ⟨List.mem_filter.mpr hentry, hext⟩
  · intro entry hentry
    rw [List.mem_filter] at hentry
    obtain ⟨e, he, hns⟩ := hto entry (List.mem_filter.mpr ⟨(List.mem_insertionSort _).mpr hentry.1, hentry.2⟩)
    exact ⟨e, he, (namespaced_eq_some hns).1⟩

section
variable {Y : Type} [Formats Y]

theorem runAll_consistent {args : PlainArgs} {v : Vault} {g : GlobalArgs} {now : ℤ} {failed : List SentEntry → Bool}
    {run : ImportRun} (h : runAll Y args v g now failed = some run) : run.Consistent args.sourceName g.userId := by
  simp only [runAll, Option.bind_eq_bind, Option.bind_eq_some_iff, Option.pure_def, Option.some.injEq] at h
  obtain ⟨runs, hruns, rfl⟩ := h
  have hall : ∀ r ∈ runs, r.Consistent args.sourceName g.userId := by
    intro r hr
    obtain ⟨entries, -, hrun⟩ := (mapM_eq_some hruns).2 r hr
    exact runImport_consistent hrun
  constructor
  · intro e he
    obtain ⟨r, hr, he⟩ := List.mem_flatMap.mp he
    obtain ⟨hc, hext⟩ := (hall r hr).sent e he
    exact ⟨List.mem_flatMap.mpr ⟨r, hr, hc⟩, hext⟩
  · intro entry hentry
    obtain ⟨r, hr, hentry⟩ := List.mem_flatMap.mp hentry
    obtain ⟨e, he, rfl⟩ := (hall r hr).collected entry hentry
    exact ⟨e, List.mem_flatMap.mpr ⟨r, hr, he⟩, rfl⟩

/-! ## Exactness -/

/-- The run sent an entry under the external id. -/
def ImportRun.Emits (run : ImportRun) (externalId : Text) : Prop := ∃ e ∈ run.sent, e.externalId = externalId

/-- The run imported an entry for the file of a path. -/
def ImportRun.Imports (run : ImportRun) (path : Text) : Prop := ∃ e ∈ run.sent, pathOf e.entry.path = pathOf path

/-- The creator-scoped namespace of the source. -/
def ServerMemory.Belongs (m : ServerMemory) (cfg : PruneConfig) : Prop :=
  ∃ externalId, m.externalId = some externalId ∧ cfg.creatorPrefix <+: externalId

variable (Y) in
/-- **A prune deletes exactly what is gone**: only memories of the source and creator that the run did not emit and
whose file is gone or was imported again; every such memory whose file no longer exists; and only threads that it
emptied. -/
structure PrunesExactly (v : Vault) (elsewhere : Bytes → Bool) (cfg : PruneConfig) (run : ImportRun) (rpc : Rpc)
    (s s' : Server) : Prop where
  owned : ∀ m ∈ s.memories, m ∉ s'.memories →
    m.Belongs cfg ∧ ∀ externalId, m.externalId = some externalId → ¬ run.Emits externalId
  gone : ∀ m ∈ s.memories, m ∉ s'.memories →
    ∃ path, m.metadataPath Y = some path ∧ (¬ v.OnDisk path ∨ run.Imports path)
  complete : ∀ m ∈ s.memories, m.Belongs cfg → ∀ path, m.metadataPath Y = some path → v.Gone elsewhere path →
    rpc.deleteMemory m.id ≠ .failed → m ∉ s'.memories
  threads : ∀ t ∈ s.threads, t ∉ s'.threads →
    (∃ m ∈ s.memories, m ∉ s'.memories ∧ t ∈ m.threadIds) ∧ ∀ m ∈ s'.memories, t ∉ m.threadIds

variable (Y) in
/-- The file system tells the truth about a memory: what the run emitted records a file that is there; and for
what it neither emitted nor imported again, something stands at the recorded path exactly when the file is there. -/
def ToldTruly (v : Vault) (elsewhere : Bytes → Bool) (run : ImportRun) (m : ServerMemory) : Prop :=
  ∀ externalId path, m.externalId = some externalId → m.metadataPath Y = some path →
    (run.Emits externalId → ¬ v.Gone elsewhere path) ∧
    (¬ run.Emits externalId → ¬ run.Imports path →
      (v.OnDisk path → v.Stands elsewhere path) ∧ (v.Gone elsewhere path → ¬ v.Stands elsewhere path))

variable (Y) in
/-- What a prune selects. -/
def Selected (v : Vault) (elsewhere : Bytes → Bool) (cfg : PruneConfig) (run : ImportRun) (m : ServerMemory) : Prop :=
  ∃ externalId path, m.externalId = some externalId ∧ cfg.creatorPrefix <+: externalId ∧ ¬ run.Emits externalId ∧
    m.metadataPath Y = some path ∧ (run.Imports path ∨ ¬ v.Stands elsewhere path)

theorem Server.eq_of_id (s : Server) {m m' : ServerMemory} (h : m ∈ s.memories) (h' : m' ∈ s.memories)
    (hid : m.id = m'.id) : m = m' :=
  List.inj_on_of_nodup_map s.ids h h' hid

theorem representativeThread_mem {s : Server} {m : ServerMemory} {t : ℕ} (h : s.representativeThread m = some t) :
    t ∈ m.threadIds := by
  simp only [Server.representativeThread] at h
  split at h
  · cases h
  · rw [Option.filter_eq_some_iff] at h
    exact List.min?_mem h.1

/-- The ids the prune compares with are those the run sent. -/
theorem emitted_ids {cfg : PruneConfig} {run : ImportRun} (hrun : run.Consistent cfg.sourceName cfg.userId) :
    ∃ dExternalId, (run.collected.map CanonicalEntry.externalId).mapM
        (namespaceExternalId cfg.sourceName cfg.userId) = some dExternalId ∧
      ∀ externalId, externalId ∈ dExternalId ↔ run.Emits externalId := by
  have hsome : ∀ raw ∈ run.collected.map CanonicalEntry.externalId,
      (namespaceExternalId cfg.sourceName cfg.userId raw).isSome = true := by
    intro raw hraw
    obtain ⟨entry, hentry, rfl⟩ := List.mem_map.mp hraw
    obtain ⟨e, he, rfl⟩ := hrun.collected entry hentry
    rw [(hrun.sent e he).2]
    rfl
  obtain ⟨ids, hids⟩ := mapM_isSome hsome
  refine ⟨ids, hids, fun externalId => ?_⟩
  obtain ⟨hto, hfrom⟩ := mapM_eq_some hids
  constructor
  · intro h
    obtain ⟨raw, hraw, hns⟩ := hfrom externalId h
    obtain ⟨entry, hentry, rfl⟩ := List.mem_map.mp hraw
    obtain ⟨e, he, rfl⟩ := hrun.collected entry hentry
    refine ⟨e, he, ?_⟩
    rw [(hrun.sent e he).2] at hns
    exact Option.some.inj hns
  · rintro ⟨e, he, rfl⟩
    obtain ⟨hentry, hns⟩ := hrun.sent e he
    obtain ⟨b, hb, hns'⟩ := hto _ (List.mem_map_of_mem hentry)
    rw [hns] at hns'
    rw [Option.some.inj hns']
    exact hb

/-- The paths the prune compares with are those the run imported. -/
theorem imported_paths {cfg : PruneConfig} {run : ImportRun} (hrun : run.Consistent cfg.sourceName cfg.userId)
    (path : Text) : pathOf path ∈ run.collected.map (fun e => pathOf e.path) ↔ run.Imports path := by
  rw [List.mem_map]
  constructor
  · rintro ⟨entry, hentry, hpath⟩
    obtain ⟨e, he, rfl⟩ := hrun.collected entry hentry
    exact ⟨e, he, hpath⟩
  · rintro ⟨e, he, hpath⟩
    exact ⟨e.entry, (hrun.sent e he).1, hpath⟩

variable (Y) in
/-- The candidate a listed memory gives. -/
def Server.candidate (s : Server) (m : ServerMemory) (externalId : Text) : PruneCandidate :=
  { memoryId := m.id, externalId, metadataPath := m.metadataPath Y, threadId := s.representativeThread m }

theorem mem_candidates {s : Server} {idPrefix : Text} {c : PruneCandidate} :
    c ∈ (s.findMemoriesByExternalIdPrefix idPrefix).filterMap (extractCandidate Y) ↔
      ∃ m ∈ s.memories, ∃ externalId, m.externalId = some externalId ∧ idPrefix <+: externalId ∧
        s.candidate Y m externalId = c := by
  simp only [Server.findMemoriesByExternalIdPrefix, List.mem_filterMap, List.mem_map, List.mem_filter]
  constructor
  · rintro ⟨entry, ⟨m, ⟨hm, hpre⟩, rfl⟩, hc⟩
    simp only [extractCandidate, Option.map_eq_some_iff] at hc
    obtain ⟨externalId, hext, rfl⟩ := hc
    rw [hext] at hpre
    exact ⟨m, hm, externalId, hext, List.isPrefixOf_iff_prefix.mp (by simpa using hpre), rfl⟩
  · rintro ⟨m, hm, externalId, hext, hpre, rfl⟩
    refine ⟨_, ⟨m, ⟨hm, ?_⟩, rfl⟩, ?_⟩
    · rw [hext]
      simpa using List.isPrefixOf_iff_prefix.mpr hpre
    · simp [extractCandidate, hext, Server.candidate]

/-- The candidates that are left to delete. -/
theorem mem_final {v : Vault} {elsewhere : Bytes → Bool} {cfg : PruneConfig} {run : ImportRun}
    (hrun : run.Consistent cfg.sourceName cfg.userId) {ids : List Text}
    (hemit : ∀ externalId, externalId ∈ ids ↔ run.Emits externalId) {s : Server} {c : PruneCandidate} :
    c ∈ (filterCandidates (run.collected.map fun e => pathOf e.path) (v.fsPathExists elsewhere)
        (((s.findMemoriesByExternalIdPrefix cfg.creatorPrefix).filterMap (extractCandidate Y)).filter
          fun c => c.externalId ∉ ids)).1 ↔
      ∃ m ∈ s.memories, Selected Y v elsewhere cfg run m ∧
        ∃ externalId, m.externalId = some externalId ∧ s.candidate Y m externalId = c := by
  rw [mem_filterCandidates, List.mem_filter, mem_candidates, decide_eq_true_eq, hemit]
  constructor
  · rintro ⟨⟨⟨m, hm, externalId, hext, hpre, rfl⟩, hnot⟩, path, hpath, hwhy⟩
    refine ⟨m, hm, ⟨externalId, path, hext, hpre, hnot, hpath, ?_⟩, externalId, hext, rfl⟩
    rw [imported_paths hrun] at hwhy
    rcases hwhy with h | h
    · exact .inl h
    · exact .inr fun hs => by simp [Vault.fsPathExists_iff.mpr hs] at h
  · rintro ⟨m, hm, ⟨externalId, path, hext, hpre, hnot, hpath, hwhy⟩, externalId', hext', rfl⟩
    obtain rfl : externalId = externalId' := Option.some.inj (hext.symm.trans hext')
    refine ⟨⟨⟨m, hm, externalId, hext, hpre, rfl⟩, hnot⟩, path, hpath, ?_⟩
    rw [imported_paths hrun]
    rcases hwhy with h | h
    · exact .inl h
    · rw [← Vault.fsPathExists_iff] at h
      exact .inr (by simpa using h)

/-- A prune that follows a clean import runs on the memories it selects. -/
theorem pruneAfterImport_eq {v : Vault} {elsewhere : Bytes → Bool} {cfg : PruneConfig} {run : ImportRun}
    (hrun : run.Consistent cfg.sourceName cfg.userId) (hclean : run.errors = 0) (rpc : Rpc)
    (confirm : List PruneCandidate → Confirm) (s : Server) :
    ∃ cands stats, pruneAfterImport Y v elsewhere rpc cfg confirm run s =
        some (executePruneWithConfirm rpc cfg confirm cands stats s) ∧
      ∀ c, c ∈ cands ↔ ∃ m ∈ s.memories, Selected Y v elsewhere cfg run m ∧
        ∃ externalId, m.externalId = some externalId ∧ s.candidate Y m externalId = c := by
  obtain ⟨ids, hids, hemit⟩ := emitted_ids hrun
  simp only [pruneAfterImport, hclean, runPruneForPlain, hids]
  exact ⟨_, _, rfl, fun c => mem_final hrun hemit⟩

/-- **One prune**: it deletes what it selects, and no other thread than one it emptied. -/
theorem prune_spec {v : Vault} {elsewhere : Bytes → Bool} {cfg : PruneConfig} {run : ImportRun}
    (hrun : run.Consistent cfg.sourceName cfg.userId) (hclean : run.errors = 0) (rpc : Rpc) (s : Server) :
    ∃ outcome s', pruneAfterImport Y v elsewhere rpc cfg (fun _ => .proceed) run s = some (outcome, s') ∧
      (∀ m, m ∈ s'.memories ↔
        m ∈ s.memories ∧ (Selected Y v elsewhere cfg run m → rpc.deleteMemory m.id = .failed)) ∧
      ∀ t ∈ s.threads, t ∉ s'.threads →
        (∃ m ∈ s.memories, m ∉ s'.memories ∧ t ∈ m.threadIds) ∧ ∀ m ∈ s'.memories, t ∉ m.threadIds := by
  obtain ⟨cands, stats, heq, hcands⟩ := pruneAfterImport_eq (Y := Y) (v := v) hrun hclean rpc (fun _ => .proceed) s
  obtain ⟨outcome, s', hres⟩ : ∃ outcome s',
      executePruneWithConfirm rpc cfg (fun _ => .proceed) cands stats s = (outcome, s') := ⟨_, _, rfl⟩
  rw [hres] at heq
  obtain ⟨hmem, hthr⟩ := executePrune_spec rpc cfg cands stats s (by rw [hres])
  refine ⟨outcome, s', heq, ?_⟩
  have hkept : ∀ m, m ∈ s'.memories ↔
      m ∈ s.memories ∧ (Selected Y v elsewhere cfg run m → rpc.deleteMemory m.id = .failed) := by
    intro m
    refine (hmem m).trans (and_congr_right fun hm => ⟨fun h hsel => ?_, fun h c hc hid => ?_⟩)
    · obtain ⟨externalId, -, hext, -⟩ := id hsel
      exact h _ ((hcands _).mpr ⟨m, hm, hsel, externalId, hext, rfl⟩) rfl
    · obtain ⟨m', hm', hsel, externalId, hext, rfl⟩ := (hcands c).mp hc
      obtain rfl : m' = m := s.eq_of_id hm' hm hid
      exact h hsel
  refine ⟨hkept, fun t ht hgone => ?_⟩
  obtain ⟨⟨c, hc, hthread, hok⟩, hempty⟩ := hthr t ht hgone
  refine ⟨?_, hempty⟩
  obtain ⟨m, hm, hsel, externalId, -, rfl⟩ := (hcands c).mp hc
  refine ⟨m, hm, fun hin => ?_, representativeThread_mem hthread⟩
  have hfailed := ((hkept m).mp hin).2 hsel
  simp only [Server.candidate] at hok
  rw [hok] at hfailed
  cases hfailed

/-! ## Exactly what is gone -/

/-- The prune of a source and creator. -/
def pruneConfig (args : PlainArgs) (g : GlobalArgs) (orphanThreads : Bool) : PruneConfig :=
  { sourceName := args.sourceName, userId := g.userId, orphanThreads }

/-- **A confirmed prune is exact for every way its RPCs may end, if and only if the file system tells the truth**
about each memory of the source and creator. -/
theorem prunes_exactly_iff {args : PlainArgs} {v : Vault} {g : GlobalArgs} {now : ℤ}
    {failed : List SentEntry → Bool} {run : ImportRun} (himport : runAll Y args v g now failed = some run)
    (hclean : run.errors = 0) (elsewhere : Bytes → Bool) (orphanThreads : Bool) (s : Server) :
    (∀ rpc, ∃ outcome s',
        pruneAfterImport Y v elsewhere rpc (pruneConfig args g orphanThreads) (fun _ => .proceed) run s =
          some (outcome, s') ∧
        PrunesExactly Y v elsewhere (pruneConfig args g orphanThreads) run rpc s s') ↔
      ∀ m ∈ s.memories, m.Belongs (pruneConfig args g orphanThreads) → ToldTruly Y v elsewhere run m := by
  have hrun : run.Consistent (pruneConfig args g orphanThreads).sourceName (pruneConfig args g orphanThreads).userId :=
    runAll_consistent himport
  generalize pruneConfig args g orphanThreads = cfg at hrun ⊢
  constructor
  · -- with every deletion taking effect, what is selected is what goes
    intro h m hm hbelongs externalId path hext hpath
    obtain ⟨outcome, s', heq, hexact⟩ := h ⟨fun _ => .ok, fun _ => false, fun _ => .ok⟩
    obtain ⟨outcome', s'', heq', hkept, -⟩ :=
      @prune_spec Y _ v elsewhere _ _ hrun hclean ⟨fun _ => .ok, fun _ => false, fun _ => .ok⟩ s
    obtain ⟨rfl, rfl⟩ := Prod.mk.inj (Option.some.inj (heq.symm.trans heq'))
    have hdeleted : m ∉ s'.memories ↔ Selected Y v elsewhere cfg run m := by
      rw [hkept]
      simp [hm]
    obtain ⟨externalId', hext', hpre⟩ := id hbelongs
    obtain rfl : externalId = externalId' := Option.some.inj (hext.symm.trans hext')
    refine ⟨fun hemits hgone => ?_, fun hnot himports => ⟨fun hon => ?_, fun hgone hstands => ?_⟩⟩
    · have hgo := hexact.complete m hm hbelongs path hpath hgone (by simp)
      exact (hexact.owned m hm hgo).2 externalId hext hemits
    · by_contra hstands
      have hgo := hdeleted.mpr ⟨externalId, path, hext, hpre, hnot, hpath, .inr hstands⟩
      obtain ⟨path', hpath', hwhy⟩ := hexact.gone m hm hgo
      obtain rfl : path = path' := Option.some.inj (hpath.symm.trans hpath')
      exact hwhy.elim (fun h => h hon) himports
    · have hgo := hexact.complete m hm hbelongs path hpath hgone (by simp)
      obtain ⟨_, path', _, _, _, hpath', hwhy⟩ := hdeleted.mp hgo
      obtain rfl : path = path' := Option.some.inj (hpath.symm.trans hpath')
      exact hwhy.elim himports fun h => h hstands
  · intro htold rpc
    obtain ⟨outcome, s', heq, hkept, hthreads⟩ :=
      @prune_spec Y _ v elsewhere _ _ hrun hclean rpc s
    have hdeleted : ∀ m ∈ s.memories, m ∉ s'.memories → Selected Y v elsewhere cfg run m := by
      intro m hm hgo
      by_contra hsel
      exact hgo ((hkept m).mpr ⟨hm, fun h => absurd h hsel⟩)
    refine ⟨outcome, s', heq, ?_, ?_, ?_, hthreads⟩
    · intro m hm hgo
      obtain ⟨externalId, path, hext, hpre, hnot, -⟩ := hdeleted m hm hgo
      refine ⟨⟨externalId, hext, hpre⟩, fun externalId' hext' => ?_⟩
      rw [← Option.some.inj (hext.symm.trans hext')]
      exact hnot
    · intro m hm hgo
      obtain ⟨externalId, path, hext, hpre, hnot, hpath, hwhy⟩ := hdeleted m hm hgo
      refine ⟨path, hpath, ?_⟩
      by_cases himports : run.Imports path
      · exact .inr himports
      · refine .inl fun hon => hwhy.elim himports fun hstands => ?_
        exact hstands (((htold m hm ⟨externalId, hext, hpre⟩ externalId path hext hpath).2 hnot himports).1 hon)
    · rintro m hm ⟨externalId, hext, hpre⟩ path hpath hgone hrpc hin
      obtain ⟨hemitted, htruth⟩ := htold m hm ⟨externalId, hext, hpre⟩ externalId path hext hpath
      have hnot : ¬ run.Emits externalId := fun h => hemitted h hgone
      refine hrpc (((hkept m).mp hin).2 ⟨externalId, path, hext, hpre, hnot, hpath, ?_⟩)
      by_cases himports : run.Imports path
      · exact .inl himports
      · exact .inr ((htruth hnot himports).2 hgone)

end

/-! ### A vault of notes -/

/-- Metadata that holds a path and nothing else. -/
instance pathOnly : Formats Unit where
  yaml _ := none
  created _ := none
  updated _ := none
  metadataPath text :=
    let opening := "\x7b\"path\":\"".toList
    let closing := "\"\x7d".toList
    if opening <+: text ∧ closing <:+ text then
      some ((text.drop opening.length).take (text.length - opening.length - closing.length))
    else none

def notesArgs : PlainArgs where
  sourceName := "notes".toList
  ext := "md,txt".toList
  ignored _ := false
  excluded _ := false
  followSymlinks := false
  threadStrategy := .perFile
  encoding := .utf8Lossy
  frontmatter := true
  maxFileSizeBytes := 1048576

def notesGlobal : GlobalArgs := { sinceMillis := none, sinceMillisWithMargin := none, userId := 1 }

def note (text : String) : FileNode :=
  { bytes := some (Utf8.encode text.toList), size := text.length, modified := some 1, created := none }

/-- One note, open to all. -/
def openVault : Vault where
  root := [Utf8.encode "vault".toList]
  nodes := [([], .dir false true true), ([Utf8.encode "a.md".toList], .file false (note "new"))]
  names := by decide
  closed := by decide

/-- One note, in a directory that can be neither listed nor searched. -/
def lockedVault : Vault where
  root := [Utf8.encode "vault".toList]
  nodes := [([], .dir false true true), ([Utf8.encode "sub".toList], .dir false false false),
    ([Utf8.encode "sub".toList, Utf8.encode "a.md".toList], .file false (note "new"))]
  names := by decide
  closed := by decide

def stored (id : ℕ) (path : String) : ServerMemory :=
  { id, externalId := some ("notes:1:file:".toList ++ path.toList),
    metadata := some ("\x7b\"path\":\"".toList ++ path.toList ++ "\"\x7d".toList), system := false, threadIds := [id] }

def notesServer (memories : List ServerMemory) (h : (memories.map ServerMemory.id).Nodup) : Server :=
  { memories, threads := memories.map ServerMemory.id, ids := h }

/-- With one note edited and one gone, the prune is exact. -/
theorem open_vault_prunes_exactly : ∃ run, runAll Unit notesArgs openVault notesGlobal 0 (fun _ => false) = some run ∧
    ∀ rpc, ∃ outcome s',
      pruneAfterImport Unit openVault (fun _ => false) rpc (pruneConfig notesArgs notesGlobal true) (fun _ => .proceed)
          run (notesServer [stored 1 "a.md", stored 2 "b.md"] (by decide)) = some (outcome, s') ∧
      PrunesExactly Unit openVault (fun _ => false) (pruneConfig notesArgs notesGlobal true) run rpc
        (notesServer [stored 1 "a.md", stored 2 "b.md"] (by decide)) s' := by
  obtain ⟨run, hrun⟩ : ∃ run, runAll Unit notesArgs openVault notesGlobal 0 (fun _ => false) = some run :=
    Option.isSome_iff_exists.mp (by decide +kernel)
  have hfacts : (runAll Unit notesArgs openVault notesGlobal 0 (fun _ => false)).map
      (fun r => (r.errors, r.sent.all fun e => e.externalId ≠ "notes:1:file:b.md".toList)) = some (0, true) := by
    decide +kernel
  rw [hrun, Option.map_some, Option.some.injEq, Prod.mk.injEq] at hfacts
  refine ⟨run, hrun, (prunes_exactly_iff hrun hfacts.1 (fun _ => false) true _).mpr ?_⟩
  have hon : openVault.OnDisk "a.md".toList := ⟨[Utf8.encode "a.md".toList], by decide +kernel, by decide +kernel⟩
  have hstands : openVault.Stands (fun _ => false) "a.md".toList := Vault.fsPathExists_iff.mp (by decide +kernel)
  have hnot : ¬ openVault.Stands (fun _ => false) "b.md".toList := by
    rw [← Vault.fsPathExists_iff]
    decide +kernel
  have hoff : ¬ openVault.OnDisk "b.md".toList := by decide +kernel
  intro m hm _ externalId path hext hpath
  rcases List.mem_cons.mp hm with rfl | hm
  · obtain rfl : "a.md".toList = path := Option.some.inj ((by decide +kernel : _ = some "a.md".toList).symm.trans hpath)
    exact ⟨fun _ hgone => hgone.1 hon, fun _ _ => ⟨fun _ => hstands, fun hgone => absurd hon hgone.1⟩⟩
  · obtain rfl := List.mem_singleton.mp hm
    obtain rfl : "b.md".toList = path := Option.some.inj ((by decide +kernel : _ = some "b.md".toList).symm.trans hpath)
    obtain rfl : "notes:1:file:b.md".toList = externalId :=
      Option.some.inj ((by decide +kernel : _ = some "notes:1:file:b.md".toList).symm.trans hext)
    refine ⟨fun ⟨e, he, hid⟩ => ?_, fun _ _ => ⟨fun hon' => absurd hon' hoff, fun _ => hnot⟩⟩
    have := List.all_eq_true.mp hfacts.2 e he
    simp [hid] at this

/-- **A file in a locked directory loses its memory** although it is still there. -/
theorem locked_directory_pruned : ∃ run outcome s',
    runAll Unit notesArgs lockedVault notesGlobal 0 (fun _ => false) = some run ∧ run.errors = 0 ∧
    pruneAfterImport Unit lockedVault (fun _ => false) ⟨fun _ => .ok, fun _ => false, fun _ => .ok⟩
      (pruneConfig notesArgs notesGlobal true) (fun _ => .proceed) run
      (notesServer [stored 1 "sub/a.md"] (by decide)) = some (outcome, s') ∧
    ¬ PrunesExactly Unit lockedVault (fun _ => false) (pruneConfig notesArgs notesGlobal true) run
      ⟨fun _ => .ok, fun _ => false, fun _ => .ok⟩ (notesServer [stored 1 "sub/a.md"] (by decide)) s' := by
  obtain ⟨⟨collected, sent, errors⟩, hrun⟩ :
      ∃ run, runAll Unit notesArgs lockedVault notesGlobal 0 (fun _ => false) = some run :=
    Option.isSome_iff_exists.mp (by decide +kernel)
  have hfacts : (runAll Unit notesArgs lockedVault notesGlobal 0 (fun _ => false)).map
      (fun r => (r.collected.length, r.sent.length, r.errors)) = some (0, 0, 0) := by decide +kernel
  rw [hrun, Option.map_some, Option.some.injEq, Prod.mk.injEq, Prod.mk.injEq] at hfacts
  obtain ⟨hcollected, hsent, rfl⟩ := hfacts
  obtain rfl := List.length_eq_zero_iff.mp hcollected
  obtain rfl := List.length_eq_zero_iff.mp hsent
  have hprune : (pruneAfterImport Unit lockedVault (fun _ => false) ⟨fun _ => .ok, fun _ => false, fun _ => .ok⟩
      (pruneConfig notesArgs notesGlobal true) (fun _ => .proceed) ⟨[], [], 0⟩
      (notesServer [stored 1 "sub/a.md"] (by decide))).map (fun p => p.2.memories) = some [] := by decide +kernel
  obtain ⟨⟨outcome, s'⟩, hres, hempty⟩ := Option.map_eq_some_iff.mp hprune
  refine ⟨_, outcome, s', hrun, rfl, hres, fun hexact => ?_⟩
  have hm : stored 1 "sub/a.md" ∈ (notesServer [stored 1 "sub/a.md"] (by decide)).memories := List.mem_singleton.mpr rfl
  obtain ⟨path, hpath, hwhy⟩ := hexact.gone _ hm (by rw [hempty]; exact List.not_mem_nil)
  obtain rfl : "sub/a.md".toList = path :=
    Option.some.inj ((by decide +kernel : _ = some "sub/a.md".toList).symm.trans hpath)
  rcases hwhy with h | ⟨e, he, -⟩
  · exact absurd (by decide +kernel) h
  · exact absurd he List.not_mem_nil

end MemoryStore.PlainSource
