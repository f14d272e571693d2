import GithubAgent.Base.Transition
import GithubAgent.Indexing.Queries

/-!
# The caches of the symbol index

The calls on one `SymbolIndex` (`src/shared/code_graph.py`): the builds and the diff write the
tables, the queries and the diff read them through the caches, which only the builds that reach
their end drop. An answer is right when a new `SymbolIndex` gives the same one on these tables.
-/

namespace GithubAgent.Indexing.SymbolIndex

open GithubAgent.Base

/-! ### The calls -/

/-- The tables and the caches of the index. -/
structure State where
  tables : Tables
  caches : Caches

/-- A new `SymbolIndex` over the tables. -/
def State.fresh (s : State) : State := { s with caches := .empty }

/-- The methods that are called, with what the repository holds then: the commit, and the tree that
tags are extracted from. -/
inductive Operation where
  | build (commit : String) (tree : Tree) (options : BuildOptions)
  | buildIncremental (commit : String) (tree : Tree) (changedFiles : List String)
  | detectChangesFromDiff (diff : DiffResult)
  | getImpact (args : ImpactArgs) (repo : Option String)
  | getFileOverview (filePath : String) (repo : Option String)
  | traceFlow (args : FlowArgs) (repo : Option String)

/-- What is returned. -/
inductive Answer where
  | built
  | impact (answer : ImpactAnswer)
  | overview (answer : OverviewAnswer)
  | flow (answer : FlowAnswer)
  | changes (answer : ChangesAnswer)

/-- The rows of a repository. -/
def ofRepo (repo : String) (row : Row) : Bool := row.repo = repo

/-- The rows of some files of a repository. -/
def ofFiles (repo : String) (files : List String) (row : Row) : Bool :=
  row.filepath ∈ files ∧ row.repo = repo

/-- Both ends of a containment stay when symbols are deleted. -/
def Tables.keepsEnds (t : Tables) (gone : Row → Bool) (edge : String × String) : Bool :=
  (t.db.symbols.filter (!gone ·)).get edge.1 ≠ none ∧
    (t.db.symbols.filter (!gone ·)).get edge.2 ≠ none

/-- The tables after a call that has deleted symbols; nothing is added to `contains_edge`. -/
def Tables.cleared (t : Tables) (db : Database) (gone : Row → Bool) : Tables :=
  ⟨db, t.containsEdges.filter (t.keepsEnds gone)⟩

section Calls

variable (x : Extraction) (iterate : Finset String → List String) (repo : String)

/-- The tags of a build. -/
def buildTags (tree : Tree) (options : BuildOptions) : List Tag :=
  options.preExtractedTags.getD (x.extractTags tree none)

/-- `build`: the caches are dropped where the commit is marked (`code_graph.py:130-210`). -/
def build (commit : String) (tree : Tree) (options : BuildOptions) (s : State) : State :=
  let result := buildCall x (fun _ ↦ tree) .none repo (.commit commit) options s.tables.db
  if result.1 = some true then { s with tables := { s.tables with db := result.2 } }
  else
    { tables := s.tables.cleared result.2 (ofRepo repo)
      caches := if buildTags x tree options = [] then s.caches else .empty }

/-- `build_incremental` (`code_graph.py:212-277`). -/
def buildIncremental (commit : String) (tree : Tree) (changedFiles : List String) (s : State) :
    State :=
  if changedFiles = [] then s
  else
    let result :=
      incrementalCall x (fun _ ↦ tree) .none repo (.commit commit) changedFiles s.tables.db
    { tables := s.tables.cleared result.2 (ofFiles repo changedFiles)
      caches := if x.extractTags tree (some changedFiles) = [] then s.caches else .empty }

/-- The stale files are cleared before anything is read (`code_graph.py:773-775`). -/
def clearStale (staleFiles : List String) (t : Tables) : Tables :=
  if staleFiles = [] then t
  else t.cleared (clearRepoFiles .none repo staleFiles t.db).2 (ofFiles repo staleFiles)

/-- `repo or self.repo`. -/
def scopeOf (asked : Option String) : String := (asked.filter (· ≠ "")).getD repo

/-- A query on the tables. -/
def State.ask {A : Type} (s : State) (query : Tables → Coroutine Caches A) (answer : A → Answer) :
    State × Option Answer :=
  let result := query s.tables s.caches
  ({ s with caches := result.2 }, result.1.map answer)

/-- A call, with what it returns unless it raises. -/
def call (s : State) : Operation → State × Option Answer
  | .build commit tree options => (build x repo commit tree options s, some .built)
  | .buildIncremental commit tree changedFiles =>
    (buildIncremental x repo commit tree changedFiles s, some .built)
  | .detectChangesFromDiff diff =>
    let cleared :=
      match diff with
      | .parsed _ staleFiles => { s with tables := clearStale repo staleFiles s.tables }
      | _ => s
    cleared.ask (detectChanges · iterate repo diff) .changes
  | .getImpact args asked => s.ask (getImpact · iterate args (scopeOf repo asked)) .impact
  | .getFileOverview filePath asked =>
    s.ask (getFileOverview · filePath (scopeOf repo asked)) .overview
  | .traceFlow args asked => s.ask (traceFlow · args (scopeOf repo asked)) .flow

/-- The runs of a new index, from any tables. -/
def system : System State Operation where
  init s := s.caches = .empty
  step s op := some (call x iterate repo s op).1

/-- The call returns what a new index returns. -/
def Truthful (s : State) (op : Operation) : Prop :=
  (call x iterate repo s op).2 = (call x iterate repo s.fresh op).2

/-! ### When the caches are right -/

/-- The commit is indexed already, and the build does nothing (`code_graph.py:157-169`). -/
def Skips (commit : String) (options : BuildOptions) (db : Database) : Prop :=
  (options.force = false ∧ options.preExtractedTags.getD [] = []) ∧
    ¬ (commit = "" ∨ repo = "") ∧ db.hasCommit commit = true

instance (commit : String) (options : BuildOptions) (db : Database) :
    Decidable (Skips repo commit options db) :=
  inferInstanceAs (Decidable (_ ∧ _ ∧ _))

/-- No row that a cache was filled from is deleted, nor an end of an edge that one was. -/
structure Untouched (t : Tables) (gone : Row → Bool) (c : Caches) : Prop where
  edges : ∀ l ∈ c.edges, ∀ e ∈ t.db.edges, t.db.repoOf e.source = some l.scope →
    t.nameOf e.source ≠ "" → t.nameOf e.target ≠ "" → t.keepsEnds gone (e.source, e.target) = true
  scopes : ∀ l ∈ c.scopes, ∀ e ∈ t.containsEdges, t.scopeEntry l.scope e ≠ none →
    t.keepsEnds gone e = true
  defs : ∀ l ∈ c.defs, ∀ row ∈ t.db.symbols.rows, row.2.kind = "definition" →
    row.2.repo = l.scope → gone row.2 = false

/-- The caches that are filled were filled for the repository. -/
structure Caches.OfScope (scope : String) (c : Caches) : Prop where
  edges : Base.OfScope scope c.edges
  scopes : Base.OfScope scope c.scopes
  defs : Base.OfScope scope c.defs

/-- The call leaves no wrong cache behind and uses none: a build is skipped, extracts tags or
deletes nothing that is cached, and so does the diff; a query that uses the caches is for the
repository that they were filled for. -/
def Orderly (s : State) : Operation → Prop
  | .build commit tree options =>
    Skips repo commit options s.tables.db ∨ buildTags x tree options ≠ [] ∨
      Untouched s.tables (ofRepo repo) s.caches
  | .buildIncremental _ tree changedFiles =>
    changedFiles = [] ∨ x.extractTags tree (some changedFiles) ≠ [] ∨
      Untouched s.tables (ofFiles repo changedFiles) s.caches
  | .detectChangesFromDiff (.parsed _ staleFiles) =>
    (staleFiles = [] ∨ Untouched s.tables (ofFiles repo staleFiles) s.caches) ∧
      s.caches.OfScope repo
  | .detectChangesFromDiff _ => True
  | .getImpact _ asked => s.caches.OfScope (scopeOf repo asked)
  | .getFileOverview _ asked => s.caches.OfScope (scopeOf repo asked)
  | .traceFlow args asked =>
    (entryDefinitions s.tables args (scopeOf repo asked)).length = 1 →
      s.caches.OfScope (scopeOf repo asked)

end Calls

/-! ### Queries on right caches -/

section Steady

variable {t : Tables} {scope : String} (iterate : Finset String → List String)

/-- What is cached would be loaded again. -/
structure Caches.Current (t : Tables) (c : Caches) : Prop where
  edges : Base.Current t.loadEdges c.edges
  scopes : Base.Current t.getAllScopeEdges c.scopes
  defs : Base.Current t.allDefinitions c.defs

theorem Caches.current_empty : Caches.empty.Current t := ⟨current_none, current_none, current_none⟩

theorem Caches.ofScope_empty : Caches.empty.OfScope scope :=
  ⟨ofScope_none, ofScope_none, ofScope_none⟩

/-- The caches are right for queries on the repository. -/
structure Ready (t : Tables) (scope : String) (c : Caches) : Prop where
  current : c.Current t
  ofScope : c.OfScope scope

theorem steady_getEdgeCache : Coroutine.Steady (Ready t scope) (getEdgeCache t scope) := by
  refine ⟨some (t.loadEdges scope), fun c h ↦ ⟨?_, ?_⟩⟩
  · exact congrArg some (h.current.edges.value_loadOnce h.ofScope.edges)
  · exact ⟨⟨h.current.edges.some_loadOnce, h.current.scopes, h.current.defs⟩,
      ⟨h.ofScope.edges.some_loadOnce, h.ofScope.scopes, h.ofScope.defs⟩⟩

theorem steady_getScopeCache : Coroutine.Steady (Ready t scope) (getScopeCache t scope) := by
  refine ⟨some (t.getAllScopeEdges scope), fun c h ↦ ⟨?_, ?_⟩⟩
  · exact congrArg some (h.current.scopes.value_loadOnce h.ofScope.scopes)
  · exact ⟨⟨h.current.edges, h.current.scopes.some_loadOnce, h.current.defs⟩,
      ⟨h.ofScope.edges, h.ofScope.scopes.some_loadOnce, h.ofScope.defs⟩⟩

theorem steady_getDefCache : Coroutine.Steady (Ready t scope) (getDefCache t scope) := by
  refine ⟨some (t.allDefinitions scope), fun c h ↦ ⟨?_, ?_⟩⟩
  · exact congrArg some (h.current.defs.value_loadOnce h.ofScope.defs)
  · exact ⟨⟨h.current.edges, h.current.scopes, h.current.defs.some_loadOnce⟩,
      ⟨h.ofScope.edges, h.ofScope.scopes, h.ofScope.defs.some_loadOnce⟩⟩

theorem steady_bfsUpstream (seeds : Finset String) (maxDepth : Nat) (edges : EdgeCache) :
    Coroutine.Steady (Ready t scope) (bfsUpstream t iterate seeds maxDepth scope edges) :=
  steady_getDefCache.bind fun _ ↦ .pure _

theorem steady_bfsDownstream (seeds : Finset String) (maxDepth : Nat) (edges : EdgeCache) :
    Coroutine.Steady (Ready t scope) (bfsDownstream t iterate seeds maxDepth scope edges) :=
  steady_getDefCache.bind fun _ ↦ .pure _

theorem steady_getImpact (args : ImpactArgs) :
    Coroutine.Steady (Ready t scope) (getImpact t iterate args scope) := by
  apply steady_getEdgeCache.bind
  intro edges
  apply Coroutine.Steady.bind
  · split
    · exact steady_bfsUpstream iterate _ _ edges
    · exact .pure _
  · intro upstream
    apply Coroutine.Steady.bind
    · split
      · exact steady_bfsDownstream iterate _ _ edges
      · exact .pure _
    · exact fun _ ↦ .pure _

theorem steady_getFileOverview (filePath : String) :
    Coroutine.Steady (Ready t scope) (getFileOverview t filePath scope) :=
  steady_getEdgeCache.bind fun _ ↦ steady_getScopeCache.bind fun _ ↦ .pure _

theorem steady_traceFlow (args : FlowArgs) :
    Coroutine.Steady (Ready t scope) (traceFlow t args scope) := by
  unfold traceFlow
  split
  · exact .pure _
  · split
    · exact .raise
    · exact steady_getEdgeCache.bind fun _ ↦ steady_getDefCache.bind fun _ ↦ .pure _
    · exact .pure _

/-- Without a single entry point the flow asks for no cache. -/
theorem traceFlow_of_unresolved {args : FlowArgs} (h : (entryDefinitions t args scope).length ≠ 1) :
    ∃ result, ∀ c, traceFlow t args scope c = (result, c) := by
  unfold traceFlow
  split
  · exact ⟨_, fun _ ↦ rfl⟩
  · match hd : entryDefinitions t args scope with
    | [] => exact ⟨none, fun _ ↦ rfl⟩
    | [d] => exact absurd (congrArg List.length hd) h
    | d :: d' :: ds => exact ⟨_, fun _ ↦ rfl⟩

theorem steady_changedFiles (edges : EdgeCache) (entries : List ChangedRanges) :
    Coroutine.Steady (Ready t scope) (changedFiles t iterate scope edges entries) := by
  induction entries with
  | nil => exact .pure _
  | cons entry rest ih =>
    apply Coroutine.Steady.bind
    · unfold changedFile
      dsimp only
      split
      · exact .pure _
      · exact (steady_bfsUpstream iterate _ _ edges).bind fun _ ↦
          (steady_bfsDownstream iterate _ _ edges).bind fun _ ↦ .pure _
    · exact fun _ ↦ ih.bind fun _ ↦ .pure _

theorem steady_detectChanges (diff : DiffResult) :
    Coroutine.Steady (Ready t scope) (detectChanges t iterate scope diff) := by
  cases diff with
  | failed stderr => exact .pure _
  | raised message => exact .pure _
  | parsed changes staleFiles =>
    exact steady_getEdgeCache.bind fun edges ↦
      (steady_changedFiles iterate edges changes).bind fun _ ↦ .pure _

end Steady

/-! ### What a deletion leaves -/

section Cleared

variable {db db' db'' : Database} {gone gone' : Row → Bool} {repo : String}

/-- The symbols that are meant are deleted, and of the edges only those that lose an end. -/
structure Cleared (gone : Row → Bool) (db db' : Database) : Prop where
  symbols : db'.symbols = db.symbols.filter (!gone ·)
  subset : ∀ e ∈ db'.edges, e ∈ db.edges
  kept : ∀ e ∈ db.edges, Store.HasEnds db'.symbols e → e ∈ db'.edges

theorem Cleared.of_none (db : Database) : Cleared (fun _ ↦ false) db db where
  symbols := (Table.filter_eq_self fun _ _ _ ↦ rfl).symm
  subset _ he := he
  kept _ he _ := he

theorem Cleared.trans (h : Cleared gone db db') (h' : Cleared gone' db' db'') :
    Cleared (fun row ↦ gone row || gone' row) db db'' where
  symbols := by
    rw [h'.symbols, h.symbols, Table.filter_filter]
    simp only [Bool.not_or]
  subset e he := h.subset e (h'.subset e he)
  kept e he hends := by
    apply h'.kept e _ hends
    apply h.kept e he
    rw [h'.symbols] at hends
    exact hends.of_filter

theorem Cleared.congr (h : Cleared gone db db') (heq : ∀ row, gone row = gone' row) :
    Cleared gone' db db' := by
  obtain rfl : gone = gone' := funext heq
  exact h

/-- Edges are deleted by their source and before the symbols, which takes the others along. -/
theorem Cleared.of_deletes (hsymbols : db'.symbols = db.symbols)
    (hsubset : ∀ e ∈ db'.edges, e ∈ db.edges)
    (hkept : ∀ e ∈ db.edges, e ∉ db'.edges → ∃ row, db.symbols.get e.source = some row ∧
      gone row = true) : Cleared gone db (db'.deleteSymbols gone) where
  symbols := by
    rw [← hsymbols]
    rfl
  subset e he := hsubset e (Multiset.mem_filter.mp he).1
  kept e he hends := by
    refine Multiset.mem_filter.mpr ⟨?_, hends⟩
    by_contra hgone
    obtain ⟨row, hrow, hmeant⟩ := hkept e he hgone
    apply hends.1
    change (db'.symbols.filter (!gone ·)).get e.source = none
    rw [hsymbols, Table.get_filter, hrow, Option.filter, hmeant]
    rfl

theorem mem_deleteEdges {kind : RelationshipKind} {e : Edge} :
    e ∈ (db.deleteEdges repo kind).edges ↔
      e ∈ db.edges ∧ ¬ (e.kind = kind ∧ db.repoOf e.source = some repo) := Multiset.mem_filter

theorem mem_deleteFileEdges {kind : RelationshipKind} {filepath : String} {e : Edge} :
    e ∈ (db.deleteFileEdges repo filepath kind).edges ↔
      e ∈ db.edges ∧ ¬ (e.kind = kind ∧ db.repoOf e.source = some repo ∧
        (db.symbols.get e.source).map SymbolRecord.filepath = some filepath) := Multiset.mem_filter

/-- `_clear_repo_data` deletes what it is meant to. -/
theorem cleared_clearRepoData (db : Database) (repo : String) :
    Cleared (ofRepo repo) db (clearRepoData .none repo db).2 := by
  have hrun : (clearRepoData .none repo db).2 =
      (((db.deleteEdges repo .calls).deleteEdges repo .imports).deleteEdges repo
        .inherits).deleteSymbols (ofRepo repo) := rfl
  rw [hrun]
  refine Cleared.of_deletes ?_ ?_ ?_
  · rfl
  · intro e he
    exact Multiset.mem_of_mem_filter (Multiset.mem_of_mem_filter (Multiset.mem_of_mem_filter he))
  · intro e he hgone
    have hrepo : db.repoOf e.source = some repo := by
      by_contra hne
      have hkeep (kind : RelationshipKind) : ¬ (e.kind = kind ∧ db.repoOf e.source = some repo) :=
        fun h ↦ hne h.2
      exact hgone (mem_deleteEdges.mpr ⟨mem_deleteEdges.mpr ⟨mem_deleteEdges.mpr
        ⟨he, hkeep .calls⟩, hkeep .imports⟩, hkeep .inherits⟩)
    obtain ⟨row, hrow, howner⟩ := Option.map_eq_some_iff.mp hrepo
    exact ⟨row, hrow, decide_eq_true howner⟩

/-- One file of `_clear_repo_files`. -/
theorem cleared_clearFile (db : Database) (repo filepath : String) :
    Cleared (fun row ↦ row.filepath = filepath ∧ row.repo = repo) db
      ((((db.deleteFileEdges repo filepath .calls).deleteFileEdges repo filepath
        .imports).deleteFileEdges repo filepath .inherits).deleteSymbols
          fun row ↦ row.filepath = filepath ∧ row.repo = repo) := by
  refine Cleared.of_deletes ?_ ?_ ?_
  · rfl
  · intro e he
    exact Multiset.mem_of_mem_filter (Multiset.mem_of_mem_filter (Multiset.mem_of_mem_filter he))
  · intro e he hgone
    have hfile : db.repoOf e.source = some repo ∧
        (db.symbols.get e.source).map SymbolRecord.filepath = some filepath := by
      by_contra hne
      have hkeep (kind : RelationshipKind) : ¬ (e.kind = kind ∧ db.repoOf e.source = some repo ∧
          (db.symbols.get e.source).map SymbolRecord.filepath = some filepath) := fun h ↦ hne h.2
      exact hgone (mem_deleteFileEdges.mpr ⟨mem_deleteFileEdges.mpr ⟨mem_deleteFileEdges.mpr
        ⟨he, hkeep .calls⟩, hkeep .imports⟩, hkeep .inherits⟩)
    obtain ⟨row, hrow, hpath⟩ := Option.map_eq_some_iff.mp hfile.2
    refine ⟨row, hrow, decide_eq_true ⟨hpath, ?_⟩⟩
    have hrepo := hfile.1
    rw [Database.repoOf, hrow] at hrepo
    exact Option.some.inj hrepo

/-- `_clear_repo_files` deletes what it is meant to. -/
theorem cleared_clearRepoFiles (db : Database) (repo : String) (files : List String) :
    Cleared (ofFiles repo files) db (clearRepoFiles .none repo files db).2 := by
  unfold clearRepoFiles
  generalize 0 = first
  induction files generalizing db first with
  | nil =>
    apply (Cleared.of_none db).congr
    intro row
    simp [ofFiles]
  | cons filepath rest ih =>
    have hrest := (cleared_clearFile db repo filepath).trans (ih _ (first + 1))
    apply hrest.congr
    intro row
    by_cases hpath : row.filepath = filepath
    · by_cases hrepo : row.repo = repo
      · simp [ofFiles, hpath, hrepo]
      · simp [ofFiles, hpath, hrepo]
    · simp [ofFiles, hpath]

variable {t : Tables} {scope id : String}

/-- A symbol that is left is as it was. -/
theorem Cleared.get_eq (h : Cleared gone db db') (hleft : db'.symbols.get id ≠ none) :
    db'.symbols.get id = db.symbols.get id := by
  rw [h.symbols, Table.get_filter] at hleft ⊢
  cases hrow : db.symbols.get id with
  | none => rfl
  | some row =>
    rw [hrow] at hleft
    cases hgone : gone row with
    | false => simp [Option.filter, hgone]
    | true => simp [Option.filter, hgone] at hleft

theorem Cleared.repoOf_eq (h : Cleared gone db db') (hleft : db'.symbols.get id ≠ none) :
    db'.repoOf id = db.repoOf id := congrArg (Option.map SymbolRecord.repo) (h.get_eq hleft)

theorem Cleared.nameOf_eq (h : Cleared gone t.db db') (hleft : db'.symbols.get id ≠ none) :
    (t.cleared db' gone).nameOf id = t.nameOf id :=
  congrArg (fun row ↦ (Option.map SymbolRecord.name row).getD "") (h.get_eq hleft)

theorem Tables.get_ne_none_of_nameOf (h : t.nameOf id ≠ "") : t.db.symbols.get id ≠ none := by
  intro hnone
  apply h
  rw [Tables.nameOf, hnone]
  rfl

theorem mem_getAllRepoEdges {kind : RelationshipKind} {pair : String × String} :
    pair ∈ t.getAllRepoEdges kind scope ↔ ∃ e ∈ t.db.edges, (e.kind = kind ∧
      t.db.repoOf e.source = some scope ∧ t.nameOf e.source ≠ "" ∧ t.nameOf e.target ≠ "") ∧
        (t.nameOf e.source, t.nameOf e.target) = pair := by
  unfold Tables.getAllRepoEdges
  simp only [Finset.mem_filter, Multiset.mem_toFinset, Multiset.mem_map, Multiset.mem_filter]
  constructor
  · rintro ⟨⟨e, ⟨he, hkind, hrepo⟩, rfl⟩, hsource, htarget⟩
    exact ⟨e, he, ⟨hkind, hrepo, hsource, htarget⟩, rfl⟩
  · rintro ⟨e, he, ⟨hkind, hrepo, hsource, htarget⟩, rfl⟩
    exact ⟨⟨e, ⟨he, hkind, hrepo⟩, rfl⟩, hsource, htarget⟩

/-- The ends that stay are those that the database still has. -/
theorem Cleared.keepsEnds_iff (h : Cleared gone t.db db') {edge : String × String} :
    t.keepsEnds gone edge = true ↔
      db'.symbols.get edge.1 ≠ none ∧ db'.symbols.get edge.2 ≠ none := by
  rw [Tables.keepsEnds, ← h.symbols, decide_eq_true_iff]

theorem Cleared.loadEdges_eq (h : Cleared gone t.db db')
    (huntouched : ∀ e ∈ t.db.edges, t.db.repoOf e.source = some scope → t.nameOf e.source ≠ "" →
      t.nameOf e.target ≠ "" → t.keepsEnds gone (e.source, e.target) = true) :
    (t.cleared db' gone).loadEdges scope = t.loadEdges scope := by
  funext kind
  ext pair
  simp only [Tables.loadEdges, mem_getAllRepoEdges]
  constructor
  · rintro ⟨e, he, ⟨hkind, hrepo, hsource, htarget⟩, hpair⟩
    have hsource' := Tables.get_ne_none_of_nameOf hsource
    have htarget' := Tables.get_ne_none_of_nameOf htarget
    rw [h.nameOf_eq hsource', h.nameOf_eq htarget'] at hpair
    rw [h.nameOf_eq hsource'] at hsource
    rw [h.nameOf_eq htarget'] at htarget
    exact ⟨e, h.subset e he, ⟨hkind, (h.repoOf_eq hsource').symm.trans hrepo, hsource, htarget⟩,
      hpair⟩
  · rintro ⟨e, he, ⟨hkind, hrepo, hsource, htarget⟩, hpair⟩
    have hends := h.keepsEnds_iff.mp (huntouched e he hrepo hsource htarget)
    refine ⟨e, h.kept e he hends, ⟨hkind, (h.repoOf_eq hends.1).trans hrepo, ?_, ?_⟩, ?_⟩
    · rwa [h.nameOf_eq hends.1]
    · rwa [h.nameOf_eq hends.2]
    · rwa [h.nameOf_eq hends.1, h.nameOf_eq hends.2]

theorem Cleared.getAllScopeEdges_eq (h : Cleared gone t.db db')
    (huntouched : ∀ e ∈ t.containsEdges, t.scopeEntry scope e ≠ none →
      t.keepsEnds gone e = true) :
    (t.cleared db' gone).getAllScopeEdges scope = t.getAllScopeEdges scope := by
  unfold Tables.getAllScopeEdges Tables.cleared
  rw [List.filterMap_filter]
  apply List.filterMap_congr
  intro e he
  by_cases hkeeps : t.keepsEnds gone e = true
  · obtain ⟨hchild, hparent⟩ := h.keepsEnds_iff.mp hkeeps
    have hname : (t.cleared db' gone).nameOf e.2 = t.nameOf e.2 := h.nameOf_eq hparent
    have hrow : (t.cleared db' gone).db.symbols.get e.1 = t.db.symbols.get e.1 := h.get_eq hchild
    rw [if_pos hkeeps]
    change (t.cleared db' gone).scopeEntry scope e = t.scopeEntry scope e
    rw [Tables.scopeEntry, Tables.scopeEntry, hname, hrow]
  · rw [if_neg hkeeps]
    by_contra hentry
    exact hkeeps (huntouched e he (Ne.symm hentry))

theorem Cleared.allDefinitions_eq (h : Cleared gone t.db db')
    (huntouched : ∀ row ∈ t.db.symbols.rows, row.2.kind = "definition" → row.2.repo = scope →
      gone row.2 = false) :
    (t.cleared db' gone).allDefinitions scope = t.allDefinitions scope := by
  have hrows : db'.symbols.rows = t.db.symbols.rows.filter fun row ↦ !gone row.2 := by
    rw [h.symbols]
    rfl
  unfold Tables.allDefinitions Tables.select Tables.cleared
  rw [hrows, List.filter_map, List.filter_map, List.filter_filter]
  congr 2
  apply List.filter_congr
  intro row hrow
  by_cases hdefinition : row.2.kind = "definition" ∧ row.2.repo = scope
  · simp [hdefinition, huntouched row hrow hdefinition.1 hdefinition.2]
  · simp only [Function.comp_apply, hdefinition, decide_false, Bool.false_and]

/-- What is cached stays right when no row of it is deleted. -/
theorem Caches.Current.cleared {c : Caches} (hcurrent : c.Current t) (h : Cleared gone t.db db')
    (huntouched : Untouched t gone c) : c.Current (t.cleared db' gone) where
  edges := hcurrent.edges.congr fun l hl ↦ h.loadEdges_eq (huntouched.edges l hl)
  scopes := hcurrent.scopes.congr fun l hl ↦ h.getAllScopeEdges_eq (huntouched.scopes l hl)
  defs := hcurrent.defs.congr fun l hl ↦ h.allDefinitions_eq (huntouched.defs l hl)

end Cleared

/-! ### Runs -/

section Runs

variable {x : Extraction} {iterate : Finset String → List String} {repo : String} {s : State}

/-- A call that ends in `return False` does not return true. -/
theorem fst_bind_pure_false {σ A : Type} (y : Coroutine σ A) (u : σ) :
    ((y >>= fun _ ↦ pure false) u).1 ≠ some true := by
  rw [Coroutine.bind_apply]
  match y u with
  | (some a, u') => exact fun h ↦ Bool.false_ne_true (Option.some.inj h)
  | (none, u') => exact fun h ↦ nomatch h

/-- Whether the commit is indexed is asked without a change. -/
theorem lookup_eq (commit : String) (options : BuildOptions) (db : Database) :
    (if options.force = false ∧ options.preExtractedTags.getD [] = [] then
      isCommitMarked .none repo (.commit commit) else pure false : Coroutine Database Bool) db =
        (some (decide (Skips repo commit options db)), db) := by
  unfold Skips
  split
  · next hasks =>
    unfold isCommitMarked
    split
    · next hnever =>
      have hnever' : commit = "" ∨ repo = "" := hnever
      simp [hnever']
    · next hlooks =>
      have hlooks' : ¬ (commit = "" ∨ repo = "") := hlooks
      change (some (db.hasCommit commit), db) = _
      simp [hasks, hlooks']
  · next hasks =>
    simp [hasks]

theorem buildCall_of_skips {commit : String} {tree : Tree} {options : BuildOptions} {db : Database}
    (h : Skips repo commit options db) :
    buildCall x (fun _ ↦ tree) .none repo (.commit commit) options db = (some true, db) := by
  rw [buildCall, Coroutine.bind_of_some (lookup_eq commit options db), decide_eq_true h]
  rfl

/-- A build that is not skipped does not say that it was. -/
theorem buildCall_ne_skipped {commit : String} {tree : Tree} {options : BuildOptions}
    {db : Database} (h : ¬ Skips repo commit options db) :
    (buildCall x (fun _ ↦ tree) .none repo (.commit commit) options db).1 ≠ some true := by
  rw [buildCall, Coroutine.bind_of_some (lookup_eq commit options db), decide_eq_false h]
  exact fst_bind_pure_false _ _

/-- Without a tag a build only clears. -/
theorem buildCall_of_nil {commit : String} {tree : Tree} {options : BuildOptions} {db : Database}
    (h : ¬ Skips repo commit options db) (htags : buildTags x tree options = []) :
    (buildCall x (fun _ ↦ tree) .none repo (.commit commit) options db).2 =
      (clearRepoData .none repo db).2 := by
  rw [buildCall, Coroutine.bind_of_some (lookup_eq commit options db), decide_eq_false h]
  change ((clearRepoData .none repo >>= fun _ ↦
    store x .none repo (.commit commit) (buildTags x tree options) _ >>= fun _ ↦
      pure false) db).2 = _
  rw [htags]
  rfl

theorem each_done {σ A : Type} {body : Nat → A → Coroutine σ Unit}
    (h : ∀ i a u, ∃ u', body i a u = (some (), u')) (items : List A) (first : Nat) (u : σ) :
    ∃ u', Coroutine.each body first items u = (some (), u') := by
  induction items generalizing first u with
  | nil => exact ⟨u, rfl⟩
  | cons a rest ih =>
    obtain ⟨u', hbody⟩ := h first a u
    obtain ⟨u'', hrest⟩ := ih (first + 1) u'
    exact ⟨u'', (Coroutine.bind_of_some hbody).trans hrest⟩

/-- Without a tag an incremental build only clears. -/
theorem incrementalCall_of_nil (commit : String) {tree : Tree} {changedFiles : List String}
    {db : Database} (hfiles : changedFiles ≠ [])
    (htags : x.extractTags tree (some changedFiles) = []) :
    (incrementalCall x (fun _ ↦ tree) .none repo (.commit commit) changedFiles db).2 =
      (clearRepoFiles .none repo changedFiles db).2 := by
  obtain ⟨db', hclear⟩ : ∃ db', clearRepoFiles .none repo changedFiles db = (some (), db') :=
    each_done (fun _ _ u ↦ ⟨_, rfl⟩) changedFiles 0 db
  rw [incrementalCall, if_neg hfiles, Coroutine.bind_of_some hclear, hclear]
  change ((store x .none repo (.commit commit) (x.extractTags tree (some changedFiles)) _ >>=
    fun _ ↦ pure false) db').2 = db'
  rw [htags]
  rfl

/-- A call that is in order leaves the caches right. -/
theorem current_build {commit : String} {tree : Tree} {options : BuildOptions}
    (hcurrent : s.caches.Current s.tables)
    (h : Orderly x repo s (.build commit tree options)) :
    (build x repo commit tree options s).caches.Current
      (build x repo commit tree options s).tables := by
  unfold build
  by_cases hskips : Skips repo commit options s.tables.db
  · rw [buildCall_of_skips hskips]
    exact hcurrent
  · rw [if_neg (buildCall_ne_skipped hskips)]
    by_cases htags : buildTags x tree options = []
    · rw [if_pos htags, buildCall_of_nil hskips htags]
      have huntouched := (h.resolve_left hskips).resolve_left (not_not.mpr htags)
      exact hcurrent.cleared (cleared_clearRepoData _ repo) huntouched
    · rw [if_neg htags]
      exact Caches.current_empty

theorem current_buildIncremental {commit : String} {tree : Tree} {changedFiles : List String}
    (hcurrent : s.caches.Current s.tables)
    (h : Orderly x repo s (.buildIncremental commit tree changedFiles)) :
    (buildIncremental x repo commit tree changedFiles s).caches.Current
      (buildIncremental x repo commit tree changedFiles s).tables := by
  unfold buildIncremental
  split
  · exact hcurrent
  · next hfiles =>
    by_cases htags : x.extractTags tree (some changedFiles) = []
    · have huntouched := (h.resolve_left hfiles).resolve_left (not_not.mpr htags)
      have hcleared := cleared_clearRepoFiles s.tables.db repo changedFiles
      rw [← incrementalCall_of_nil commit hfiles htags] at hcleared
      rw [if_pos htags]
      exact hcurrent.cleared hcleared huntouched
    · rw [if_neg htags]
      exact Caches.current_empty

theorem current_clearStale {staleFiles : List String} (hcurrent : s.caches.Current s.tables)
    (h : staleFiles = [] ∨ Untouched s.tables (ofFiles repo staleFiles) s.caches) :
    s.caches.Current (clearStale repo staleFiles s.tables) := by
  unfold clearStale
  split
  · exact hcurrent
  · next hfiles =>
    exact hcurrent.cleared (cleared_clearRepoFiles _ repo staleFiles) (h.resolve_left hfiles)

/-- A query that does not see the caches is answered as by a new index, and leaves them right. -/
theorem ask_of_steady {A : Type} {scope : String}
    {query : Tables → Coroutine Caches A} {answer : A → Answer} {s : State}
    (h : Coroutine.Steady (Ready s.tables scope) (query s.tables))
    (hready : Ready s.tables scope s.caches) :
    (s.ask query answer).2 = (s.fresh.ask query answer).2 ∧
      (s.ask query answer).1.caches.Current (s.ask query answer).1.tables := by
  have hfresh : Ready s.tables scope Caches.empty := ⟨Caches.current_empty, Caches.ofScope_empty⟩
  refine ⟨?_, (h.snd hready).current⟩
  exact congrArg (Option.map answer) (h.fst_eq hready hfresh)

/-- A call that is in order is answered as by a new index, and leaves the caches right. -/
theorem call_of_orderly {op : Operation} (hcurrent : s.caches.Current s.tables)
    (h : Orderly x repo s op) : Truthful x iterate repo s op ∧
      (call x iterate repo s op).1.caches.Current (call x iterate repo s op).1.tables := by
  cases op with
  | build commit tree options => exact ⟨rfl, current_build hcurrent h⟩
  | buildIncremental commit tree changedFiles =>
    exact ⟨rfl, current_buildIncremental hcurrent h⟩
  | detectChangesFromDiff diff =>
    cases diff with
    | failed stderr => exact ⟨rfl, hcurrent⟩
    | raised message => exact ⟨rfl, hcurrent⟩
    | parsed changes staleFiles =>
      let cleared : State := { s with tables := clearStale repo staleFiles s.tables }
      have hready : Ready cleared.tables repo cleared.caches :=
        ⟨current_clearStale hcurrent h.1, h.2⟩
      exact ask_of_steady (steady_detectChanges iterate (.parsed changes staleFiles)) hready
  | getImpact args asked => exact ask_of_steady (steady_getImpact iterate args) ⟨hcurrent, h⟩
  | getFileOverview filePath asked =>
    exact ask_of_steady (steady_getFileOverview filePath) ⟨hcurrent, h⟩
  | traceFlow args asked =>
    by_cases hentry : (entryDefinitions s.tables args (scopeOf repo asked)).length = 1
    · exact ask_of_steady (steady_traceFlow args) ⟨hcurrent, h hentry⟩
    · obtain ⟨result, hresult⟩ := traceFlow_of_unresolved hentry
      have hask (c : Caches) : ({ s with caches := c } : State).ask
          (traceFlow · args (scopeOf repo asked)) .flow =
            ({ s with caches := c }, result.map .flow) := by
        simp only [State.ask, hresult]
      refine ⟨?_, ?_⟩
      · exact (congrArg Prod.snd (hask s.caches)).trans (congrArg Prod.snd (hask .empty)).symm
      · exact (congrArg Prod.fst (hask s.caches)).symm ▸ hcurrent

/-- In a run whose calls are in order every call is answered as by a new index. -/
theorem truthful_of_orderly (h : (system x iterate repo).ReachWhen (Orderly x repo) s)
    {op : Operation} (hop : Orderly x repo s op) : Truthful x iterate repo s op := by
  have hcurrent : s.caches.Current s.tables := by
    refine h.invariant (P := fun t ↦ t.caches.Current t.tables) ?_ ?_
    · intro t ht
      have hempty : t.caches = .empty := ht
      rw [hempty]
      exact Caches.current_empty
    · intro t op t' ht hop hstep
      obtain rfl : (call x iterate repo t op).1 = t' := Option.some.inj hstep
      exact (call_of_orderly ht hop).2
  exact (call_of_orderly hcurrent hop).1

end Runs

/-! ### Two classes -/

def classRow (name filepath : String) : Row where
  name
  kind := "definition"
  category := "class"
  filepath
  line := 1
  endLine := 3
  language := "python"
  repo := "r"
  embedding := none
  content := ""

/-- A class of `a.py` that inherits from one of `b.py`. -/
def twoClasses : State where
  tables :=
    { db :=
        { symbols := Table.empty.upsertAll
            [("1", classRow "Child" "a.py"), ("2", classRow "Parent" "b.py")]
          edges := {⟨.inherits, "1", "2", 1⟩}
          commits := .empty }
      containsEdges := [] }
  caches := .empty

/-- How many parents the classes of an overview have. -/
def parents : Option Answer → List Nat
  | some (.overview answer) => answer.classes.map fun c ↦ c.inheritsFrom.length
  | _ => []

/-- After an overview. -/
def shownState : State :=
  (call exampleExtraction sorted "r" twoClasses (.getFileOverview "a.py" none)).1

/-- A second overview, for the same repository, is in order. -/
theorem truthful_shownState :
    Truthful exampleExtraction sorted "r" shownState (.getFileOverview "b.py" (some "r")) := by
  have hinit : (system exampleExtraction sorted "r").ReachWhen (Orderly exampleExtraction "r")
      twoClasses := .init rfl
  have hshown : (system exampleExtraction sorted "r").ReachWhen (Orderly exampleExtraction "r")
      shownState :=
    hinit.step (.getFileOverview "a.py" none) Caches.ofScope_empty rfl
  apply truthful_of_orderly hshown
  refine ⟨?_, ?_, nofun⟩
  · rintro l ⟨⟩
    rfl
  · rintro l ⟨⟩
    rfl

/-- Then a build of the file that has lost its tags. -/
def staleState : State :=
  (call exampleExtraction sorted "r" shownState
    (.buildIncremental "c" ⟨[], List.nodup_nil⟩ ["b.py"])).1

theorem parents_ask (s : State) (filePath scope : String) :
    parents (s.ask (getFileOverview · filePath scope) .overview).2 =
      (dedupBy id [] (((fileDefinitions s.tables filePath none none scope).filter
        (·.category = "class")).map FoundTag.name)).map fun name ↦
          (targets ((loadOnce s.tables.loadEdges scope s.caches.edges).value .inherits)
            name).card := by
  change List.map _ (List.map _ _) = _
  rw [List.map_map]
  apply List.map_congr_left
  intro name _
  exact Finset.length_sort _

/-- The overview still names a parent that is gone. -/
theorem not_truthful : ¬ ∀ s, (system exampleExtraction sorted "r").Reach s →
    ∀ op, Truthful exampleExtraction sorted "r" s op := by
  intro h
  have hinit : (system exampleExtraction sorted "r").Reach twoClasses := .init rfl
  have hshown := hinit.step (.getFileOverview "a.py" none) trivial rfl
  have hreach : (system exampleExtraction sorted "r").Reach staleState :=
    hshown.step (.buildIncremental "c" ⟨[], List.nodup_nil⟩ ["b.py"]) trivial rfl
  have hsame := congrArg parents (h staleState hreach (.getFileOverview "a.py" none))
  have hstale : parents (call exampleExtraction sorted "r" staleState
      (.getFileOverview "a.py" none)).2 = [1] := by
    refine (parents_ask _ _ _).trans ?_
    decide +kernel
  have hfresh : parents (call exampleExtraction sorted "r" staleState.fresh
      (.getFileOverview "a.py" none)).2 = [0] := by
    refine (parents_ask _ _ _).trans ?_
    decide +kernel
  rw [hstale, hfresh] at hsame
  cases hsame

end GithubAgent.Indexing.SymbolIndex
