import GithubAgent.Indexing.Caches
import GithubAgent.Indexing.Extractor
import GithubAgent.Indexing.Ranges
import GithubAgent.Indexing.Skip
import Mathlib.Tactic.ByContra

/-!
# The relations of a file

What `get_file_overview` and `get_impact` say about the imports of a file, its importers and the
methods of its classes, compared with what the files say. The edges are stored between symbols and
read by their names, and both queries look the path of the file up among these names.
-/

namespace GithubAgent.Indexing.SymbolIndex

open GithubAgent.Base

/-! ### What the files say -/

/-- A module or name that a file imports: the file of its module, and the definition around the
statement, which is missing at module level. -/
structure ImportedName where
  name : String
  file : Option String
  enclosing : Option String

/-- Who imports: the definition around the statement, or else the file. -/
def ImportedName.importer (i : ImportedName) (path : String) : String := i.enclosing.getD path

/-- What a file says by the rules of its language, whether a query captures it or not: its imports,
and its methods with their classes. -/
structure FileContents where
  imports : List ImportedName
  methods : List (String × String)

section Statements

variable (x : Extraction) (repo : String) (tree : Tree) (contents : String → FileContents)

/-- The definitions of the tree. -/
def treeDefinitions : List (String × Row) := definitions (tagTable x repo tree)

/-- The definition that a name resolves to: one in the file of its module, or the first of that
name (`code_graph.py:1387-1391`). -/
def targetOf (defs : List (String × Row)) (name : String) (file : Option String) :
    Option (String × Row) :=
  ((file.filter (· ≠ "")).bind (byNameFile defs name)).or (byNameOnly defs name)

/-- The definition that an import resolves to. -/
def ImportedName.target (i : ImportedName) : Option (String × Row) :=
  targetOf (treeDefinitions x repo tree) i.name i.file

/-- The classes of a file. -/
def classesOf (path : String) : List String :=
  (((tagTable x repo tree).rows.map Prod.snd).filter fun row ↦
    row.filepath = path ∧ row.kind = "definition" ∧ row.category = "class").map SymbolRecord.name

/-- The imports that are required of an answer about the file. -/
def ListsImports (path : String) (listed : List String) : Prop :=
  ∀ i ∈ (contents path).imports, i.target x repo tree ≠ none → i.name ∈ listed

/-- The importers that are required: those outside the file of what it defines. -/
def ListsImporters (path : String) (listed : List String) : Prop :=
  ∀ other ∈ x.sourceFiles tree, other ≠ path → ∀ i ∈ (contents other).imports,
    ∀ row, i.target x repo tree = some row → row.2.filepath = path → i.importer other ∈ listed

/-- Each class of the file has exactly its methods. -/
def ListsMethods (path : String) (classes : List ClassInfo) : Prop :=
  ∀ name ∈ classesOf x repo tree path, ∃ info ∈ classes, info.name = name ∧
    ∀ method, method ∈ info.methods ↔ (name, method) ∈ (contents path).methods

/-- The answers about the file report its relations. -/
structure ReportsRelations (iterate : Finset String → List String) (s : State) (path : String) :
    Prop where
  overview : ∃ answer, (call x iterate repo s (.getFileOverview path none)).2 =
      some (.overview answer) ∧
    ListsImports x repo tree contents path answer.imports ∧
    ListsImporters x repo tree contents path answer.importedBy ∧
    ListsMethods x repo tree contents path answer.classes
  impact : ∀ args : ImpactArgs, args.filePath = path →
    ∃ answer, (call x iterate repo s (.getImpact args none)).2 = some (.impact answer) ∧
      ListsImporters x repo tree contents path answer.importedBy

/-- A definition with the first name imports the second, as far as the extractor finds it. -/
def Links (source target : String) : Prop :=
  ∃ r ∈ x.extractRelationships tree none, r.kind = .imports ∧ r.sourceName = source ∧
    r.targetName = target ∧ resolve (treeDefinitions x repo tree) r ≠ none

/-- What is required is linked with a definition that has the path of the file as its name, and no
class has a method. -/
structure LinkedByPath (path : String) : Prop where
  imports : ∀ i ∈ (contents path).imports, i.target x repo tree ≠ none →
    Links x repo tree path i.name
  importers : ∀ other ∈ x.sourceFiles tree, other ≠ path → ∀ i ∈ (contents other).imports,
    ∀ row, i.target x repo tree = some row → row.2.filepath = path →
      Links x repo tree (i.importer other) path
  methods : ∀ name ∈ classesOf x repo tree path, ∀ method,
    (name, method) ∉ (contents path).methods

/-- There is nothing to report: no import of the file resolves, nothing outside imports what it
defines, and no class has a method. -/
structure Unrelated (path : String) : Prop where
  imports : ∀ i ∈ (contents path).imports, i.target x repo tree = none
  importers : ∀ other ∈ x.sourceFiles tree, other ≠ path → ∀ i ∈ (contents other).imports,
    ∀ row, i.target x repo tree = some row → row.2.filepath ≠ path
  methods : ∀ name ∈ classesOf x repo tree path, ∀ method,
    (name, method) ∉ (contents path).methods

end Statements

/-! ### The edges under a name -/

section Edges

variable {x : Extraction} {repo : String} {tree : Tree} {t : Tables}

theorem name_ne_of_mem_definitions {symbols : Table String Row} {row : String × Row}
    (h : row ∈ definitions symbols) : row.2.name ≠ "" :=
  (of_decide_eq_true (List.mem_filter.mp h).2).2

theorem mem_of_targetOf {defs : List (String × Row)} {name : String} {file : Option String}
    {row : String × Row} (h : targetOf defs name file = some row) :
    row ∈ defs ∧ row.2.name = name := by
  rcases Option.or_eq_some_iff.mp h with h | ⟨-, h⟩
  · obtain ⟨path, -, h⟩ := Option.bind_eq_some_iff.mp h
    obtain ⟨hmem, hname, -⟩ := mem_of_byNameFile h
    exact ⟨hmem, hname⟩
  · exact mem_of_byNameOnly h

/-- The ends of a resolved relationship are definitions with its names. -/
theorem ends_of_resolve {defs : List (String × Row)} {r : Relationship}
    {ends : (String × Row) × (String × Row)} (h : resolve defs r = some ends) :
    (ends.1 ∈ defs ∧ ends.1.2.name = r.sourceName) ∧
      ends.2 ∈ defs ∧ ends.2.2.name = r.targetName := by
  unfold resolve at h
  obtain ⟨source, hsource, h⟩ := Option.bind_eq_some_iff.mp h
  obtain ⟨target, htarget, h⟩ := Option.bind_eq_some_iff.mp h
  split at h
  · cases h
  · cases h
    obtain ⟨hmem, hname, -⟩ := mem_of_byNameFile hsource
    exact ⟨⟨hmem, hname⟩, mem_of_targetOf htarget⟩

/-- Once the tables hold the graph of the tree, the pairs of names that import are its links. -/
theorem mem_imports_iff (h : t.db.view repo = graph x repo tree) {pair : String × String} :
    pair ∈ t.loadEdges repo .imports ↔ Links x repo tree pair.1 pair.2 := by
  have hname {row : String × Row} (hrow : row ∈ treeDefinitions x repo tree) :
      t.nameOf row.1 = row.2.name := by
    have hget : (t.db.view repo).symbols.get row.1 = some row.2 := by
      rw [h]
      exact Table.mem_rows_iff.mp (List.mem_filter.mp hrow).1
    rw [Database.get_view] at hget
    rw [Tables.nameOf, (Option.filter_eq_some_iff.mp hget).1]
    rfl
  have hedge {e : Edge} : e ∈ t.db.edges ∧ t.db.repoOf e.source = some repo ↔
      e ∈ treeEdges x repo tree := by
    have hedges : (t.db.view repo).edges = (treeEdges x repo tree : List Edge) := by rw [h]; rfl
    rw [← Multiset.mem_coe, ← hedges, Database.view, Multiset.mem_filter]
  rw [Tables.loadEdges, mem_getAllRepoEdges]
  constructor
  · rintro ⟨e, he, ⟨hkind, hrepo, -, -⟩, rfl⟩
    obtain ⟨r, hr, hresolved⟩ := List.mem_filterMap.mp (hedge.mp ⟨he, hrepo⟩)
    obtain ⟨ends, hends, rfl⟩ := Option.map_eq_some_iff.mp hresolved
    obtain ⟨⟨hsource, hsname⟩, htarget, htname⟩ := ends_of_resolve hends
    refine ⟨r, hr, hkind, ?_, ?_, Option.ne_none_iff_exists'.mpr ⟨ends, hends⟩⟩
    · exact hsname.symm.trans (hname hsource).symm
    · exact htname.symm.trans (hname htarget).symm
  · rintro ⟨r, hr, hkind, hs, ht, hresolve⟩
    obtain ⟨ends, hends⟩ := Option.ne_none_iff_exists'.mp hresolve
    obtain ⟨⟨hsource, hsname⟩, htarget, htname⟩ := ends_of_resolve hends
    have hmem : edgeOf r ends ∈ treeEdges x repo tree :=
      List.mem_filterMap.mpr ⟨r, hr, Option.map_eq_some_iff.mpr ⟨ends, hends, rfl⟩⟩
    obtain ⟨he, hrepo⟩ := hedge.mpr hmem
    have hsource' : t.nameOf (edgeOf r ends).source = ends.1.2.name := hname hsource
    have htarget' : t.nameOf (edgeOf r ends).target = ends.2.2.name := hname htarget
    refine ⟨_, he, ⟨hkind, hrepo, ?_, ?_⟩, ?_⟩
    · rw [hsource']
      exact name_ne_of_mem_definitions hsource
    · rw [htarget']
      exact name_ne_of_mem_definitions htarget
    · rw [hsource', htarget', hsname, htname, hs, ht]

/-- A link needs a definition of its first name, and one of its second. -/
theorem Links.exists_definitions {a b : String} (h : Links x repo tree a b) :
    (∃ row ∈ treeDefinitions x repo tree, row.2.name = a) ∧
      ∃ row ∈ treeDefinitions x repo tree, row.2.name = b := by
  obtain ⟨r, -, -, rfl, rfl, hresolve⟩ := h
  obtain ⟨ends, hends⟩ := Option.ne_none_iff_exists'.mp hresolve
  obtain ⟨hsource, htarget⟩ := ends_of_resolve hends
  exact ⟨⟨_, hsource⟩, _, htarget⟩

end Edges

/-! ### The tables after a build -/

section Built

variable {x : Extraction} {repo commit : String} {force : Bool} {s : State}

/-- A build that is not skipped leaves the graph of its tree, and the symbols of the other
repositories as they were. -/
theorem tables_build (tree : Tree) (hclosed : s.tables.db.Closed)
    (hown : s.tables.db.Own repo (tagRows x.digest repo (x.extractTags tree none)))
    (hskips : ¬ Skips repo commit { force } s.tables.db) :
    (build x repo commit tree { force } s).tables.db.view repo = graph x repo tree ∧
      ∀ other ≠ repo,
        (build x repo commit tree { force } s).tables.db.view other = s.tables.db.view other := by
  let c : Call := ⟨repo, .commit commit, .inl { force }⟩
  have hspec := @spec_run x (fun _ ↦ tree) c .none s.tables.db hclosed hown s.tables.db rfl
  have hnever : (buildCall x (fun _ ↦ tree) .none repo (.commit commit) { force }
      s.tables.db).1 ≠ some true := buildCall_ne_skipped hskips
  have htables : (build x repo commit tree { force } s).tables.db =
      (c.run x (fun _ ↦ tree) .none s.tables.db).2 := by
    rw [build, if_neg hnever]
    rfl
  have hrun : c.run x (fun _ ↦ tree) .none s.tables.db =
      buildCall x (fun _ ↦ tree) .none repo (.commit commit) { force } s.tables.db := rfl
  rw [htables]
  rw [← hrun] at hnever
  split at hspec <;> rename_i hresult <;> rw [hresult] at hnever ⊢
  · split at hspec
    · next hskipped => exact absurd (congrArg some hskipped) hnever
    · obtain ⟨done, hframed, hview, rfl⟩ := hspec
      have hstored := hview ⟨fun h ↦ (nomatch h), fun _ ↦ stores_none x repo _ _ _⟩
      have hmark (other : String) : (if Marks .none c.repo c.head (c.tags x fun _ ↦ tree) then
          done.mark ⟨c.repo, c.head⟩ else done).view other = done.view other := by
        split <;> rfl
      refine ⟨?_, fun other hother ↦ ?_⟩
      · rw [hmark]
        exact hstored.trans (stored_eq_graph x repo tree)
      · rw [hmark]
        exact hframed.others other hother
  · obtain ⟨-, place, hcut⟩ := hspec
    exact nomatch hcut

/-- Nothing that a build leaves in `contains_edge` is of its repository. -/
theorem getAllScopeEdges_build (tree : Tree) (hclosed : s.tables.db.Closed)
    (hown : s.tables.db.Own repo (tagRows x.digest repo (x.extractTags tree none)))
    (hskips : ¬ Skips repo commit { force } s.tables.db) :
    (build x repo commit tree { force } s).tables.getAllScopeEdges repo = [] := by
  have hothers := (tables_build tree hclosed hown hskips).2
  have hcontains : (build x repo commit tree { force } s).tables.containsEdges =
      s.tables.containsEdges.filter (s.tables.keepsEnds (ofRepo repo)) := by
    rw [build, if_neg (buildCall_ne_skipped hskips)]
    rfl
  rw [Tables.getAllScopeEdges, hcontains, List.filterMap_eq_nil_iff]
  intro e he
  -- The child was kept, so it is of another repository, whose symbols the build leaves alone.
  have hchild := (of_decide_eq_true (List.mem_filter.mp he).2).1
  obtain ⟨row, hrow⟩ := Option.ne_none_iff_exists'.mp hchild
  rw [Table.get_filter, Option.filter_eq_some_iff] at hrow
  have hrepo : row.repo ≠ repo := by
    intro heq
    rw [ofRepo, decide_eq_true heq] at hrow
    exact nomatch hrow.2
  have hview : ((build x repo commit tree { force } s).tables.db.view row.repo).symbols.get e.1 =
      some row := by
    rw [hothers _ hrepo, Database.get_view, hrow.1]
    simp [Option.filter]
  rw [Database.get_view] at hview
  rw [Tables.scopeEntry, (Option.filter_eq_some_iff.mp hview).1]
  exact if_neg fun h ↦ hrepo h.1

end Built

/-! ### The answers -/

section Answers

variable {x : Extraction} {repo : String} {tree : Tree} {t : Tables} {path : String}
  {contents : String → FileContents}

theorem mem_targets {pairs : Finset (String × String)} {a b : String} :
    b ∈ targets pairs a ↔ (a, b) ∈ pairs := by
  simp [targets]

theorem mem_sources {pairs : Finset (String × String)} {a b : String} :
    a ∈ sources pairs b ↔ (a, b) ∈ pairs := by
  simp [sources]

/-- The classes of the answer are those of the tree. -/
theorem mem_classNames_iff (h : t.db.view repo = graph x repo tree) {name : String} :
    name ∈ ((fileDefinitions t path none none repo).filter (·.category = "class")).map
      FoundTag.name ↔ name ∈ classesOf x repo tree path := by
  have hrows : (tagTable x repo tree).rows = t.db.symbols.rows.filter (·.2.repo = repo) := by
    have hsymbols := congrArg (fun v ↦ v.symbols.rows) h
    exact hsymbols.symm
  unfold classesOf fileDefinitions Tables.select
  rw [hrows]
  simp only [List.mem_map, List.mem_filter, decide_eq_true_iff]
  constructor
  · rintro ⟨_, ⟨⟨_, ⟨⟨row, hrow, rfl⟩, hpath, hkind, hrepo, -⟩, rfl⟩, hclass⟩, rfl⟩
    exact ⟨row.2, ⟨⟨row, ⟨hrow, hrepo⟩, rfl⟩, hpath, hkind, hclass⟩, rfl⟩
  · rintro ⟨_, ⟨⟨row, ⟨hrow, hrepo⟩, rfl⟩, hpath, hkind, hclass⟩, rfl⟩
    exact ⟨_, ⟨⟨row.2, ⟨⟨row, hrow, rfl⟩, hpath, hkind, hrepo, rfl⟩, rfl⟩, hclass⟩, rfl⟩

/-- `get_file_overview` always returns; without scopes its classes have no methods. -/
theorem exists_getFileOverview (h : t.db.view repo = graph x repo tree) (path : String)
    (caches : Caches) :
    ∃ answer, (getFileOverview t path repo caches).1 = some answer ∧
      answer.imports =
        sorted (targets ((loadOnce t.loadEdges repo caches.edges).value .imports) path) ∧
      answer.importedBy =
        sorted (sources ((loadOnce t.loadEdges repo caches.edges).value .imports) path) ∧
      (∀ name, name ∈ answer.classes.map ClassInfo.name ↔ name ∈ classesOf x repo tree path) ∧
      ((loadOnce t.getAllScopeEdges repo caches.scopes).value = [] →
        ∀ info ∈ answer.classes, info.methods = []) := by
  refine ⟨_, rfl, rfl, rfl, ?_, ?_⟩
  · intro name
    dsimp only
    rw [List.map_map, ← mem_classNames_iff h]
    refine (Iff.of_eq (congrArg (name ∈ ·) (List.map_id _))).trans ⟨mem_of_mem_dedupBy, ?_⟩
    intro hname
    have hkept : ∃ b ∈ dedupBy id [] (((fileDefinitions t path none none repo).filter
        (·.category = "class")).map FoundTag.name), id b = id name :=
      exists_mem_dedupBy hname List.not_mem_nil
    obtain ⟨b, hb, rfl⟩ := hkept
    exact hb
  · intro hscopes info hinfo
    obtain ⟨name, -, rfl⟩ := List.mem_map.mp hinfo
    dsimp only
    rw [hscopes, List.map_eq_nil_iff, List.filter_eq_nil_iff]
    intro d _
    simp [dictGet]

theorem listsImports_iff (h : t.db.view repo = graph x repo tree) :
    ListsImports x repo tree contents path (sorted (targets (t.loadEdges repo .imports) path)) ↔
      ∀ i ∈ (contents path).imports, i.target x repo tree ≠ none →
        Links x repo tree path i.name := by
  unfold ListsImports
  simp only [mem_sorted, mem_targets, mem_imports_iff h]

theorem listsImporters_iff (h : t.db.view repo = graph x repo tree) :
    ListsImporters x repo tree contents path (sorted (sources (t.loadEdges repo .imports) path)) ↔
      ∀ other ∈ x.sourceFiles tree, other ≠ path → ∀ i ∈ (contents other).imports,
        ∀ row, i.target x repo tree = some row → row.2.filepath = path →
          Links x repo tree (i.importer other) path := by
  unfold ListsImporters
  simp only [mem_sorted, mem_sources, mem_imports_iff h]

/-- Classes without methods are right where the files have none. -/
theorem listsMethods_iff {classes : List ClassInfo}
    (hnames : ∀ name, name ∈ classes.map ClassInfo.name ↔ name ∈ classesOf x repo tree path)
    (hmethods : ∀ info ∈ classes, info.methods = []) :
    ListsMethods x repo tree contents path classes ↔
      ∀ name ∈ classesOf x repo tree path, ∀ method, (name, method) ∉ (contents path).methods := by
  constructor
  · intro hlists name hname method hmethod
    obtain ⟨info, hinfo, -, hiff⟩ := hlists name hname
    have hmem := (hiff method).mpr hmethod
    rw [hmethods info hinfo] at hmem
    cases hmem
  · intro hnone name hname
    obtain ⟨info, hinfo, rfl⟩ := List.mem_map.mp ((hnames name).mpr hname)
    refine ⟨info, hinfo, rfl, fun method ↦ ⟨fun hmem ↦ ?_, fun hmem ↦ ?_⟩⟩
    · rw [hmethods info hinfo] at hmem
      cases hmem
    · exact absurd hmem (hnone info.name hname method)

end Answers

/-! ### What is reported -/

section Reported

variable {x : Extraction} {repo commit : String} {tree : Tree} {force : Bool} {s : State}
  {path : String} {contents : String → FileContents} {iterate : Finset String → List String}

/-- What a query returns is answered. -/
theorem ask_of_some {A : Type} (query : Tables → Coroutine Caches A) {answer : A → Answer} {a : A}
    (h : (query s.tables s.caches).1 = some a) : (s.ask query answer).2 = some (answer a) :=
  congrArg (Option.map answer) h

/-- After a build that has found tags nothing is cached. -/
theorem caches_build (hskips : ¬ Skips repo commit { force } s.tables.db)
    (htags : x.extractTags tree none ≠ []) :
    (build x repo commit tree { force } s).caches = .empty := by
  rw [build, if_neg (buildCall_ne_skipped hskips)]
  exact if_neg htags

section Answered

variable (hclosed : s.tables.db.Closed)
  (hown : s.tables.db.Own repo (tagRows x.digest repo (x.extractTags tree none)))
  (hskips : ¬ Skips repo commit { force } s.tables.db) (htags : x.extractTags tree none ≠ [])

include hclosed hown hskips htags

/-- The overview reports what is linked with the path of the file. -/
theorem overview_iff :
    (∃ answer, (call x iterate repo (build x repo commit tree { force } s)
        (.getFileOverview path none)).2 = some (.overview answer) ∧
      ListsImports x repo tree contents path answer.imports ∧
      ListsImporters x repo tree contents path answer.importedBy ∧
      ListsMethods x repo tree contents path answer.classes) ↔
      LinkedByPath x repo tree contents path := by
  have hview := (tables_build tree hclosed hown hskips).1
  have hscopes := getAllScopeEdges_build tree hclosed hown hskips
  obtain ⟨answer, hanswer, himports, himporters, hnames, hmethods⟩ :=
    exists_getFileOverview hview path (build x repo commit tree { force } s).caches
  rw [caches_build hskips htags] at himports himporters hmethods
  have hcall : (call x iterate repo (build x repo commit tree { force } s)
      (.getFileOverview path none)).2 = some (.overview answer) :=
    ask_of_some (getFileOverview · path repo) hanswer
  have hlinked : (ListsImports x repo tree contents path answer.imports ∧
      ListsImporters x repo tree contents path answer.importedBy ∧
      ListsMethods x repo tree contents path answer.classes) ↔
        LinkedByPath x repo tree contents path := by
    rw [himports, himporters]
    refine (and_congr (listsImports_iff hview) (and_congr (listsImporters_iff hview)
      (listsMethods_iff hnames (hmethods hscopes)))).trans ?_
    exact ⟨fun h ↦ ⟨h.1, h.2.1, h.2.2⟩, fun h ↦ ⟨h.imports, h.importers, h.methods⟩⟩
  rw [← hlinked]
  constructor
  · rintro ⟨answer', hanswer', hlists⟩
    rw [hcall] at hanswer'
    cases hanswer'
    exact hlists
  · exact fun hlists ↦ ⟨answer, hcall, hlists⟩

/-- So does the impact, of the importers. -/
theorem impact_of_linked (h : LinkedByPath x repo tree contents path) {args : ImpactArgs}
    (hargs : args.filePath = path) :
    ∃ answer, (call x iterate repo (build x repo commit tree { force } s)
        (.getImpact args none)).2 = some (.impact answer) ∧
      ListsImporters x repo tree contents path answer.importedBy := by
  have hview := (tables_build tree hclosed hown hskips).1
  obtain ⟨answer, hanswer, -, himporters⟩ :=
    exists_getImpact (build x repo commit tree { force } s).tables iterate args repo
      (build x repo commit tree { force } s).caches
  rw [caches_build hskips htags, hargs] at himporters
  refine ⟨answer, ask_of_some (getImpact · iterate args repo) hanswer, ?_⟩
  rw [himporters]
  exact (listsImporters_iff hview).mpr h.importers

end Answered

/-- Where no tag is found, there is nothing to report. -/
theorem target_of_nil (htags : x.extractTags tree none = []) (i : ImportedName) :
    i.target x repo tree = none := by
  have htable : tagTable x repo tree = .empty := by
    rw [tagTable, htags]
    rfl
  rw [ImportedName.target, treeDefinitions, htable]
  cases i.file with
  | none => rfl
  | some file =>
    by_cases hfile : file = ""
    · simp [targetOf, hfile, definitions, Table.empty, byNameOnly, Option.filter]
    · simp [targetOf, hfile, definitions, Table.empty, byNameOnly, byNameFile, Option.filter]

theorem classesOf_of_nil (htags : x.extractTags tree none = []) :
    classesOf x repo tree path = [] := by
  rw [classesOf, tagTable, htags]
  rfl

theorem linkedByPath_of_nil (htags : x.extractTags tree none = []) :
    LinkedByPath x repo tree contents path where
  imports i _ htarget := absurd (target_of_nil htags i) htarget
  importers _ _ _ i _ row htarget _ := by
    rw [target_of_nil htags i] at htarget
    cases htarget
  methods name hname := by
    rw [classesOf_of_nil htags] at hname
    cases hname

/-- Whatever is cached, the answers then report all there is. -/
theorem reportsRelations_of_nil (htags : x.extractTags tree none = []) (s : State) :
    ReportsRelations x repo tree contents iterate s path where
  overview := by
    obtain ⟨answer, hanswer⟩ :
        ∃ answer, (getFileOverview s.tables path repo s.caches).1 = some answer := ⟨_, rfl⟩
    refine ⟨answer, ask_of_some (getFileOverview · path repo) hanswer, ?_, ?_, ?_⟩
    · exact fun i _ htarget ↦ absurd (target_of_nil htags i) htarget
    · intro _ _ _ i _ row htarget
      rw [target_of_nil htags i] at htarget
      cases htarget
    · intro name hname
      rw [classesOf_of_nil htags] at hname
      cases hname
  impact args _ := by
    obtain ⟨answer, hanswer, -⟩ := exists_getImpact s.tables iterate args repo s.caches
    refine ⟨answer, ask_of_some (getImpact · iterate args repo) hanswer, ?_⟩
    intro _ _ _ i _ row htarget
    rw [target_of_nil htags i] at htarget
    cases htarget

/-- A path that is no definition's name is linked with nothing. -/
theorem linkedByPath_iff_of_unnamed (h : ∀ row ∈ treeDefinitions x repo tree, row.2.name ≠ path) :
    LinkedByPath x repo tree contents path ↔ Unrelated x repo tree contents path := by
  have hnever (a b : String) : Links x repo tree a b → a ≠ path ∧ b ≠ path := by
    intro hlinks
    obtain ⟨⟨row, hrow, rfl⟩, row', hrow', rfl⟩ := hlinks.exists_definitions
    exact ⟨h row hrow, h row' hrow'⟩
  constructor
  · intro hlinked
    refine ⟨fun i hi ↦ ?_, fun other hother hne i hi row htarget hpath ↦ ?_, hlinked.methods⟩
    · by_contra htarget
      exact (hnever _ _ (hlinked.imports i hi htarget)).1 rfl
    · exact (hnever _ _ (hlinked.importers other hother hne i hi row htarget hpath)).2 rfl
  · intro hunrelated
    refine ⟨fun i hi htarget ↦ ?_, fun other hother hne i hi row htarget hpath ↦ ?_,
      hunrelated.methods⟩
    · exact absurd (hunrelated.imports i hi) htarget
    · exact absurd hpath (hunrelated.importers other hother hne i hi row htarget)

/-- A link starts at a definition that an import is found in, or is from a name to itself. -/
theorem Links.source_found {p : Frontend} {a b : String}
    (h : Links (p.extraction x) repo tree a b) :
    a = b ∨ ∃ file content parsed, p.parse file content = some parsed ∧
      ∃ d ∈ buildDefinitionMap parsed, d.name = a := by
  obtain ⟨r, hr, hkind, rfl, rfl, -⟩ := h
  obtain ⟨file, -, hr⟩ := List.mem_flatMap.mp hr
  obtain ⟨content, hr⟩ := exists_of_mem_elim hr
  have hparsed : r ∈ (p.parse file content).elim []
      (extractFile file (p.resolveModule tree file)) := hr
  cases hparse : p.parse file content with
  | none =>
    rw [hparse] at hparsed
    cases hparsed
  | some parsed =>
    rw [hparse] at hparsed
    rcases sourceName_of_imports hparsed hkind with hfound | hself
    · exact .inr ⟨file, content, parsed, hparse, hfound⟩
    · exact .inl hself

/-- The answers about a file report its relations exactly when each of them is linked with a
definition that is called like the file, and its classes have no methods. -/
theorem reportsRelations_iff (p : Frontend) (x : Extraction) (iterate : Finset String → List String)
    {repo commit : String} {tree : Tree} {force : Bool} {s : State}
    (contents : String → FileContents) (path : String) (hclosed : s.tables.db.Closed)
    (hown : s.tables.db.Own repo (tagRows x.digest repo (x.extractTags tree none)))
    (hskips : ¬ Skips repo commit { force } s.tables.db) :
    ReportsRelations (p.extraction x) repo tree contents iterate
        (build (p.extraction x) repo commit tree { force } s) path ↔
      LinkedByPath (p.extraction x) repo tree contents path := by
  have hown' : s.tables.db.Own repo (tagRows (p.extraction x).digest repo
      ((p.extraction x).extractTags tree none)) := hown
  by_cases htags : (p.extraction x).extractTags tree none = []
  · exact iff_of_true (reportsRelations_of_nil htags _) (linkedByPath_of_nil htags)
  · constructor
    · intro h
      exact (overview_iff hclosed hown' hskips htags).mp h.overview
    · intro h
      refine ⟨(overview_iff hclosed hown' hskips htags).mpr h, ?_⟩
      intro args hargs
      exact impact_of_linked hclosed hown' hskips htags h hargs

end Reported

/-! ### A class and its user -/

def libText : String := "class Store:\n    def get(self):\n        pass\n"

def appText : String := "def main():\n    from lib import Store\n    return Store()\n"

/-- A class with a method in `lib.py`, as far as its tree holds definitions. -/
def libFile : ParsedFile where
  root := .node "module" ⟨0, 45, 1, libText⟩ none
    [.node "class_definition" ⟨0, 44, 1, "class Store"⟩ (some "Store")
      [.node "function_definition" ⟨17, 44, 2, "def get"⟩ (some "get") []]]
  definableTypes := ["function_definition", "class_definition"]
  definitionQueries :=
    [⟨[⟨6, 11, 1, "Store"⟩], [⟨0, 44, 1, "class Store"⟩]⟩,
      ⟨[⟨21, 24, 2, "get"⟩], [⟨17, 44, 2, "def get"⟩]⟩]
  callQueries := []
  importQueries := []
  inheritanceQueries := []

/-- A function in `app.py` that imports the class. -/
def appFile : ParsedFile where
  root := .node "module" ⟨0, 57, 1, appText⟩ none
    [.node "function_definition" ⟨0, 56, 1, "def main"⟩ (some "main") []]
  definableTypes := ["function_definition", "class_definition"]
  definitionQueries := [⟨[⟨4, 8, 1, "main"⟩], [⟨0, 56, 1, "def main"⟩]⟩]
  callQueries := [⟨[⟨49, 54, 3, "Store"⟩], [⟨49, 56, 3, "Store()"⟩]⟩]
  importQueries :=
    [(.importFromModule, ⟨[⟨21, 24, 2, "lib"⟩], [⟨16, 37, 2, "from lib import Store"⟩]⟩),
      (.importFromName, ⟨[⟨32, 37, 2, "Store"⟩], [⟨16, 37, 2, "from lib import Store"⟩]⟩)]
  inheritanceQueries := []

def storeFrontend : Frontend where
  parse path _ :=
    if path = "lib.py" then some libFile else if path = "app.py" then some appFile else none
  resolveModule _ _ name := if name = "lib" then some "lib.py" else none

/-- The tags of the two files. -/
def storeTags (path : String) : List Tag :=
  if path = "lib.py" then
    [⟨path, "Store", .definition, 1, "class", 3⟩, ⟨path, "get", .definition, 2, "function", 3⟩,
      ⟨path, "self", .reference, 2, "identifier", 0⟩]
  else if path = "app.py" then
    [⟨path, "main", .definition, 1, "function", 3⟩, ⟨path, "lib", .reference, 2, "identifier", 0⟩,
      ⟨path, "Store", .reference, 2, "identifier", 0⟩,
      ⟨path, "Store", .reference, 3, "identifier", 0⟩]
  else []

theorem filepath_storeTags (path content : String) (t : Tag)
    (h : t ∈ (fun p _ ↦ storeTags p : String → String → List Tag) path content) :
    t.filepath = path := by
  dsimp only at h
  unfold storeTags at h
  split at h
  · simp only [List.mem_cons, List.not_mem_nil, or_false] at h
    rcases h with rfl | rfl | rfl <;> rfl
  · split at h
    · simp only [List.mem_cons, List.not_mem_nil, or_false] at h
      rcases h with rfl | rfl | rfl | rfl <;> rfl
    · cases h

/-- The other parts are those of the first example. -/
def storeExtraction : Extraction :=
  { exampleExtraction with
    fileTags := fun path _ ↦ storeTags path
    filepath_tags := filepath_storeTags }

theorem nodup_storeFiles : ([("app.py", appText), ("lib.py", libText)].map Prod.fst).Nodup := by
  decide

def storeTree : Tree := ⟨[("app.py", appText), ("lib.py", libText)], nodup_storeFiles⟩

/-- `main` imports the class, which has one method. -/
def storeContents (path : String) : FileContents :=
  if path = "app.py" then ⟨[⟨"Store", some "lib.py", some "main"⟩], []⟩
  else if path = "lib.py" then ⟨[], [("Store", "get")]⟩
  else ⟨[], []⟩

/-- Nothing is indexed yet. -/
def noIndex : State := ⟨⟨.empty, []⟩, .empty⟩

/-- The import resolves to the class, but no definition has the path of the file as its name. -/
theorem not_linkedByPath_app :
    ¬ LinkedByPath (storeFrontend.extraction storeExtraction) "o/r" storeTree storeContents
      "app.py" := by
  intro h
  have hmem : (⟨"Store", some "lib.py", some "main"⟩ : ImportedName) ∈
      (storeContents "app.py").imports := List.mem_singleton.mpr rfl
  obtain ⟨⟨row, hrow, hname⟩, -⟩ := (h.imports _ hmem (by decide +kernel)).exists_definitions
  have hunnamed : ∀ row ∈ treeDefinitions (storeFrontend.extraction storeExtraction) "o/r"
      storeTree, row.2.name ≠ "app.py" := by
    decide +kernel
  exact hunnamed row hrow hname

theorem reportsRelations_iff_app :
    ¬ ReportsRelations (storeFrontend.extraction storeExtraction) "o/r" storeTree storeContents
      sorted (build (storeFrontend.extraction storeExtraction) "o/r" "c1" storeTree {} noIndex)
      "app.py" := by
  intro h
  exact not_linkedByPath_app ((reportsRelations_iff storeFrontend storeExtraction sorted
    storeContents "app.py" Database.closed_empty (own_empty _ _ _) (by decide)).mp h)

/-- The overview of `app.py` does not name the class that it imports. -/
theorem not_reportsRelations : ¬ ∀ (p : Frontend) (x : Extraction)
    (iterate : Finset String → List String) (repo commit : String) (tree : Tree) (force : Bool)
    (s : State) (contents : String → FileContents) (path : String), s.tables.db.Closed →
    s.tables.db.Own repo (tagRows x.digest repo (x.extractTags tree none)) →
    ¬ Skips repo commit { force } s.tables.db →
    ReportsRelations (p.extraction x) repo tree contents iterate
      (build (p.extraction x) repo commit tree { force } s) path := by
  intro hall
  have hskips : ¬ Skips "o/r" "c1" {} noIndex.tables.db := by decide
  have hreports := hall storeFrontend storeExtraction sorted "o/r" "c1" storeTree false noIndex
    storeContents "app.py" Database.closed_empty (own_empty _ _ _) hskips
  exact not_linkedByPath_app ((overview_iff Database.closed_empty (own_empty _ _ _) hskips
    (by decide)).mp hreports.overview)

end GithubAgent.Indexing.SymbolIndex
