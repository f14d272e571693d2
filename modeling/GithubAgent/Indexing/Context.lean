import GithubAgent.Indexing.Caches
import GithubAgent.Indexing.Skip

/-!
# The context of a symbol

`get_context` of `SymbolIndex` (`src/shared/code_graph.py`) asks the graph tables itself, the
sources of a symbol by the repository of the target, where the other queries read the edges that
were loaded by the repository of the source. In every database that the calls leave, both find the
same. The database answers every statement.
-/

namespace GithubAgent.Indexing.SymbolIndex

open GithubAgent.Base

/-! ### The query -/

structure DefinitionInfo where
  file : String
  line : Nat
  kind : String
  endLine : Nat
  deriving DecidableEq

def definitionInfo (d : FoundTag) : DefinitionInfo := ⟨d.filepath, d.line, d.category, d.endLine⟩

/-- The four lists at the end of an answer. -/
structure Relations where
  calls : List String
  calledBy : List String
  inheritsFrom : List String
  inheritedBy : List String
  deriving DecidableEq

inductive ContextAnswer where
  | notFound (symbol : String)
  | ambiguous (symbol : String) (definitions : List DefinitionInfo) (relations : Relations)
  | found (symbol : String) (definition : DefinitionInfo) (scope : Option String)
    (relations : Relations)
  deriving DecidableEq

def ContextAnswer.relations? : ContextAnswer → Option Relations
  | .notFound _ => none
  | .ambiguous _ _ relations | .found _ _ _ relations => some relations

section Query

variable (t : Tables)

/-- `_get_edge_targets` (`code_graph.py:1454-1471`). -/
def getEdgeTargets (name : String) (kind : RelationshipKind) (repo : String) : Finset String :=
  ((t.db.edges.filter fun e ↦ e.kind = kind ∧ t.nameOf e.source = name ∧
    t.db.repoOf e.source = some repo).map fun e ↦ t.nameOf e.target).toFinset.filter (· ≠ "")

/-- `_get_edge_sources` (`code_graph.py:1474-1491`). -/
def getEdgeSources (name : String) (kind : RelationshipKind) (repo : String) : Finset String :=
  ((t.db.edges.filter fun e ↦ e.kind = kind ∧ t.nameOf e.target = name ∧
    t.db.repoOf e.target = some repo).map fun e ↦ t.nameOf e.source).toFinset.filter (· ≠ "")

/-- `_resolve_scope` (`code_graph.py:1546-1568`). -/
def resolveScope (tag : FoundTag) (repo : String) : Option String :=
  let rows := t.containsEdges.filter fun edge ↦ (t.db.symbols.get edge.1).any fun row ↦
    row.filepath = tag.filepath ∧ row.line = tag.line ∧ row.name = tag.name ∧ row.repo = repo
  match rows with
  | [] => none
  | edge :: _ => if t.nameOf edge.2 = "" then none else some (t.nameOf edge.2)

/-- The definitions of the file, if there is one of several (`code_graph.py:538-543`). -/
def applyHint (fileHint : Option String) (definitions : List FoundTag) : List FoundTag :=
  match fileHint with
  | none => definitions
  | some hint =>
    let found := definitions.filter (·.filepath = hint)
    if hint ≠ "" ∧ 1 < definitions.length ∧ found.length = 1 then found else definitions

/-- `code_graph.py:575-583`. -/
def relationsOf (symbolName repo : String) : Relations where
  calls := sorted (getEdgeTargets t symbolName .calls repo)
  calledBy := sorted (getEdgeSources t symbolName .calls repo)
  inheritsFrom := sorted (getEdgeTargets t symbolName .inherits repo)
  inheritedBy := sorted (getEdgeSources t symbolName .inherits repo)

/-- `get_context`, for the repository `scope` (`code_graph.py:521-585`). -/
def getContext (symbolName : String) (fileHint : Option String) (scope : String) : ContextAnswer :=
  let relations := relationsOf t symbolName scope
  match applyHint fileHint (t.findDefinitions symbolName scope) with
  | [] => .notFound symbolName
  | [d] => .found symbolName (definitionInfo d) (resolveScope t d scope) relations
  | definitions => .ambiguous symbolName (definitions.map definitionInfo) relations

end Query

/-! ### What the other queries read -/

section Agrees

variable {t : Tables} {kind : RelationshipKind} {repo symbol other : String}

/-- The edges from a symbol are those that are loaded. -/
theorem getEdgeTargets_eq (hsymbol : symbol ≠ "") :
    getEdgeTargets t symbol kind repo = targets (t.getAllRepoEdges kind repo) symbol := by
  ext name
  simp only [getEdgeTargets, targets, Finset.mem_filter, Multiset.mem_toFinset, Multiset.mem_map,
    Multiset.mem_filter, Finset.mem_image, mem_getAllRepoEdges]
  constructor
  · rintro ⟨⟨e, ⟨he, hkind, hsource, hrepo⟩, rfl⟩, hname⟩
    exact ⟨(symbol, t.nameOf e.target),
      ⟨⟨e, he, ⟨hkind, hrepo, hsource ▸ hsymbol, hname⟩, by rw [hsource]⟩, rfl⟩, rfl⟩
  · rintro ⟨pair, ⟨⟨e, he, ⟨hkind, hrepo, -, hname⟩, rfl⟩, hsource⟩, rfl⟩
    exact ⟨⟨e, ⟨he, hkind, hsource, hrepo⟩, rfl⟩, hname⟩

/-- The edges to a symbol are, since they do not leave a repository. -/
theorem getEdgeSources_eq (hclosed : t.db.Closed) (hsymbol : symbol ≠ "") :
    getEdgeSources t symbol kind repo = sources (t.getAllRepoEdges kind repo) symbol := by
  have hrepo {e : Edge} (he : e ∈ t.db.edges) :
      t.db.repoOf e.target = some repo ↔ t.db.repoOf e.source = some repo := by
    obtain ⟨owner, hsource, htarget⟩ := hclosed e he
    rw [hsource, htarget]
  ext name
  simp only [getEdgeSources, sources, Finset.mem_filter, Multiset.mem_toFinset, Multiset.mem_map,
    Multiset.mem_filter, Finset.mem_image, mem_getAllRepoEdges]
  constructor
  · rintro ⟨⟨e, ⟨he, hkind, htarget, howner⟩, rfl⟩, hname⟩
    exact ⟨(t.nameOf e.source, symbol),
      ⟨⟨e, he, ⟨hkind, (hrepo he).mp howner, hname, htarget ▸ hsymbol⟩, by rw [htarget]⟩, rfl⟩,
      rfl⟩
  · rintro ⟨pair, ⟨⟨e, he, ⟨hkind, howner, hname, -⟩, rfl⟩, htarget⟩, rfl⟩
    exact ⟨⟨e, ⟨he, hkind, htarget, (hrepo he).mpr howner⟩, rfl⟩, hname⟩

theorem mem_targets_iff {pairs : Finset (String × String)} :
    other ∈ targets pairs symbol ↔ symbol ∈ sources pairs other := by
  simp only [targets, sources, Finset.mem_image, Finset.mem_filter]
  constructor
  · rintro ⟨⟨a, b⟩, ⟨hpair, rfl⟩, rfl⟩
    exact ⟨(a, b), ⟨hpair, rfl⟩, rfl⟩
  · rintro ⟨⟨a, b⟩, ⟨hpair, rfl⟩, rfl⟩
    exact ⟨(a, b), ⟨hpair, rfl⟩, rfl⟩

/-- No call writes `contains_edge`. -/
theorem resolveScope_eq_none (db : Database) (tag : FoundTag) :
    resolveScope ⟨db, []⟩ tag repo = none := rfl

/-- The lists are those of the edges that `_load_edge_cache` loads. -/
structure Relations.Agree (t : Tables) (repo symbol : String) (relations : Relations) : Prop where
  calls : relations.calls = sorted (targets (t.loadEdges repo .calls) symbol)
  calledBy : relations.calledBy = sorted (sources (t.loadEdges repo .calls) symbol)
  inheritsFrom : relations.inheritsFrom = sorted (targets (t.loadEdges repo .inherits) symbol)
  inheritedBy : relations.inheritedBy = sorted (sources (t.loadEdges repo .inherits) symbol)

theorem agree_relationsOf (hclosed : t.db.Closed) (hsymbol : symbol ≠ "") :
    (relationsOf t symbol repo).Agree t repo symbol where
  calls := congrArg sorted (getEdgeTargets_eq hsymbol)
  calledBy := congrArg sorted (getEdgeSources_eq hclosed hsymbol)
  inheritsFrom := congrArg sorted (getEdgeTargets_eq hsymbol)
  inheritedBy := congrArg sorted (getEdgeSources_eq hclosed hsymbol)

end Agrees

/-! ### Every database that the calls leave -/

/-- A call writes no symbol id of another repository. -/
def distinctIds (x : Extraction) (checkout : String → Tree) (s : Served) (call : Call × Faults) :
    Prop :=
  s.database.Own call.1.repo (call.1.records x checkout)

section Reach

variable {x : Extraction} {checkout : String → Tree} {c : Call} {faults : Faults} {s : Served}

/-- A call leaves no edge between two repositories, wherever it fails or is cut off. -/
theorem closed_run {db : Database} (hclosed : db.Closed)
    (hown : db.Own c.repo (c.records x checkout)) :
    (c.run x checkout faults db).2.Closed := by
  have hspec := @spec_run x checkout c faults db hclosed hown db rfl
  generalize c.run x checkout faults db = result at hspec
  obtain ⟨skipped, after⟩ := result
  cases skipped with
  | none => exact hspec.1.closed
  | some skipped =>
    cases skipped with
    | true =>
      obtain ⟨hsame, -⟩ := hspec
      show after.Closed
      rw [hsame]
      exact hclosed
    | false =>
      obtain ⟨done, hframed, -, hdone⟩ := hspec
      show after.Closed
      rw [hdone]
      split
      · exact hframed.closed
      · exact hframed.closed

theorem closed_of_reach (hreach : (serving x checkout).ReachWhen (distinctIds x checkout) s) :
    s.database.Closed := by
  apply hreach.invariant (P := fun s ↦ s.database.Closed)
  · rintro t rfl
    exact Database.closed_empty
  · rintro t ⟨c, faults⟩ t' hclosed hown hstep
    cases hstep
    exact closed_run hclosed hown

end Reach

section Answers

variable (t : Tables) (symbol : String) (fileHint : Option String) (scope : String)

/-- What an answer says, and when it is given. -/
def ContextAnswer.Right : ContextAnswer → Prop
  | .notFound name => name = symbol ∧ t.findDefinitions symbol scope = []
  | .ambiguous name definitions relations => name = symbol ∧
      definitions = (t.findDefinitions symbol scope).map definitionInfo ∧
      2 ≤ definitions.length ∧
      (∀ hint ∈ fileHint, hint ≠ "" →
        ((t.findDefinitions symbol scope).filter (·.filepath = hint)).length ≠ 1) ∧
      relations.Agree t scope symbol
  | .found name definition enclosing relations => name = symbol ∧
      (∃ d, definition = definitionInfo d ∧
        (t.findDefinitions symbol scope = [d] ∨
          ∃ hint ∈ fileHint, (t.findDefinitions symbol scope).filter (·.filepath = hint) = [d])) ∧
      enclosing = none ∧ relations.Agree t scope symbol

variable {t symbol fileHint scope}

/-- The hint leaves all definitions, or the only one in its file. -/
theorem applyHint_cases (fileHint : Option String) (definitions : List FoundTag) :
    (applyHint fileHint definitions = definitions ∧ (2 ≤ definitions.length →
        ∀ hint ∈ fileHint, hint ≠ "" → (definitions.filter (·.filepath = hint)).length ≠ 1)) ∨
      ∃ hint ∈ fileHint, ∃ d, definitions.filter (·.filepath = hint) = [d] ∧
        applyHint fileHint definitions = [d] := by
  cases fileHint with
  | none => exact .inl ⟨rfl, nofun⟩
  | some hint =>
    simp only [applyHint]
    split
    · next hone =>
      obtain ⟨d, hd⟩ := List.length_eq_one_iff.mp hone.2.2
      exact .inr ⟨hint, rfl, d, hd, hd⟩
    · next hone =>
      apply Or.inl
      refine ⟨rfl, ?_⟩
      intro htwo other hother hne hlen
      obtain rfl : hint = other := Option.some.inj hother
      exact hone ⟨hne, htwo, hlen⟩

theorem right_getContext {db : Database} (hclosed : db.Closed) (hsymbol : symbol ≠ "") :
    (getContext ⟨db, []⟩ symbol fileHint scope).Right ⟨db, []⟩ symbol fileHint scope := by
  have hagree : (relationsOf ⟨db, []⟩ symbol scope).Agree ⟨db, []⟩ scope symbol :=
    agree_relationsOf hclosed hsymbol
  unfold getContext
  rcases applyHint_cases fileHint (Tables.findDefinitions ⟨db, []⟩ symbol scope) with
    ⟨hall, hnone⟩ | ⟨hint, hhint, d, hfile, hone⟩
  · rw [hall]
    split
    · next hempty => exact ⟨rfl, hempty⟩
    · next d hd => exact ⟨rfl, ⟨d, rfl, .inl hd⟩, resolveScope_eq_none db d, hagree⟩
    · next hnil hsingle =>
      have htwo : 2 ≤ (Tables.findDefinitions ⟨db, []⟩ symbol scope).length := by
        by_contra hlt
        have hcases : (Tables.findDefinitions ⟨db, []⟩ symbol scope).length = 0 ∨
            (Tables.findDefinitions ⟨db, []⟩ symbol scope).length = 1 := by omega
        rcases hcases with hzero | hone
        · exact hnil (List.length_eq_zero_iff.mp hzero)
        · obtain ⟨d, hd⟩ := List.length_eq_one_iff.mp hone
          exact hsingle d hd
      exact ⟨rfl, rfl, by rw [List.length_map]; exact htwo, hnone htwo, hagree⟩
  · rw [hone]
    exact ⟨rfl, ⟨d, rfl, .inr ⟨hint, hhint, hfile⟩⟩, resolveScope_eq_none db d, hagree⟩

theorem relations?_getContext {relations : Relations}
    (h : (getContext t symbol fileHint scope).relations? = some relations) :
    relations = relationsOf t symbol scope := by
  unfold getContext at h
  split at h
  · cases h
  · cases h
    rfl
  · cases h
    rfl

end Answers

/-- In every database that the calls leave, wherever they fail, the context of a symbol is what
the edges say that the other queries load, and the lists of two symbols mirror each other. No
answer names a scope. -/
theorem context_of_reach {x : Extraction} {checkout : String → Tree} {s : Served}
    (hreach : (serving x checkout).ReachWhen (distinctIds x checkout) s) {symbol : String}
    (hsymbol : symbol ≠ "") (fileHint : Option String) (scope : String) :
    (getContext ⟨s.database, []⟩ symbol fileHint scope).Right ⟨s.database, []⟩ symbol fileHint
        scope ∧
      ∀ (other : String) (otherHint : Option String) (relations relations' : Relations),
        other ≠ "" →
        (getContext ⟨s.database, []⟩ symbol fileHint scope).relations? = some relations →
        (getContext ⟨s.database, []⟩ other otherHint scope).relations? = some relations' →
        (other ∈ relations.calls ↔ symbol ∈ relations'.calledBy) ∧
          (other ∈ relations.inheritsFrom ↔ symbol ∈ relations'.inheritedBy) := by
  have hclosed := closed_of_reach hreach
  refine ⟨right_getContext hclosed hsymbol, ?_⟩
  intro other otherHint relations relations' hother hrelations hrelations'
  have hagree : (relationsOf ⟨s.database, []⟩ symbol scope).Agree ⟨s.database, []⟩ scope symbol :=
    agree_relationsOf hclosed hsymbol
  have hagree' : (relationsOf ⟨s.database, []⟩ other scope).Agree ⟨s.database, []⟩ scope other :=
    agree_relationsOf hclosed hother
  rw [relations?_getContext hrelations, relations?_getContext hrelations']
  constructor
  · rw [hagree.calls, hagree'.calledBy, mem_sorted, mem_sorted]
    exact mem_targets_iff
  · rw [hagree.inheritsFrom, hagree'.inheritedBy, mem_sorted, mem_sorted]
    exact mem_targets_iff

/-- A caller and its callee, after one build. -/
theorem context_of_reach_built :
    (getContext ⟨firstDatabase .none, []⟩ "f" none "o/r").Right ⟨firstDatabase .none, []⟩ "f"
        none "o/r" ∧
      (getContext ⟨firstDatabase .none, []⟩ "f" none "o/r").relations? =
        some ⟨[], ["g"], [], []⟩ := by
  have hstep : (serving exampleExtraction exampleHistory).step ⟨.empty, []⟩ (firstBuild, .none) =
      some ⟨firstDatabase .none, []⟩ := by
    have hrun : (firstBuild.run exampleExtraction exampleHistory .none .empty).1 = some false := by
      decide
    unfold serving
    simp only [hrun]
    rfl
  have hreach : (serving exampleExtraction exampleHistory).ReachWhen
      (distinctIds exampleExtraction exampleHistory) ⟨firstDatabase .none, []⟩ :=
    .step _ (.init rfl) (own_empty _ _ _) hstep
  have hcontext := (context_of_reach hreach (by decide : "f" ≠ "") none "o/r").1
  exact ⟨hcontext, by decide +kernel⟩

end GithubAgent.Indexing.SymbolIndex
