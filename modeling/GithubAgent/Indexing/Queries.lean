import GithubAgent.Base.LazyCache
import GithubAgent.Base.Strings
import GithubAgent.Indexing.Database
import Mathlib.Data.Finset.Sort

/-!
# The queries of the symbol index

`get_impact`, `get_file_overview`, `trace_flow` and `detect_changes_from_diff` of `SymbolIndex`
(`src/shared/code_graph.py`), with the three caches they fill: the edges, the scopes and the
definitions of a repository. A cache is filled for the repository of the first query that needs it
and serves every later one. The database answers every statement.
-/

namespace GithubAgent.Indexing.SymbolIndex

open GithubAgent.Base

/-! ### The tables and what is read from them -/

/-- The tables, with the rows of `contains_edge`: a symbol, and the one that contains it. -/
structure Tables where
  db : Database
  containsEdges : List (String × String)

/-- A `Tag` that is made of a row (`code_graph.py:1234-1252`). -/
structure FoundTag where
  filepath : String
  name : String
  kind : String
  line : Nat
  category : String
  endLine : Nat
  deriving DecidableEq

def tagOfRow (row : Row) : FoundTag :=
  ⟨row.filepath, row.name, row.kind, row.line, row.category, row.endLine⟩

/-- The pairs of source and target name in each table, which `_edge_cache` holds by the source and
`_edge_cache_rev` by the target. -/
abbrev EdgeCache := RelationshipKind → Finset (String × String)

/-- The parent of a symbol, by file, line and name. -/
abbrev ScopeCache := List ((String × Nat × String) × String)

/-- The definitions, which `_def_cache` holds by name. -/
abbrev DefCache := List FoundTag

/-- `edge_fwd[table].get(name, set())`. -/
def targets (pairs : Finset (String × String)) (name : String) : Finset String :=
  (pairs.filter (·.1 = name)).image Prod.snd

/-- `edge_rev[table].get(name, set())`. -/
def sources (pairs : Finset (String × String)) (name : String) : Finset String :=
  (pairs.filter (·.2 = name)).image Prod.fst

/-- `def_cache.get(name, [])`. -/
def definitionsOf (cache : DefCache) (name : String) : List FoundTag := cache.filter (·.name = name)

namespace Tables

variable (t : Tables)

/-- `SELECT … FROM symbol WHERE …`, as tags. -/
def select (p : Row → Bool) : List FoundTag :=
  ((t.db.symbols.rows.map Prod.snd).filter p).map tagOfRow

/-- The name of a record; a missing one reads as the empty string. -/
def nameOf (id : String) : String := ((t.db.symbols.get id).map SymbolRecord.name).getD ""

/-- `_get_all_repo_edges` (`code_graph.py:1494-1517`). -/
def getAllRepoEdges (kind : RelationshipKind) (repo : String) : Finset (String × String) :=
  ((t.db.edges.filter fun e ↦ e.kind = kind ∧ t.db.repoOf e.source = some repo).map
    fun e ↦ (t.nameOf e.source, t.nameOf e.target)).toFinset.filter
      fun pair ↦ pair.1 ≠ "" ∧ pair.2 ≠ ""

/-- `_load_edge_cache` (`code_graph.py:76-87`). -/
def loadEdges (repo : String) : EdgeCache := fun kind ↦ t.getAllRepoEdges kind repo

/-- An entry of the scope map (`code_graph.py:1538-1539`). -/
def scopeEntry (repo : String) (edge : String × String) :
    Option ((String × Nat × String) × String) :=
  (t.db.symbols.get edge.1).bind fun row ↦
    if row.repo = repo ∧ row.name ≠ "" ∧ row.filepath ≠ "" ∧ t.nameOf edge.2 ≠ "" then
      some ((row.filepath, row.line, row.name), t.nameOf edge.2)
    else none

/-- `_get_all_scope_edges` (`code_graph.py:1520-1543`). -/
def getAllScopeEdges (repo : String) : ScopeCache := t.containsEdges.filterMap (t.scopeEntry repo)

/-- The rows of `_get_def_cache` (`code_graph.py:110-119`). -/
def allDefinitions (repo : String) : DefCache :=
  t.select fun row ↦ row.kind = "definition" ∧ row.repo = repo

/-- `find_definitions` (`code_graph.py:464-509`). -/
def findDefinitions (name repo : String) : List FoundTag :=
  let tags := t.select fun row ↦ row.name = name ∧ row.kind = "definition" ∧ row.repo = repo
  let found :=
    if tags = [] then
      (t.select fun row ↦ row.name = name ∧ row.repo = repo).filter
        (·.category ∈ ["class", "function", "method", "variable", "decorator"])
    else tags
  dedupBy (fun tag ↦ (tag.filepath, tag.line, tag.category)) [] found

end Tables

/-! ### The caches -/

/-- The caches, each with the repository it was filled for, which is kept for the statements
below. -/
structure Caches where
  edges : Option (Loaded String EdgeCache)
  scopes : Option (Loaded String ScopeCache)
  defs : Option (Loaded String DefCache)

/-- `_invalidate_caches` (`code_graph.py:123-128`). -/
def Caches.empty : Caches := ⟨none, none, none⟩

section Queries

variable (t : Tables)

/-- `_get_edge_cache` (`code_graph.py:89-93`). -/
def getEdgeCache (repo : String) : Coroutine Caches EdgeCache := fun c ↦
  let kept := loadOnce t.loadEdges repo c.edges
  (some kept.value, { c with edges := some kept })

/-- `_get_scope_cache` (`code_graph.py:95-99`). -/
def getScopeCache (repo : String) : Coroutine Caches ScopeCache := fun c ↦
  let kept := loadOnce t.getAllScopeEdges repo c.scopes
  (some kept.value, { c with scopes := some kept })

/-- `_get_def_cache` (`code_graph.py:101-121`). -/
def getDefCache (repo : String) : Coroutine Caches DefCache := fun c ↦
  let kept := loadOnce t.allDefinitions repo c.defs
  (some kept.value, { c with defs := some kept })

/-! ### The impact of a file -/

structure ImpactItem where
  name : String
  file : String
  line : Nat
  kind : String
  deriving DecidableEq

/-- The items of each depth that has any. -/
abbrev Impact := List (Nat × List ImpactItem)

/-- `visited`, `next_level` and `level_items`. -/
structure Level where
  visited : Finset String
  next : Finset String
  items : List ImpactItem

/-- A neighbour of a name on the level. -/
def visit (defs : DefCache) (level : Level) (found : String) : Level :=
  if found ∈ level.visited then level
  else
    { visited := insert found level.visited
      next := insert found level.next
      items := level.items ++
        (definitionsOf defs found).map fun d ↦ ⟨found, d.filepath, d.line, d.category⟩ }

variable (iterate : Finset String → List String)

/-- The search from one level on, with the levels that are left; `iterate` is the order in which a
set is gone through. -/
def search (neighbours : String → Finset String) (defs : DefCache) :
    Nat → Nat → Finset String → Finset String → Impact
  | 0, _, _, _ => []
  | n + 1, depth, visited, current =>
    let level := (iterate current).foldl
      (fun level name ↦ (iterate (neighbours name)).foldl (visit defs) level) ⟨visited, ∅, []⟩
    let rest :=
      if level.next = ∅ then [] else search neighbours defs n (depth + 1) level.visited level.next
    if level.items = [] then rest else (depth, level.items) :: rest

/-- `_bfs_upstream` (`code_graph.py:1575-1617`). -/
def bfsUpstream (seeds : Finset String) (maxDepth : Nat) (repo : String) (edges : EdgeCache) :
    Coroutine Caches Impact :=
  getDefCache t repo >>= fun defs ↦
    pure (search iterate (sources (edges .calls)) defs maxDepth 1 seeds seeds)

/-- `_bfs_downstream` (`code_graph.py:1620-1662`). -/
def bfsDownstream (seeds : Finset String) (maxDepth : Nat) (repo : String) (edges : EdgeCache) :
    Coroutine Caches Impact :=
  getDefCache t repo >>= fun defs ↦
    pure (search iterate (targets (edges .calls)) defs maxDepth 1 seeds seeds)

inductive RiskLevel where
  | low
  | medium
  | high
  deriving DecidableEq

def Impact.files (impact : Impact) : Finset String :=
  (impact.flatMap fun level ↦ level.2.map ImpactItem.file).toFinset

def Impact.size (impact : Impact) : Nat := (impact.map fun level ↦ level.2.length).sum

/-- `_assess_risk` (`code_graph.py:1665-1703`). -/
def assessRisk (upstream downstream : Impact) (importedBy : List String) : RiskLevel × String :=
  let files := upstream.files ∪ downstream.files
  let totalFiles := (files ∪ importedBy.toFinset).card
  let totalSymbols := upstream.size + downstream.size
  let hasTests : Prop :=
    ∃ f ∈ files, occursIn "test" (String.ofList (f.toList.map Char.toLower)) = true
  let affects := "affects " ++ toString totalFiles ++ " files and " ++ toString totalSymbols ++
    " symbols"
  let assessed : RiskLevel × String :=
    if totalFiles > 10 ∨ totalSymbols > 20 then (.high, "High risk: " ++ affects)
    else if totalFiles > 3 ∨ totalSymbols > 5 then (.medium, "Medium risk: " ++ affects)
    else (.low, "Low risk: " ++ affects)
  if hasTests then (assessed.1, assessed.2 ++ " (includes test files)") else assessed

structure SymbolInfo where
  name : String
  line : Nat
  kind : String
  endLine : Nat
  deriving DecidableEq

def symbolInfo (d : FoundTag) : SymbolInfo := ⟨d.name, d.line, d.category, d.endLine⟩

/-- `sorted` of a set of names. -/
def sorted (names : Finset String) : List String := names.sort

theorem mem_sorted {names : Finset String} {name : String} : name ∈ sorted names ↔ name ∈ names :=
  Finset.mem_sort _

theorem nodup_sorted (names : Finset String) : (sorted names).Nodup := Finset.sort_nodup names _

structure ImpactArgs where
  filePath : String
  startLine : Option Int
  endLine : Option Int
  maxDepth : Int
  direction : String

structure ImpactAnswer where
  file : String
  symbolsInRange : List SymbolInfo
  upstreamImpact : Impact
  downstreamImpact : Impact
  importedBy : List String
  riskLevel : RiskLevel
  riskSummary : String

/-- The row is within the lines; an end without a start is not looked at. -/
def withinLines (startLine endLine : Option Int) (row : Row) : Bool :=
  match startLine, endLine with
  | some sl, some el => sl ≤ row.line ∧ (row.endLine : Int) ≤ el
  | some sl, none => sl ≤ row.line
  | none, _ => true

/-- The definitions of the file, within the lines (`code_graph.py:616-637`). -/
def fileDefinitions (filePath : String) (startLine endLine : Option Int) (repo : String) :
    List FoundTag :=
  t.select fun row ↦ row.filepath = filePath ∧ row.kind = "definition" ∧ row.repo = repo ∧
    withinLines startLine endLine row = true

/-- `get_impact`, for the repository `scope` (`code_graph.py:587-680`). -/
def getImpact (args : ImpactArgs) (scope : String) : Coroutine Caches ImpactAnswer :=
  let maxDepth := (min (max 1 args.maxDepth) 10).toNat
  let fileDefs := fileDefinitions t args.filePath args.startLine args.endLine scope
  let affected := (fileDefs.map FoundTag.name).toFinset
  getEdgeCache t scope >>= fun edges ↦
  let importedBy := sorted (sources (edges .imports) args.filePath)
  (if args.direction ∈ ["upstream", "both"] then bfsUpstream t iterate affected maxDepth scope edges
    else pure []) >>= fun upstream ↦
  (if args.direction ∈ ["downstream", "both"] then
    bfsDownstream t iterate affected maxDepth scope edges else pure []) >>= fun downstream ↦
  let risk := assessRisk upstream downstream importedBy
  pure
    { file := args.filePath
      symbolsInRange := fileDefs.map symbolInfo
      upstreamImpact := upstream
      downstreamImpact := downstream
      importedBy
      riskLevel := risk.1
      riskSummary := risk.2 }

/-! ### The overview of a file -/

structure ClassInfo where
  name : String
  inheritsFrom : List String
  methods : List String

structure OverviewAnswer where
  file : String
  definitions : List SymbolInfo
  imports : List String
  importedBy : List String
  classes : List ClassInfo

/-- `get_file_overview`, for the repository `scope` (`code_graph.py:682-735`). A class that is
defined twice has one entry. -/
def getFileOverview (filePath scope : String) : Coroutine Caches OverviewAnswer :=
  let fileDefs := fileDefinitions t filePath none none scope
  getEdgeCache t scope >>= fun edges ↦
  getScopeCache t scope >>= fun scopes ↦
  let classNames := dedupBy id [] ((fileDefs.filter (·.category = "class")).map FoundTag.name)
  let methodsOf (name : String) : List String :=
    (fileDefs.filter fun d ↦
      name ≠ "" ∧ dictGet scopes (d.filepath, d.line, d.name) = some name).map FoundTag.name
  pure
    { file := filePath
      definitions := fileDefs.map symbolInfo
      imports := sorted (targets (edges .imports) filePath)
      importedBy := sorted (sources (edges .imports) filePath)
      classes := classNames.map fun name ↦
        ⟨name, sorted (targets (edges .inherits) name), methodsOf name⟩ }

/-! ### The flow from an entry point -/

structure FlowStep where
  name : String
  caller : String
  file : Option String
  line : Option Nat
  kind : String
  depth : Nat
  deriving DecidableEq

inductive CallChain where
  | truncated (name : String)
  | node (name : String) (callees : List CallChain)

/-- `_build_call_chain`, with the depth that is left (`code_graph.py:1005-1046`). -/
def buildCallChain (calls : String → Finset String) (visited : Finset String) :
    Nat → Finset String → String → CallChain
  | 0, _, name => .truncated name
  | n + 1, path, name =>
    if name ∈ path then .truncated name
    else .node name (((sorted (calls name)).filter (· ∈ visited)).map
      (buildCallChain calls visited n (insert name path)))

/-- `visited`, `steps` and `frontier`. -/
structure Trace where
  visited : Finset String
  steps : List FlowStep
  frontier : List (String × Nat)

/-- A callee of the name that is taken from the frontier (`code_graph.py:899-926`). -/
def traceCallee (defs : DefCache) (caller : String) (depth : Nat) (trace : Trace)
    (callee : String) : Trace :=
  if callee ∈ trace.visited then trace
  else
    let step : FlowStep :=
      match definitionsOf defs callee with
      | d :: _ => ⟨callee, caller, some d.filepath, some d.line, d.category, depth + 1⟩
      | [] => ⟨callee, caller, none, none, "unknown", depth + 1⟩
    { visited := insert callee trace.visited
      steps := trace.steps ++ [step]
      frontier := trace.frontier ++ [(callee, depth + 1)] }

/-- The `while` of `trace_flow`, with a bound on its rounds. -/
def traceLoop (calls : String → Finset String) (defs : DefCache) (maxDepth : Nat) :
    Nat → Trace → Trace
  | 0, trace => trace
  | n + 1, trace =>
    match trace.frontier with
    | [] => trace
    | (name, depth) :: rest =>
      if maxDepth ≤ depth then traceLoop calls defs maxDepth n { trace with frontier := rest }
      else traceLoop calls defs maxDepth n
        ((sorted (calls name)).foldl (traceCallee defs name depth) { trace with frontier := rest })

/-- The rounds that suffice: every callee enters the frontier once. -/
def traceRounds (pairs : Finset (String × String)) : Nat := (pairs.image Prod.snd).card + 1

structure FlowArgs where
  entryPoint : String
  fileHint : Option String
  maxDepth : Int

structure Flow where
  entryPoint : String
  entryDefinition : FoundTag
  steps : List FlowStep
  totalSteps : Nat
  maxDepthReached : Bool
  callChain : CallChain

inductive FlowAnswer where
  | notFound (entryPoint : String)
  | ambiguous (entryPoint : String) (definitions : List (String × Nat × String))
  | flow (flow : Flow)

/-- The definitions of the entry point, those in the file if one is named. -/
def entryDefinitions (args : FlowArgs) (scope : String) : List FoundTag :=
  let found := t.findDefinitions args.entryPoint scope
  match args.fileHint with
  | some hint => if hint = "" then found else found.filter (·.filepath = hint)
  | none => found

/-- `trace_flow`, for the repository `scope`. When the hint leaves no definition, `definitions[0]`
raises (`code_graph.py:829-939`). -/
def traceFlow (args : FlowArgs) (scope : String) : Coroutine Caches FlowAnswer :=
  if t.findDefinitions args.entryPoint scope = [] then pure (.notFound args.entryPoint)
  else
    match entryDefinitions t args scope with
    | [] => Coroutine.raise
    | [d] =>
      let maxDepth := (max 1 (min args.maxDepth 50)).toNat
      getEdgeCache t scope >>= fun edges ↦
      getDefCache t scope >>= fun defs ↦
      let calls := targets (edges .calls)
      let trace := traceLoop calls defs maxDepth (traceRounds (edges .calls))
        ⟨{args.entryPoint}, [], [(args.entryPoint, 0)]⟩
      pure <| .flow
        { entryPoint := args.entryPoint
          entryDefinition := d
          steps := trace.steps
          totalSteps := trace.steps.length
          maxDepthReached := trace.steps.any (·.depth = maxDepth)
          callChain := buildCallChain calls trace.visited maxDepth ∅ args.entryPoint }
    | ds => pure (.ambiguous args.entryPoint (ds.map fun d ↦ (d.filepath, d.line, d.category)))

/-! ### The changes of a diff -/

/-- An entry of `changes`. -/
structure ChangedRanges where
  file : String
  ranges : List (Int × Int)

/-- What `git diff` and `_parse_git_diff` come to. -/
inductive DiffResult where
  | failed (stderr : String)
  | raised (message : String)
  | parsed (changes : List ChangedRanges) (staleFiles : List String)

structure ChangedFile where
  file : String
  lineRanges : List (Int × Int)
  affectedSymbols : List SymbolInfo
  upstreamImpact : Impact
  downstreamImpact : Impact
  riskLevel : RiskLevel
  riskSummary : String

inductive ChangesAnswer where
  | error (message : String)
  | changes (changedFiles : List ChangedFile) (summary : String) (riskLevel : RiskLevel)

/-- `_get_symbols_in_range` (`code_graph.py:1928-1957`). -/
def getSymbolsInRange (filepath : String) (range : Int × Int) (repo : String) : List SymbolInfo :=
  (t.select fun row ↦ row.filepath = filepath ∧ row.kind = "definition" ∧
    (row.line : Int) ≤ range.2 ∧ range.1 ≤ row.endLine ∧ row.repo = repo).map symbolInfo

/-- `_summarize_changes` (`code_graph.py:1960-1976`). -/
def summarizeChanges (changedFiles : List ChangedFile) : String :=
  if changedFiles = [] then "No symbol-affecting changes detected."
  else
    let totalSymbols := (changedFiles.map fun f ↦ f.affectedSymbols.length).sum
    let highRisk := (changedFiles.filter (·.riskLevel = .high)).map ChangedFile.file
    let summary := toString changedFiles.length ++ " file(s) changed, " ++
      toString totalSymbols ++ " symbol(s) affected."
    if highRisk = [] then summary
    else summary ++ " " ++ toString highRisk.length ++ " file(s) at high risk: " ++
      ", ".intercalate (highRisk.take 3)

/-- `_overall_risk` (`code_graph.py:1979-1985`). -/
def overallRisk (changedFiles : List ChangedFile) : RiskLevel :=
  if ∃ f ∈ changedFiles, f.riskLevel = .high then .high
  else if ∃ f ∈ changedFiles, f.riskLevel = .medium then .medium
  else .low

/-- One file of the diff; without a symbol it is left out (`code_graph.py:782-820`). -/
def changedFile (repo : String) (edges : EdgeCache) (entry : ChangedRanges) :
    Coroutine Caches (List ChangedFile) :=
  let symbols := entry.ranges.flatMap fun range ↦ getSymbolsInRange t entry.file range repo
  if symbols = [] then pure []
  else
    let affected := (symbols.map SymbolInfo.name).toFinset
    let importedBy := sorted (sources (edges .imports) entry.file)
    bfsUpstream t iterate affected 3 repo edges >>= fun upstream ↦
    bfsDownstream t iterate affected 3 repo edges >>= fun downstream ↦
    let risk := assessRisk upstream downstream importedBy
    pure [⟨entry.file, entry.ranges, symbols, upstream, downstream, risk.1, risk.2⟩]

/-- The loop over the files of the diff. -/
def changedFiles (repo : String) (edges : EdgeCache) :
    List ChangedRanges → Coroutine Caches (List ChangedFile)
  | [] => pure []
  | entry :: rest =>
    changedFile t iterate repo edges entry >>= fun first ↦
    changedFiles repo edges rest >>= fun others ↦ pure (first ++ others)

/-- `detect_changes_from_diff`, once the stale files are cleared (`code_graph.py:777-827`). -/
def detectChanges (repo : String) : DiffResult → Coroutine Caches ChangesAnswer
  | .failed stderr => pure (.error ("git diff failed: " ++ stderr))
  | .raised message => pure (.error ("Failed to parse diff: " ++ message))
  | .parsed changes _ =>
    getEdgeCache t repo >>= fun edges ↦
    changedFiles t iterate repo edges changes >>= fun files ↦
    pure (.changes files (summarizeChanges files) (overallRisk files))

end Queries

/-! ### The rounds of a trace -/

section Rounds

variable {pairs : Finset (String × String)} {defs : DefCache} {maxDepth : Nat}

/-- The rounds that a trace may still need: one for each name of the frontier, and one for each
target that was not visited. -/
def roundsLeft (pairs : Finset (String × String)) (trace : Trace) : Nat :=
  trace.frontier.length + (pairs.image Prod.snd \ trace.visited).card

theorem roundsLeft_traceCallee {caller callee : String} (depth : Nat) (trace : Trace)
    (h : callee ∈ targets pairs caller) :
    roundsLeft pairs (traceCallee defs caller depth trace callee) ≤ roundsLeft pairs trace := by
  have htarget : callee ∈ pairs.image Prod.snd :=
    Finset.image_subset_image (Finset.filter_subset _ _) h
  unfold traceCallee
  split
  · exact le_rfl
  · next hnew =>
    have hmem : callee ∈ pairs.image Prod.snd \ trace.visited :=
      Finset.mem_sdiff.mpr ⟨htarget, hnew⟩
    have hcard := Finset.card_erase_add_one hmem
    rw [roundsLeft, roundsLeft, List.length_append, Finset.sdiff_insert, List.length_singleton]
    omega

theorem roundsLeft_foldl {caller : String} (depth : Nat) (callees : List String) (trace : Trace)
    (h : ∀ callee ∈ callees, callee ∈ targets pairs caller) :
    roundsLeft pairs (callees.foldl (traceCallee defs caller depth) trace) ≤
      roundsLeft pairs trace := by
  induction callees generalizing trace with
  | nil => exact le_rfl
  | cons callee rest ih =>
    rw [List.foldl_cons]
    exact (ih _ fun c hc ↦ h c (List.mem_cons_of_mem _ hc)).trans
      (roundsLeft_traceCallee depth trace (h callee List.mem_cons_self))

/-- With enough rounds the loop ends because nothing is left to visit. -/
theorem frontier_traceLoop (n : Nat) (trace : Trace) (h : roundsLeft pairs trace ≤ n) :
    (traceLoop (targets pairs) defs maxDepth n trace).frontier = [] := by
  induction n generalizing trace with
  | zero =>
    rw [traceLoop]
    apply List.length_eq_zero_iff.mp
    unfold roundsLeft at h
    omega
  | succ n ih =>
    rw [traceLoop]
    split
    · next hempty => exact hempty
    · next name depth rest hfrontier =>
      have hrest : roundsLeft pairs { trace with frontier := rest } ≤ n := by
        rw [roundsLeft, hfrontier, List.length_cons] at h
        change rest.length + (pairs.image Prod.snd \ trace.visited).card ≤ n
        omega
      split
      · exact ih _ hrest
      · apply ih
        refine (roundsLeft_foldl depth _ _ fun callee hcallee ↦ ?_).trans hrest
        exact (Finset.mem_sort _).mp hcallee

theorem roundsLeft_start (entryPoint : String) :
    roundsLeft pairs ⟨{entryPoint}, [], [(entryPoint, 0)]⟩ ≤ traceRounds pairs := by
  have hcard : (pairs.image Prod.snd \ {entryPoint}).card ≤ (pairs.image Prod.snd).card :=
    Finset.card_le_card Finset.sdiff_subset
  change 1 + (pairs.image Prod.snd \ {entryPoint}).card ≤ (pairs.image Prod.snd).card + 1
  omega

/-- The `while` of `trace_flow` ends within its bound. -/
theorem frontier_traceFlow (entryPoint : String) :
    (traceLoop (targets pairs) defs maxDepth (traceRounds pairs)
      ⟨{entryPoint}, [], [(entryPoint, 0)]⟩).frontier = [] :=
  frontier_traceLoop _ _ (roundsLeft_start entryPoint)

end Rounds

end GithubAgent.Indexing.SymbolIndex
