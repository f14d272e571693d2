import GithubAgent.Base.LastBy
import GithubAgent.Indexing.CodeGraph
import Mathlib.Data.List.Sort

/-!
# The relationships of a source file

`_extract_relationships` of `src/shared/code_graph.py` on one file, with the map of its definitions
that calls, imports and parents are attributed by. The syntax tree, what the queries of the language
capture in it and the file of a module are given.
-/

namespace GithubAgent.Indexing

open GithubAgent.Base

/-! ### The syntax tree -/

/-- The bytes of a node, its first line, counted from 1, and its text. -/
structure Span where
  startByte : Nat
  endByte : Nat
  line : Nat
  text : String

namespace Span

/-- The bytes of the other node are among those of this one. -/
def Contains (node other : Span) : Prop :=
  node.startByte ≤ other.startByte ∧ other.endByte ≤ node.endByte

instance (node other : Span) : Decidable (node.Contains other) :=
  inferInstanceAs (Decidable (_ ∧ _))

def size (node : Span) : Int := node.endByte - node.startByte

end Span

/-- A node of the syntax tree, with the text of its field `name`. -/
inductive SyntaxNode where
  | node (type : String) (span : Span) (nameField : Option String) (children : List SyntaxNode)

def SyntaxNode.type : SyntaxNode → String
  | .node type _ _ _ => type

def SyntaxNode.span : SyntaxNode → Span
  | .node _ span _ _ => span

/-- What a query captures: `@name` or `@target`, and `@node`. A query that raises captures
nothing. -/
structure Captures where
  targets : List Span
  nodes : List Span

/-- The categories of the import queries (`ts_languages.py:108-121, 191-196`). -/
inductive ImportCategory where
  | importStatement
  | importFromModule
  | importFromName
  | importSource
  | importClause
  | importSpecifier
  | namespaceImport
  deriving DecidableEq

/-- A file that was parsed, with the node types and the captures of its language. -/
structure ParsedFile where
  root : SyntaxNode
  definableTypes : List String
  definitionQueries : List Captures
  callQueries : List Captures
  importQueries : List (ImportCategory × Captures)
  inheritanceQueries : List Captures

/-! ### The definitions of the file -/

/-- `bisect.bisect_right` on a sorted list. -/
def bisectRight (sorted : List Nat) (n : Nat) : Nat := (sorted.takeWhile (· ≤ n)).length

/-- Of a sorted table, what comes before the position that is found. -/
theorem take_bisectRight {A : Type} (key : A → Nat) {table : List A}
    (h : table.Pairwise fun a b ↦ key a ≤ key b) (n : Nat) :
    table.take (bisectRight (table.map key) n) = table.filter (key · ≤ n) := by
  unfold bisectRight
  induction table with
  | nil => rfl
  | cons a rest ih =>
    obtain ⟨ha, hrest⟩ := List.pairwise_cons.mp h
    rw [List.map_cons, List.takeWhile_cons, List.filter_cons]
    split
    · rw [List.length_cons, List.take_succ_cons, ih hrest]
    · next hnot =>
      rw [List.length_nil, List.take_zero, eq_comm, List.filter_eq_nil_iff]
      intro b hb hle
      exact hnot (decide_eq_true ((ha b hb).trans (of_decide_eq_true hle)))

/-- An entry of the definition map. -/
structure DefEntry where
  startByte : Nat
  endByte : Nat
  name : String
  deriving DecidableEq

def DefEntry.size (d : DefEntry) : Int := d.endByte - d.startByte

/-- The entry of a captured name: the first captured node around it, or the name itself
(`code_graph.py:1078-1094`). -/
def capturedEntry (nodes : List Span) (name : Span) : DefEntry :=
  let enclosing := (nodes.find? fun node ↦ node.Contains name).getD name
  ⟨enclosing.startByte, enclosing.endByte, name.text⟩

/-- `_extract_node_name` (`code_graph.py:1138-1152`). -/
def extractNodeName : SyntaxNode → Option String
  | .node _ _ nameField children =>
    nameField.or ((children.find? fun child ↦
      child.type ∈ ["identifier", "type_identifier", "property_identifier"]).map (·.span.text))

/-- `_walk_def_nodes`, with the depth that is left (`code_graph.py:1112-1135`). -/
def walkDefNodes (definableTypes : List String) : Nat → SyntaxNode → List DefEntry
  | 0, _ => []
  | depth + 1, .node type span nameField children =>
    let name := (extractNodeName (.node type span nameField children)).getD ""
    let entry : List DefEntry :=
      if type ∈ definableTypes ∧ name ≠ "" then [⟨span.startByte, span.endByte, name⟩] else []
    entry ++ children.flatMap (walkDefNodes definableTypes depth)

/-- `_build_definition_map` (`code_graph.py:1049-1109`). -/
def buildDefinitionMap (file : ParsedFile) : List DefEntry :=
  let captured := file.definitionQueries.flatMap fun c ↦ c.targets.map (capturedEntry c.nodes)
  let entries := captured ++ walkDefNodes file.definableTypes 200 file.root
  dedupBy id [] (entries.insertionSort fun d d' ↦ d.startByte ≤ d'.startByte)

/-- A step of the scan for the tightest definition. -/
def tighter (node : Span) (best : Option DefEntry) (d : DefEntry) : Option DefEntry :=
  if d.startByte ≤ node.startByte ∧ node.endByte ≤ d.endByte ∧ ∀ b ∈ best, d.size < b.size then
    some d
  else best

/-- `_find_enclosing_def` (`code_graph.py:1199-1231`). -/
def findEnclosingDef (defMap : List DefEntry) (node : Span) : Option String :=
  let candidates := defMap.take (bisectRight (defMap.map DefEntry.startByte) node.startByte)
  (candidates.reverse.foldl (tighter node) none).map DefEntry.name

/-! ### The relationships -/

/-- The tightest captured node around a target, or the target itself. -/
def tightestNode (nodes : List Span) (target : Span) : Span :=
  nodes.foldl
    (fun best node ↦ if node.Contains target ∧ node.size < best.size then node else best) target

/-- `_run_rel_query` (`code_graph.py:1155-1196`). -/
def runRelQuery (c : Captures) : List (String × Span) :=
  c.targets.map fun target ↦ (target.text, tightestNode c.nodes target)

/-- The calls, and the parents: those outside of any definition are left out
(`code_graph.py:347-366, 437-458`). -/
def enclosedRelationships (kind : RelationshipKind) (path : String) (defMap : List DefEntry)
    (queries : List Captures) : List Relationship :=
  (queries.flatMap runRelQuery).filterMap fun (target, node) ↦
    ((findEnclosingDef defMap node).filter (· ≠ "")).map fun sourceName ↦
      { sourceFile := path
        sourceLine := node.line
        sourceName
        targetName := target
        kind }

/-- An entry of `import_matches`. -/
structure ImportMatch where
  category : ImportCategory
  target : String
  line : Nat
  sourceName : Option String

/-- `import_matches` (`code_graph.py:369-382`). -/
def importMatches (defMap : List DefEntry) (queries : List (ImportCategory × Captures)) :
    List ImportMatch :=
  queries.flatMap fun (category, c) ↦ (runRelQuery c).map fun (target, node) ↦
    ⟨category, target, node.line, findEnclosingDef defMap node⟩

/-- `modules_by_line`. -/
def modulesByLine (found : List ImportMatch) : List (Nat × String) :=
  (found.filter (·.category ∈ [.importSource, .importFromModule])).map fun m ↦ (m.line, m.target)

/-- The module of the names on a line: that of the line, or of the nearest line before it, within
20 lines (`code_graph.py:412-420`). -/
def moduleOfLine (modules : List (Nat × String)) (line : Nat) : Option String :=
  let sortedModuleLines := (modules.map Prod.fst).dedup.insertionSort (· ≤ ·)
  (dictGet modules line).or <|
    (sortedModuleLines.take (bisectRight sortedModuleLines line)).getLast?.bind fun before ↦
      if line - before ≤ 20 then dictGet modules before else none

/-- The relationship of an import; outside of any definition the imported name is its own source
(`code_graph.py:398-407, 426-435`). -/
def ImportMatch.relationship (path : String) (m : ImportMatch) (targetFile : Option String) :
    Relationship where
  sourceFile := path
  sourceLine := m.line
  sourceName := (m.sourceName.filter (· ≠ "")).getD m.target
  targetName := m.target
  targetFile := targetFile
  kind := .imports

/-- The imports: first those that stand for themselves, then the names of each line
(`code_graph.py:384-435`). -/
def importRelationships (path : String) (resolveModule : String → Option String)
    (found : List ImportMatch) : List Relationship :=
  let direct := found.filter (·.category ∉ [.importSource, .importFromModule, .importFromName])
  let names := found.filter (·.category = .importFromName)
  direct.map (fun m ↦ m.relationship path (resolveModule m.target)) ++
    (dedupBy id [] (names.map ImportMatch.line)).flatMap fun line ↦
      let resolvedFile :=
        ((moduleOfLine (modulesByLine found) line).filter (· ≠ "")).bind resolveModule
      (names.filter (·.line = line)).map (·.relationship path resolvedFile)

/-- `_extract_relationships` on one file (`code_graph.py:308-458`). -/
def extractFile (path : String) (resolveModule : String → Option String) (file : ParsedFile) :
    List Relationship :=
  let defMap := buildDefinitionMap file
  if defMap = [] then []
  else
    enclosedRelationships .calls path defMap file.callQueries ++
      importRelationships path resolveModule (importMatches defMap file.importQueries) ++
      enclosedRelationships .inherits path defMap file.inheritanceQueries

/-! ### What they carry -/

section Carry

variable {path : String} {resolveModule : String → Option String} {r : Relationship}

theorem of_mem_enclosedRelationships {kind : RelationshipKind} {defMap : List DefEntry}
    {queries : List Captures} (h : r ∈ enclosedRelationships kind path defMap queries) :
    r.sourceFile = path ∧ r.kind = kind := by
  obtain ⟨⟨target, node⟩, -, h⟩ := List.mem_filterMap.mp h
  obtain ⟨sourceName, -, rfl⟩ := Option.map_eq_some_iff.mp h
  exact ⟨rfl, rfl⟩

/-- Every import is that of a captured name. -/
theorem exists_of_mem_importRelationships {found : List ImportMatch}
    (h : r ∈ importRelationships path resolveModule found) :
    ∃ m ∈ found, ∃ targetFile, r = m.relationship path targetFile := by
  rcases List.mem_append.mp h with h | h
  · obtain ⟨m, hm, rfl⟩ := List.mem_map.mp h
    exact ⟨m, (List.mem_filter.mp hm).1, _, rfl⟩
  · obtain ⟨line, -, h⟩ := List.mem_flatMap.mp h
    obtain ⟨m, hm, rfl⟩ := List.mem_map.mp h
    exact ⟨m, (List.mem_filter.mp (List.mem_filter.mp hm).1).1, _, rfl⟩

/-- The relationships of a file, by their kind. -/
theorem mem_extractFile {file : ParsedFile} (h : r ∈ extractFile path resolveModule file) :
    (∃ queries, r ∈ enclosedRelationships .calls path (buildDefinitionMap file) queries) ∨
      r ∈ importRelationships path resolveModule
        (importMatches (buildDefinitionMap file) file.importQueries) ∨
      ∃ queries, r ∈ enclosedRelationships .inherits path (buildDefinitionMap file) queries := by
  unfold extractFile at h
  dsimp only at h
  split at h
  · cases h
  · rcases List.mem_append.mp h with h | h
    · rcases List.mem_append.mp h with h | h
      · exact .inl ⟨_, h⟩
      · exact .inr (.inl h)
    · exact .inr (.inr ⟨_, h⟩)

theorem sourceFile_extractFile {file : ParsedFile} (h : r ∈ extractFile path resolveModule file) :
    r.sourceFile = path := by
  rcases mem_extractFile h with ⟨queries, h⟩ | h | ⟨queries, h⟩
  · exact (of_mem_enclosedRelationships h).1
  · obtain ⟨m, -, targetFile, rfl⟩ := exists_of_mem_importRelationships h
    rfl
  · exact (of_mem_enclosedRelationships h).1

/-- The source of a tighter entry is an entry. -/
theorem mem_of_foldl_tighter {node : Span} {d : DefEntry} (defs : List DefEntry) :
    ∀ {best : Option DefEntry}, defs.foldl (tighter node) best = some d →
      d ∈ defs ∨ best = some d := by
  induction defs with
  | nil => exact .inr
  | cons first rest ih =>
    intro best h
    rcases ih h with h | h
    · exact .inl (List.mem_cons_of_mem _ h)
    · unfold tighter at h
      split at h
      · obtain rfl := Option.some.inj h
        exact .inl List.mem_cons_self
      · exact .inr h

theorem exists_of_findEnclosingDef {defMap : List DefEntry} {node : Span} {name : String}
    (h : findEnclosingDef defMap node = some name) : ∃ d ∈ defMap, d.name = name := by
  obtain ⟨d, hd, rfl⟩ := Option.map_eq_some_iff.mp h
  rcases mem_of_foldl_tighter _ hd with hd | hd
  · exact ⟨d, List.mem_of_mem_take (List.mem_reverse.mp hd), rfl⟩
  · cases hd

/-- The source of an import is a definition of the file, or the imported name itself. -/
theorem sourceName_of_imports {file : ParsedFile} (h : r ∈ extractFile path resolveModule file)
    (hkind : r.kind = .imports) :
    (∃ d ∈ buildDefinitionMap file, d.name = r.sourceName) ∨ r.sourceName = r.targetName := by
  rcases mem_extractFile h with ⟨queries, h⟩ | h | ⟨queries, h⟩
  · exact absurd ((of_mem_enclosedRelationships h).2.symm.trans hkind) (by decide)
  · obtain ⟨m, hm, targetFile, rfl⟩ := exists_of_mem_importRelationships h
    obtain ⟨⟨category, c⟩, -, hm⟩ := List.mem_flatMap.mp hm
    obtain ⟨⟨target, node⟩, -, rfl⟩ := List.mem_map.mp hm
    cases hfound : (findEnclosingDef (buildDefinitionMap file) node).filter (· ≠ "") with
    | none =>
      refine .inr ?_
      simp only [ImportMatch.relationship, hfound, Option.getD_none]
    | some name =>
      obtain ⟨d, hd, hname⟩ := exists_of_findEnclosingDef (Option.filter_eq_some_iff.mp hfound).1
      refine .inl ⟨d, hd, ?_⟩
      simp only [ImportMatch.relationship, hfound, Option.getD_some, hname]
  · exact absurd ((of_mem_enclosedRelationships h).2.symm.trans hkind) (by decide)

end Carry

/-! ### The extraction -/

/-- The parser, which does not know every language, and the file of a module that a file names. -/
structure Frontend where
  parse : String → String → Option ParsedFile
  resolveModule : Tree → String → String → Option String

namespace Frontend

variable (p : Frontend)

/-- The relationships of a file with some content. -/
def fileRelationships (tree : Tree) (path content : String) : List Relationship :=
  (p.parse path content).elim [] (extractFile path (p.resolveModule tree path))

theorem sourceFile_fileRelationships (tree : Tree) (path content : String) (r : Relationship)
    (h : r ∈ p.fileRelationships tree path content) : r.sourceFile = path := by
  unfold fileRelationships at h
  cases hparse : p.parse path content with
  | none =>
    rw [hparse] at h
    cases h
  | some file =>
    rw [hparse] at h
    exact sourceFile_extractFile h

/-- An extraction that takes its relationships from the syntax trees. -/
def extraction (x : Extraction) : Extraction :=
  { x with
    fileRelationships := p.fileRelationships
    sourceFile_relationships := p.sourceFile_fileRelationships }

end Frontend

end GithubAgent.Indexing
