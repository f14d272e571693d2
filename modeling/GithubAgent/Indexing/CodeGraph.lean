import GithubAgent.Base.Table
import GithubAgent.Indexing.Embedding
import Mathlib.Data.Multiset.Filter
import Mathlib.Data.String.Basic

/-!
# The symbols and edges of a repository

`SymbolIndex.build` and `build_incremental` of `src/shared/code_graph.py` with the statements
they issue, and `_build_route_maps` of the indexing worker. The store holds the rows of one
repository, since every statement is scoped to it. What tree-sitter, the regular expressions
and the walk over the sources find in a tree is a parameter.
-/

namespace GithubAgent.Indexing

open GithubAgent.Base

/-! ### What is extracted from a tree -/

/-- The files of a checkout. -/
structure Tree where
  files : List (String × String)
  nodup : (files.map Prod.fst).Nodup

/-- The content of a file. -/
def Tree.get (tree : Tree) (path : String) : Option String := tree.files.lookup path

/-- `TagKind` (`repomap.py:36`). -/
inductive TagKind where
  | definition
  | reference
  deriving DecidableEq

/-- The literal of a tag kind. -/
def TagKind.value : TagKind → String
  | .definition => "definition"
  | .reference => "reference"

/-- A definition or reference (`repomap.py:39-48`). -/
structure Tag where
  filepath : String
  name : String
  kind : TagKind
  line : Nat
  category : String
  endLine : Nat := 0
  deriving DecidableEq

/-- The edge tables that are written (`code_graph.py:31`). -/
inductive RelationshipKind where
  | calls
  | imports
  | inherits
  deriving DecidableEq

/-- A relationship between two symbols (`code_graph.py:40-49`). -/
structure Relationship where
  sourceFile : String
  sourceLine : Nat
  sourceName : String
  targetName : String
  targetFile : Option String := none
  kind : RelationshipKind := .calls
  deriving DecidableEq

/-- A row of `route` (`route_maps.py:26-37, 389-399`). -/
structure RouteDef where
  path : String
  method : String
  handler : String
  filepath : String
  line : Nat
  framework : String
  description : String
  deriving DecidableEq

/-- A row of `tool_def` (`route_maps.py:40-48, 425-432`). -/
structure ToolDef where
  name : String
  description : String
  serverFile : String
  serverName : String
  requiredParams : List String
  deriving DecidableEq

/-- What the walk and the extractors find. The walk yields each file of the tree at most once,
and what is extracted from a file carries its path. Relationships also depend on the other
paths, against which module names are resolved. -/
structure Extraction where
  sourceFiles : Tree → List String
  fileTags : String → String → List Tag
  fileRelationships : Tree → String → String → List Relationship
  fileChunks : String → String → List Chunk
  routes : Tree → List RouteDef
  tools : Tree → List ToolDef
  digest : String → String
  nodup_sourceFiles : ∀ tree, (sourceFiles tree).Nodup
  get_sourceFiles : ∀ tree, ∀ path ∈ sourceFiles tree, tree.get path ≠ none
  filepath_tags : ∀ path content, ∀ t ∈ fileTags path content, t.filepath = path
  sourceFile_relationships :
    ∀ tree path content, ∀ r ∈ fileRelationships tree path content, r.sourceFile = path
  filepath_chunks : ∀ path content, ∀ c ∈ fileChunks path content, c.filepath = path

namespace Extraction

variable (x : Extraction)

/-- The source files, or those in the list `only_files`. -/
def selected (tree : Tree) (onlyFiles : Option (List String)) : List String :=
  match onlyFiles with
  | none => x.sourceFiles tree
  | some only => (x.sourceFiles tree).filter (· ∈ only)

/-- The tags of one file. -/
def tagsAt (tree : Tree) (path : String) : List Tag :=
  (tree.get path).elim [] (x.fileTags path)

/-- The relationships of one file. -/
def relationshipsAt (tree : Tree) (path : String) : List Relationship :=
  (tree.get path).elim [] (x.fileRelationships tree path)

/-- The chunks of one file. -/
def chunksAt (tree : Tree) (path : String) : List Chunk :=
  (tree.get path).elim [] (x.fileChunks path)

/-- `RepoMap.extract_tags` (`repomap.py:86-152`). -/
def extractTags (tree : Tree) (onlyFiles : Option (List String)) : List Tag :=
  (x.selected tree onlyFiles).flatMap (x.tagsAt tree)

/-- `_extract_relationships` (`code_graph.py:279-458`). -/
def extractRelationships (tree : Tree) (onlyFiles : Option (List String)) : List Relationship :=
  (x.selected tree onlyFiles).flatMap (x.relationshipsAt tree)

/-- `chunk_repo` (`chunker.py:132-165`): the changed files are chunked without a look at the
ignore patterns. -/
def chunkRepo (tree : Tree) (changedFiles : Option (List String)) : List Chunk :=
  match changedFiles with
  | some changed => changed.flatMap (x.chunksAt tree)
  | none => (x.sourceFiles tree).flatMap (x.chunksAt tree)

end Extraction

/-! ### The store -/

/-- A row of `symbol`; vectors are left out. -/
abbrev Row := SymbolRecord Empty

/-- A row of an edge table. -/
structure Edge where
  kind : RelationshipKind
  source : String
  target : String
  sourceLine : Nat
  deriving DecidableEq

/-- The rows of one repository. -/
structure Store where
  symbols : Table String Row
  edges : Multiset Edge
  routes : List RouteDef
  tools : List ToolDef

namespace Store

/-- Nothing is stored. -/
def empty : Store := ⟨.empty, 0, [], []⟩

/-- Both ends of an edge exist. -/
def HasEnds (symbols : Table String Row) (e : Edge) : Prop :=
  symbols.get e.source ≠ none ∧ symbols.get e.target ≠ none

instance (symbols : Table String Row) : DecidablePred (HasEnds symbols) := fun _ ↦
  inferInstanceAs (Decidable (_ ∧ _))

/-- `DELETE FROM symbol`: an edge is gone with either end. -/
def deleteSymbols (s : Store) (gone : Row → Bool) : Store :=
  let kept := s.symbols.filter (!gone ·)
  { s with symbols := kept, edges := s.edges.filter (HasEnds kept) }

/-- `_clear_repo_data` (`code_graph.py:1745-1785`). -/
def clearRepoData (s : Store) : Store := { s with symbols := .empty, edges := 0 }

/-- One file of `_clear_repo_files` (`code_graph.py:1795-1817`). -/
def clearFile (s : Store) (filepath : String) : Store :=
  let withoutEdges := { s with
    edges := s.edges.filter fun e ↦ (s.symbols.get e.source).map SymbolRecord.filepath ≠ some filepath }
  withoutEdges.deleteSymbols (·.filepath = filepath)

/-- `_clear_repo_files` (`code_graph.py:1788-1819`). -/
def clearRepoFiles (s : Store) (files : List String) : Store := files.foldl clearFile s

/-- A statement of `upsert_chunks`. -/
def execute (s : Store) : Statement Empty → Store
  | .deleteFile _ filepath => s.deleteSymbols (·.filepath = filepath)
  | .upsert recordId record => { s with symbols := s.symbols.upsert recordId record }

end Store

/-- `_lang_from_filepath` (`code_graph.py:1239-1252`). -/
def langFromFilepath (filepath : String) : String :=
  let chars := filepath.toList
  let ext := String.ofList ((chars.reverse.takeWhile (· ≠ '.')).reverse.map Char.toLower)
  if '.' ∉ chars then ""
  else if ext = "py" then "python"
  else if ext ∈ ["js", "mjs", "jsx"] then "javascript"
  else if ext ∈ ["ts", "tsx"] then "typescript"
  else if ext = "go" then "go"
  else if ext = "rs" then "rust"
  else if ext = "java" then "java"
  else ""

/-- The key of the in-batch deduplication (`code_graph.py:1264`). -/
def Tag.key (t : Tag) : String × TagKind × String × String × Nat :=
  (t.name, t.kind, t.category, t.filepath, t.line)

section Rows

variable (digest : String → String) (repo : String)

/-- The id and the record of a tag (`code_graph.py:1269-1290`). -/
def Tag.row (t : Tag) : String × Row :=
  (symbolId digest t.filepath t.line t.kind.value t.name repo,
    { name := t.name
      kind := t.kind.value
      category := t.category
      filepath := t.filepath
      line := t.line
      endLine := if t.endLine = 0 then t.line else t.endLine
      language := langFromFilepath t.filepath
      repo := repo
      embedding := none
      content := "" })

/-- The id and the record of a chunk (`indexing_worker.py:354-368`). -/
def Chunk.row (c : Chunk) : String × Row :=
  (symbolId digest c.filepath c.startLine c.kind.value c.name repo, c.record repo none)

/-- The rows of a batch of tags: of tags with one key, the first. -/
def tagRows (tags : List Tag) : List (String × Row) :=
  (dedupBy Tag.key [] tags).map (Tag.row digest repo)

end Rows

/-! ### Resolving relationships -/

/-- The definitions, in the order of their ids (`code_graph.py:1350-1374`). -/
def definitions (symbols : Table String Row) : List (String × Row) :=
  symbols.rows.filter fun row ↦ row.2.kind = "definition" ∧ row.2.name ≠ ""

/-- `by_name_file.get((name, filepath))`: the last definition of that name in the file. -/
def byNameFile (defs : List (String × Row)) (name filepath : String) : Option (String × Row) :=
  defs.reverse.find? fun row ↦ row.2.name = name ∧ row.2.filepath = filepath

/-- `by_name_only.get(name)`: the first definition of that name. -/
def byNameOnly (defs : List (String × Row)) (name : String) : Option (String × Row) :=
  defs.find? fun row ↦ row.2.name = name

/-- The two ends of a relationship, unless one is missing or they are the same
(`code_graph.py:1381-1402`). -/
def resolve (defs : List (String × Row)) (r : Relationship) :
    Option ((String × Row) × (String × Row)) := do
  let source ← byNameFile defs r.sourceName r.sourceFile
  let target ← ((r.targetFile.filter (· ≠ "")).bind (byNameFile defs r.targetName)).or
    (byNameOnly defs r.targetName)
  if source.1 = target.1 then none else some (source, target)

/-- The edge between the two ends. -/
def edgeOf (r : Relationship) (ends : (String × Row) × (String × Row)) : Edge :=
  ⟨r.kind, ends.1.1, ends.2.1, r.sourceLine⟩

/-- The edges of relationships that resolve among the definitions. -/
def resolvedEdges (defs : List (String × Row)) (relationships : List Relationship) : List Edge :=
  relationships.filterMap fun r ↦ (resolve defs r).map (edgeOf r)

namespace Store

/-- `_upsert_symbols` (`code_graph.py:1255-1333`). -/
def upsertSymbols (s : Store) (digest : String → String) (repo : String) (tags : List Tag) :
    Store :=
  { s with symbols := s.symbols.upsertAll (tagRows digest repo tags) }

/-- `_upsert_relationships` (`code_graph.py:1336-1447`). -/
def upsertRelationships (s : Store) (relationships : List Relationship) : Store :=
  { s with edges := s.edges + (resolvedEdges (definitions s.symbols) relationships : List Edge) }

end Store

/-! ### Building the graph -/

/-- The store, the commit in the repository's row of `_schema_meta`, and the indexed commit of
each ref in Redis. -/
structure IndexState where
  store : Store
  markedCommit : Option String
  indexedCommits : String → Option String

section Build

variable (x : Extraction) (repo : String)

/-- `_is_commit_indexed`: some repository's row has the commit (`code_graph.py:1708-1722`).
`elsewhere` says that another one's has. -/
def isCommitIndexed (s : IndexState) (commit : String) (elsewhere : Bool) : Bool :=
  s.markedCommit = some commit || elsewhere

/-- `SymbolIndex.build` on a checkout of the commit (`code_graph.py:130-210`). -/
def build (s : IndexState) (tree : Tree) (commit : String) (elsewhere : Bool) : IndexState :=
  if isCommitIndexed s commit elsewhere then s
  else
    let cleared := s.store.clearRepoData
    let tags := x.extractTags tree none
    if tags = [] then { s with store := cleared }
    else
      let withSymbols := cleared.upsertSymbols x.digest repo tags
      { s with
        store := withSymbols.upsertRelationships (x.extractRelationships tree none)
        markedCommit := some commit }

/-- `SymbolIndex.build_incremental` (`code_graph.py:212-277`). -/
def buildIncremental (s : IndexState) (tree : Tree) (commit : String)
    (changedFiles : List String) : IndexState :=
  if changedFiles = [] then s
  else
    let cleared := s.store.clearRepoFiles changedFiles
    let tags := x.extractTags tree (some changedFiles)
    if tags = [] then { s with store := cleared }
    else
      let withSymbols := cleared.upsertSymbols x.digest repo tags
      { s with
        store := withSymbols.upsertRelationships (x.extractRelationships tree (some changedFiles))
        markedCommit := some commit }

/-- `_build_code_graph`: an empty list of changed files leads to a full build
(`indexing_worker.py:506-524`). -/
def buildCodeGraph (s : IndexState) (tree : Tree) (commit : String) (elsewhere : Bool)
    (changedFiles : Option (List String)) : IndexState :=
  match changedFiles with
  | some (path :: rest) => buildIncremental x repo s tree commit (path :: rest)
  | _ => build x repo s tree commit elsewhere

/-- `_build_route_maps`: each table is rewritten only when something was extracted
(`indexing_worker.py:527-540`). -/
def buildRouteMaps (s : IndexState) (tree : Tree) : IndexState :=
  { s with
    store := { s.store with
      routes := if x.routes tree = [] then s.store.routes else x.routes tree
      tools := if x.tools tree = [] then s.store.tools else x.tools tree } }

end Build

end GithubAgent.Indexing
