import GithubAgent.Base.Statements
import GithubAgent.Indexing.Rebuild

/-!
# The database of all repositories

`SymbolIndex.build` and `build_incremental` of `src/shared/code_graph.py`, statement by statement,
on the tables that the repositories share. Any statement may fail, which a call writes to its log,
and a call may be cut off between any two. What one repository has stored is a store of its own,
on which the statements act as those of the preceding modules; the others keep what they have.
-/

namespace GithubAgent.Indexing

open GithubAgent.Base

deriving instance DecidableEq for Tree

/-! ### The tables -/

/-- What `_get_head_commit` finds: a commit, or nothing, for which it returns `unknown`
(`code_graph.py:1826-1869`). -/
inductive Head where
  | commit (hash : String)
  | unknown (worktree : Tree)
  deriving DecidableEq

namespace Head

/-- The hash that is returned. -/
def hash : Head → String
  | .commit hash => hash
  | .unknown _ => "unknown"

/-- The files of the worktree: a clean checkout of the commit. -/
def tree (checkout : String → Tree) : Head → Tree
  | .commit hash => checkout hash
  | .unknown worktree => worktree

end Head

/-- A row of `_schema_meta`. It stores the hash only; which repository's call has written it, and
from which worktree, is kept for the statements below. -/
structure Mark where
  repo : String
  head : Head
  deriving DecidableEq

/-- The tables; no call writes `contains_edge`. -/
structure Database where
  symbols : Table String Row
  edges : Multiset Edge
  commits : Table String Mark

namespace Database

/-- Empty tables. -/
def empty : Database := ⟨.empty, 0, .empty⟩

variable (db : Database)

/-- The repository of a symbol. -/
def repoOf (id : String) : Option String := (db.symbols.get id).map SymbolRecord.repo

/-- What is stored of a repository: its symbols, and the edges from them. -/
def view (repo : String) : Store :=
  ⟨db.symbols.filter (·.repo = repo), db.edges.filter (db.repoOf ·.source = some repo), [], []⟩

/-- `DELETE FROM {table} WHERE in.repo = $repo`. -/
def deleteEdges (repo : String) (kind : RelationshipKind) : Database :=
  { db with edges := db.edges.filter fun e ↦ ¬ (e.kind = kind ∧ db.repoOf e.source = some repo) }

/-- `DELETE FROM {table} WHERE in.filepath = $fp AND in.repo = $repo`. -/
def deleteFileEdges (repo filepath : String) (kind : RelationshipKind) : Database :=
  { db with
    edges := db.edges.filter fun e ↦ ¬ (e.kind = kind ∧ db.repoOf e.source = some repo ∧
      (db.symbols.get e.source).map SymbolRecord.filepath = some filepath) }

/-- `DELETE FROM symbol WHERE …`: an edge is gone with either end. -/
def deleteSymbols (gone : Row → Bool) : Database :=
  let kept := db.symbols.filter (!gone ·)
  { db with symbols := kept, edges := db.edges.filter (Store.HasEnds kept) }

/-- `INSERT INTO symbol $records ON DUPLICATE KEY UPDATE …`. -/
def insertSymbols (records : List (String × Row)) : Database :=
  { db with symbols := db.symbols.upsertAll records }

/-- `INSERT RELATION INTO {table} $records`, and `RELATE` for a single edge. -/
def insertEdges (records : List Edge) : Database := { db with edges := db.edges + ↑records }

/-- The id of a repository's row of `_schema_meta` (`code_graph.py:1731`). -/
def recordId (repo : String) : String :=
  String.ofList (repo.toList.map fun c ↦ if c = '/' ∨ c = '.' ∨ c = '-' then '_' else c)

/-- `INSERT INTO _schema_meta … ON DUPLICATE KEY UPDATE …`. -/
def mark (m : Mark) : Database := { db with commits := db.commits.upsert (recordId m.repo) m }

/-- `SELECT repo_commit FROM _schema_meta WHERE repo_commit = $hash LIMIT 1` finds a row. -/
def hasCommit (hash : String) : Bool := db.commits.rows.any (·.2.head.hash = hash)

end Database

/-! ### The calls -/

/-- The statements of a call. -/
inductive Place where
  | lookup
  | clearEdges (kind : RelationshipKind)
  | clearSymbols
  | clearFileEdges (file : Nat) (kind : RelationshipKind)
  | clearFileSymbols (file : Nat)
  | symbols (batch : Nat)
  | definitions
  | edges (kind : RelationshipKind) (batch : Nat)
  | relate (kind : RelationshipKind) (batch edge : Nat)
  | mark

/-- What becomes of each statement of a call. -/
abbrev Faults := Place → Fate

/-- Every statement takes effect. -/
def Faults.none : Faults := fun _ ↦ .done

/-- The edge tables that are written, in the order of the deletions. -/
def edgeTables : List RelationshipKind := [.calls, .imports, .inherits]

section Calls

open Coroutine

variable (x : Extraction) (checkout : String → Tree) (faults : Faults) (repo : String)

/-- `_clear_repo_data` (`code_graph.py:1744-1785`). -/
def clearRepoData : Coroutine Database Unit :=
  each (fun _ kind ↦ logged (statement (faults (.clearEdges kind)) (·.deleteEdges repo kind))) 0
    edgeTables >>= fun _ ↦
  logged (statement (faults .clearSymbols) (·.deleteSymbols (·.repo = repo)))

/-- `_clear_repo_files` (`code_graph.py:1788-1819`). -/
def clearRepoFiles (files : List String) : Coroutine Database Unit :=
  each (fun i filepath ↦
    each (fun _ kind ↦
      logged (statement (faults (.clearFileEdges i kind)) (·.deleteFileEdges repo filepath kind)))
      0 edgeTables >>= fun _ ↦
    logged (statement (faults (.clearFileSymbols i))
      (·.deleteSymbols fun row ↦ row.filepath = filepath ∧ row.repo = repo))) 0 files

/-- `_upsert_symbols` (`code_graph.py:1255-1333`). -/
def upsertSymbols (tags : List Tag) : Coroutine Database Unit :=
  each (fun i batch ↦ logged (statement (faults (.symbols i)) (·.insertSymbols batch))) 0
    (batches 500 (tagRows x.digest repo tags))

/-- A batch of edges: one by one when the batch fails (`code_graph.py:1418-1447`). -/
def insertBatch (kind : RelationshipKind) (i : Nat) (batch : List Edge) :
    Coroutine Database Unit :=
  statement (faults (.edges kind i)) (·.insertEdges batch) >>= fun inserted ↦
    if inserted then pure ()
    else each (fun j e ↦ logged (statement (faults (.relate kind i j)) (·.insertEdges [e]))) 0 batch

/-- The edges of a table. -/
def edgesOf (edges : List Edge) (kind : RelationshipKind) : List Edge :=
  edges.filter (·.kind = kind)

/-- The edges, grouped by table, the table of the first edge first, and then by batch
(`code_graph.py:1404-1419`). -/
def insertAllEdges (edges : List Edge) : Coroutine Database Unit :=
  each (fun _ kind ↦ each (insertBatch faults kind) 0 (batches 500 (edgesOf edges kind))) 0
    (edges.map Edge.kind).eraseDups

/-- `_upsert_relationships` (`code_graph.py:1336-1447`). -/
def upsertRelationships (relationships : List Relationship) : Coroutine Database Unit :=
  if relationships = [] then pure ()
  else
    query (faults .definitions) (fun db ↦ definitions (db.view repo).symbols) >>= fun defs ↦
      match defs with
      | some defs => insertAllEdges faults (resolvedEdges defs relationships)
      | none => pure ()

/-- `_is_commit_indexed` (`code_graph.py:1708-1722`). -/
def isCommitMarked (head : Head) : Coroutine Database Bool :=
  if head.hash = "" ∨ repo = "" then pure false
  else query (faults .lookup) (·.hasCommit head.hash) >>= fun found ↦ pure (found.getD false)

/-- `_mark_commit_indexed` (`code_graph.py:1725-1741`). -/
def markCommitIndexed (head : Head) : Coroutine Database Unit :=
  if head.hash = "" ∨ repo = "" then pure ()
  else logged (statement (faults .mark) (·.mark ⟨repo, head⟩))

/-- The end of both builds: the symbols, the edges and the mark. -/
def store (head : Head) (tags : List Tag) (relationships : List Relationship) :
    Coroutine Database Unit :=
  if tags = [] then pure ()
  else
    upsertSymbols x faults repo tags >>= fun _ ↦
    upsertRelationships faults repo relationships >>= fun _ ↦
    markCommitIndexed faults repo head

/-- The arguments of `build`. -/
structure BuildOptions where
  preExtractedTags : Option (List Tag) := none
  preExtractedRelationships : Option (List Relationship) := none
  force : Bool := false

/-- `SymbolIndex.build`; it returns whether the build was skipped (`code_graph.py:130-210`). -/
def buildCall (head : Head) (options : BuildOptions) : Coroutine Database Bool :=
  (if options.force = false ∧ options.preExtractedTags.getD [] = [] then
    isCommitMarked faults repo head else pure false) >>= fun indexed ↦
  if indexed then pure true
  else
    clearRepoData faults repo >>= fun _ ↦
    store x faults repo head
      (options.preExtractedTags.getD (x.extractTags (head.tree checkout) none))
      (options.preExtractedRelationships.getD
        (x.extractRelationships (head.tree checkout) none)) >>= fun _ ↦
    pure false

/-- `SymbolIndex.build_incremental`, which never skips (`code_graph.py:212-277`). -/
def incrementalCall (head : Head) (changedFiles : List String) : Coroutine Database Bool :=
  if changedFiles = [] then pure false
  else
    clearRepoFiles faults repo changedFiles >>= fun _ ↦
    store x faults repo head (x.extractTags (head.tree checkout) (some changedFiles))
      (x.extractRelationships (head.tree checkout) (some changedFiles)) >>= fun _ ↦
    pure false

end Calls

/-- A call on a repository, in a worktree at a commit. -/
structure Call where
  repo : String
  head : Head
  /-- The arguments of `build`, or the changed files of `build_incremental`. -/
  kind : BuildOptions ⊕ List String

/-- The statements of a call. -/
def Call.run (x : Extraction) (checkout : String → Tree) (c : Call) (faults : Faults) :
    Coroutine Database Bool :=
  match c.kind with
  | .inl options => buildCall x checkout faults c.repo c.head options
  | .inr changedFiles => incrementalCall x checkout faults c.repo c.head changedFiles

end GithubAgent.Indexing
