import GithubAgent.Base.Transition
import GithubAgent.Indexing.CodeGraph

/-!
# Indexing jobs

`process_indexing_job` of `src/services/indexing_worker/indexing_worker.py`: the choice between
a full and an incremental index, the graph, the route maps, the chunks and the metadata. A
commit determines its tree. Jobs of one repository run one after the other and reach the
database, Redis and git; what a job brings from outside is its ref, the commit it checks out,
whether another repository has indexed that commit, and how many chunks were embedded.
-/

namespace GithubAgent.Indexing

open GithubAgent.Base

/-- The changed files of `git diff --name-only --diff-filter=ACMR`: those of the new tree that
the old one does not have, or has with another content (`indexing_worker.py:446-467`). -/
def changedFiles (old new : Tree) : List String :=
  (new.files.filter fun file ↦ old.get file.1 ≠ some file.2).map Prod.fst

/-- The old paths of deleted and renamed files: those the new tree does not have
(`indexing_worker.py:409-444`). -/
def removedFiles (old new : Tree) : List String :=
  (old.files.filter fun file ↦ new.get file.1 = none).map Prod.fst

/-- An indexing job, with what it meets. -/
structure Job where
  ref : String
  commit : String
  indexedElsewhere : Bool
  embedded : Nat
  deriving DecidableEq

section Jobs

variable (x : Extraction) (repo : String)

/-- `_update_indexing_metadata` (`indexing_worker.py:543-568`). -/
def IndexState.updateMetadata (s : IndexState) (ref commit : String) : IndexState :=
  { s with indexedCommits := Function.update s.indexedCommits ref (some commit) }

/-- The last part of a job: the graph, the route maps and the chunks
(`indexing_worker.py:664-716`). -/
def index (s : IndexState) (job : Job) (tree : Tree) (changed : Option (List String))
    (removed : List String) : IndexState :=
  let mapped := buildRouteMaps x (buildCodeGraph x repo s tree job.commit job.indexedElsewhere
    changed) tree
  let chunks := x.chunkRepo tree changed
  if chunks = [] then mapped
  else
    let statements :=
      upsertChunks x.digest repo chunks (List.replicate job.embedded none) removed
    { mapped with store := statements.foldl Store.execute mapped.store }.updateMetadata
      job.ref job.commit

/-- `process_indexing_job` (`indexing_worker.py:588-725`). -/
def processIndexingJob (history : String → Tree) (s : IndexState) (job : Job) : IndexState :=
  let tree := history job.commit
  match s.indexedCommits job.ref with
  | some previous =>
    if previous = job.commit then index x repo s job tree none []
    else
      let changed := changedFiles (history previous) tree
      let removed := removedFiles (history previous) tree
      if changed = [] ∧ removed = [] then s.updateMetadata job.ref job.commit
      else index x repo s job tree (some changed) removed
  | none => index x repo s job tree none []

/-- A repository of which nothing is stored. -/
def IndexState.initial : IndexState := ⟨.empty, none, fun _ ↦ none⟩

/-- What clearing the repository's data and fully indexing a tree stores. -/
def fullIndex (tree : Tree) : Store :=
  (index x repo .initial ⟨"", "", false, (x.chunkRepo tree none).length⟩ tree none []).store

/-- Jobs one after the other, with the commit of the last one. -/
structure Progress where
  state : IndexState
  lastCommit : Option String

/-- The runs of the indexing worker on one repository. -/
def jobs (history : String → Tree) : System Progress Job where
  init s := s = ⟨.initial, none⟩
  step s job := some ⟨processIndexingJob x repo history s.state job, some job.commit⟩

end Jobs

end GithubAgent.Indexing
