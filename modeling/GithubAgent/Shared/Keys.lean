import Mathlib.Data.List.Basic

/-!
# Thread types and the keys of a conversation

The key builders that several services share: `src/shared/constants.py`,
`src/shared/session_store.py`, `src/shared/worktree_lock.py` and
`src/shared/worktree_manager.py`.
-/

namespace GithubAgent.Shared

/-- The kinds of GitHub thread (`session_store.py:35`). -/
inductive ThreadType where
  | pr
  | issue
  | discussion
  deriving DecidableEq

/-- The literal that stands for a thread type in keys and messages. -/
def ThreadType.value : ThreadType → String
  | .pr => "pr"
  | .issue => "issue"
  | .discussion => "discussion"

/-- `repo.replace("/", "--")` (`constants.py:84-90`). -/
def sanitizeRepoKey (repo : String) : String :=
  String.ofList (repo.toList.flatMap fun c ↦ if c = '/' then ['-', '-'] else [c])

/-- The lookup key of a streaming session; without a thread type, the legacy form
(`constants.py:93-110`). -/
def streamingLookupKey (repo threadId workflow : String) (threadType : Option ThreadType) :
    String :=
  match threadType with
  | some t =>
    "session:stream:lookup:" ++ sanitizeRepoKey repo ++ ":" ++ t.value ++ ":" ++ threadId ++ ":" ++
      workflow
  | none => "session:stream:lookup:" ++ sanitizeRepoKey repo ++ ":" ++ threadId ++ ":" ++ workflow

/-- `_session_key` (`session_store.py:100-103`). -/
def sessionKey (repo : String) (threadType : ThreadType) (threadId workflow : String) : String :=
  "session:map:" ++ sanitizeRepoKey repo ++ ":" ++ threadType.value ++ ":" ++ threadId ++ ":" ++
    workflow

/-- The components of `get_worktree_path` below `WORKTREE_BASE` (`worktree_manager.py:29-48`). -/
def getWorktreePath (repo : String) (threadType : ThreadType) (threadId workflow : String) :
    List String :=
  [sanitizeRepoKey repo, threadType.value ++ "-" ++ threadId, workflow]

/-- The identity of a worktree and its session (`worktree_lock.py:45-68`). -/
structure WorktreeKey where
  repo : String
  threadType : ThreadType
  threadId : String
  workflow : String
  deriving DecidableEq

namespace WorktreeKey

/-- `WorktreeKey.__str__` (`worktree_lock.py:54-56`). -/
def text (k : WorktreeKey) : String :=
  sanitizeRepoKey k.repo ++ ":" ++ k.threadType.value ++ "-" ++ k.threadId ++ ":" ++ k.workflow

/-- `WorktreeKey.lock_key` (`worktree_lock.py:58-60`). -/
def lockKey (k : WorktreeKey) : String := "lock:worktree:" ++ k.text

/-- `WorktreeKey.pending_key` (`worktree_lock.py:62-64`). -/
def pendingKey (k : WorktreeKey) : String := "pending:" ++ k.text

end WorktreeKey

end GithubAgent.Shared
