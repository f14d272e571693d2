import GithubAgent.Shared.Keys
import GithubAgent.Webhook.Handler

/-!
# Stored sessions

`src/shared/session_store.py`, with the two places that use it: the decision of
`RequestProcessor._execute` on how the next run of a thread starts, and the save after a run
in `JobProcessor._save_session`. A record is what one Redis hash decodes to.
-/

namespace GithubAgent.Session

open GithubAgent.Shared GithubAgent.Webhook

/-- The `status` of a session (`session_store.py:43`). -/
inductive SessionStatus where
  | active
  | completed
  | expired
  deriving DecidableEq

/-- `SessionInfo`; the first four fields are its key (`session_store.py:31-45`). -/
structure SessionInfo where
  key : WorktreeKey
  sessionId : String
  ref : String
  worktreePath : String
  createdAt : String
  lastRun : String
  turnCount : Int := 0
  status : SessionStatus := .active
  summary : Option String := none
  streamingToken : Option String := none
  deriving DecidableEq

/-- `ConversationConfig` without the time to live (`session_store.py:48-64`). -/
structure ConversationConfig where
  persist : Bool := false
  maxTurns : Int := 50
  autoContinue : Bool := false
  summaryFallback : Bool := true

/-- `SessionStore.save_session`: the counter is increased and not set, the creation time is
kept, and a summary or token is only replaced by a given one (`session_store.py:126-174`). -/
def saveSession (stored : Option SessionInfo) (now : String) (key : WorktreeKey)
    (sessionId worktreePath ref : String) (turnCount : Int)
    (summary streamingToken : Option String) : SessionInfo where
  key := key
  sessionId := sessionId
  ref := ref
  worktreePath := worktreePath
  createdAt := (stored.map (·.createdAt)).getD now
  lastRun := now
  turnCount := (stored.map (·.turnCount)).getD 0 + turnCount
  status := .active
  summary := summary.orElse fun _ ↦ stored.bind (·.summary)
  streamingToken := streamingToken.orElse fun _ ↦ stored.bind (·.streamingToken)

/-! ### Session flags -/

/-- How a run starts (`models.py`, `job_data["session_mode"]`). -/
inductive SessionMode where
  | new
  | resume
  | fork
  deriving DecidableEq

/-- The literal of the mode in job data. -/
def SessionMode.value : SessionMode → String
  | .new => "new"
  | .resume => "resume"
  | .fork => "fork"

/-- The alternatives of the flag group, in the order of the pattern, with what each asks for
(`request_processor.py:27-45`). -/
def sessionFlags : List (String × SessionMode) :=
  [("-c", .resume), ("-f", .fork), ("--continue", .resume), ("--fork", .fork), ("--new", .new)]

/-- The match of `(?:\\s+(.*))?$`: the query up to the end or a final newline. -/
def restOfQuery : List Char → Option (List Char)
  | [] => some []
  | c :: text =>
    let text := text.dropWhile isSpace
    let line := text.takeWhile (· ≠ '\n')
    let tail := text.dropWhile (· ≠ '\n')
    if isSpace c ∧ (tail = [] ∨ tail = ['\n']) then some line else none

/-- `_parse_session_flag` (`request_processor.py:32-45`). The pattern demands the slash command
before the flag. -/
def parseSessionFlag (userQuery : String) : Option SessionMode × String :=
  match userQuery.toList.dropWhile isSpace with
  | '/' :: text =>
    let word := text.takeWhile (!isSpace ·)
    let after := text.dropWhile (!isSpace ·)
    let flagged := sessionFlags.findSome? fun (flag, mode) ↦
      if flag.toList.isPrefixOf (after.dropWhile isSpace) then
        (restOfQuery ((after.dropWhile isSpace).drop flag.length)).map fun rest ↦ (some mode, rest)
      else none
    let parsed := flagged.orElse fun _ ↦ (restOfQuery after).map fun rest ↦ (none, rest)
    if word = [] then (none, userQuery)
    else match parsed with
      | some (mode, rest) => (mode, String.ofList (strip rest))
      | none => (none, userQuery)
  | _ => (none, userQuery)

/-! ### The decision of the request processor -/

/-- The session fields of the job that is created. -/
structure Decision where
  mode : SessionMode := .new
  sessionId : Option String := none
  summary : Option String := none
  deriving DecidableEq

/-- What the query and the configuration ask for when a session is stored
(`request_processor.py:264-276`). -/
def requestedMode (config : ConversationConfig) (userQuery : String) : SessionMode :=
  match (parseSessionFlag userQuery).1 with
  | some mode => mode
  | none => if config.autoContinue then .resume else .new

/-- The session lookup of `_execute` (`request_processor.py:248-303`). -/
def resolveSession (config : ConversationConfig) (issueNumber : Option Int) (userQuery : String)
    (stored : Option SessionInfo) : Decision :=
  if config.persist ∧ issueNumber.any (· ≠ 0) then
    match stored with
    | none => {}
    | some session =>
      let requested := requestedMode config userQuery
      let mode :=
        if requested ≠ .new ∧ config.maxTurns ≤ session.turnCount then .new else requested
      { mode := mode
        sessionId := if mode = .new then none else some session.sessionId
        summary :=
          if mode = .resume ∧ config.summaryFallback then session.summary.filter (· ≠ "")
          else none }
  else {}

section Decision

variable {config : ConversationConfig} {issueNumber : Int} {userQuery : String}
  {session : SessionInfo}

/-- Without a stored session every run starts fresh. -/
@[simp]
theorem resolveSession_none {number : Option Int} :
    resolveSession config number userQuery none = {} := by
  unfold resolveSession
  split <;> rfl

/-- The mode for a stored session: the requested one, below the turn limit. -/
theorem resolveSession_mode (hpersist : config.persist = true) (hnumber : issueNumber ≠ 0) :
    (resolveSession config (some issueNumber) userQuery (some session)).mode =
      if config.maxTurns ≤ session.turnCount then .new else requestedMode config userQuery := by
  simp only [resolveSession, hpersist, Option.any_some, decide_eq_true_eq, hnumber, ne_eq,
    not_false_eq_true, and_self, ↓reduceIte]
  by_cases hnew : requestedMode config userQuery = .new
  · simp [hnew]
  · simp [hnew]

/-- A run that does not start fresh gets the stored session id, a fresh one gets none. -/
theorem resolveSession_sessionId (hpersist : config.persist = true) (hnumber : issueNumber ≠ 0) :
    (resolveSession config (some issueNumber) userQuery (some session)).sessionId =
      if (resolveSession config (some issueNumber) userQuery (some session)).mode = .new then none
      else some session.sessionId := by
  simp [resolveSession, hpersist, hnumber]

end Decision

end GithubAgent.Session
