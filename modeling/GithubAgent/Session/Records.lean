import GithubAgent.Base.Keys
import GithubAgent.Session.Store

/-!
# Session records in Redis

`SessionStore` of `src/shared/session_store.py` and `StreamingSessionStore` of
`src/shared/streaming_session.py`, command by command: the hashes of both stores, the lookup
strings, the inboxes and the subscriber counts, each with the time it expires. An update writes a
field of whatever is under the key, and creates a hash where there is none.
-/

namespace GithubAgent.Session

open GithubAgent.Base GithubAgent.Shared

/-- The fields of a Redis hash. -/
abbrev Hash := String → Option String

namespace Hash

/-- The hash without fields. -/
def empty : Hash := fun _ ↦ none

/-- `HSET` of one field. -/
def hset (h : Hash) (field value : String) : Hash := Function.update h field (some value)

/-- `HSET` with a mapping. -/
def hsetAll (h : Hash) (mapping : List (String × String)) : Hash :=
  mapping.foldl (fun h entry ↦ h.hset entry.1 entry.2) h

/-- `HSETNX`. -/
def hsetnx (h : Hash) (field value : String) : Hash :=
  if (h field).isSome then h else h.hset field value

/-- `HSET` of a value that is not `None`. -/
def hsetGiven (h : Hash) (field : String) : Option String → Hash
  | some value => h.hset field value
  | none => h

/-- The integer Redis reads in a field; a field that does not exist counts as zero. -/
def integer (h : Hash) (field : String) : Option Int :=
  match h field with
  | none => some 0
  | some text => text.toInt?.filter fun n ↦ toString n = text

/-- `HINCRBY`; `none` is the error on a field that is no integer. -/
def hincrby (h : Hash) (field : String) (n : Int) : Option Hash :=
  (h.integer field).map fun old ↦ h.hset field (toString (old + n))

end Hash

/-- The keys of the two stores: sessions by `session:map:…`, streaming sessions, inboxes and
subscriber counts by token, and tokens by `session:stream:lookup:…`. -/
structure Records where
  sessions : Keys String Hash
  streams : Keys String Hash
  lookups : Keys String String
  inboxes : Keys String (List String)
  subscribers : Keys String Int

namespace Records

/-- The stores before the first session. -/
def empty : Records := ⟨.empty, .empty, .empty, .empty, .empty⟩

variable (r : Records) (now : Nat)

/-- The session key of a conversation. -/
def sessionKeyOf (key : WorktreeKey) : String :=
  sessionKey key.repo key.threadType key.threadId key.workflow

/-- The lookup key of a conversation. -/
def lookupKeyOf (key : WorktreeKey) : String :=
  streamingLookupKey key.repo key.threadId key.workflow (some key.threadType)

/-- The lookup key of the same conversation in the older format. -/
def legacyKeyOf (key : WorktreeKey) : String :=
  streamingLookupKey key.repo key.threadId key.workflow none

/-! ### Sessions -/

/-- The arguments of `save_session` beside the key. -/
structure SavedSession where
  sessionId : String
  worktreePath : String
  ref : String
  turnCount : Int
  summary : Option String
  ttlHours : Nat
  streamingToken : Option String

/-- The fields that `save_session` always writes, at the time whose text is given
(`session_store.py:144-158`). -/
def savedFields (key : WorktreeKey) (saved : SavedSession) (time : String) (stored : Hash) :
    Hash :=
  (stored.hsetAll
    [("session_id", saved.sessionId), ("repo", key.repo), ("thread_type", key.threadType.value),
      ("thread_id", key.threadId), ("workflow_name", key.workflow), ("ref", saved.ref),
      ("worktree_path", saved.worktreePath), ("last_run", time), ("status", "active")]).hsetnx
    "created_at" time

/-- The fields it writes where it is given something; `none` is the error of `HINCRBY`
(`session_store.py:159-166`). -/
def savedRest (saved : SavedSession) (h : Hash) : Option Hash :=
  let counted := if saved.turnCount = 0 then some h else h.hincrby "turn_count" saved.turnCount
  counted.map fun h ↦
    (h.hsetGiven "summary" saved.summary).hsetGiven "streaming_token" saved.streamingToken

/-- `SessionStore.save_session`; after an error nothing more is written
(`session_store.py:126-174`). -/
def saveSession (key : WorktreeKey) (saved : SavedSession) (time : String) : Records :=
  let fields := savedFields key saved time ((r.sessions.get now (sessionKeyOf key)).getD .empty)
  { r with
    sessions := match savedRest saved fields with
      | none => r.sessions.modify now (sessionKeyOf key) fun _ ↦ fields
      | some h => (r.sessions.modify now (sessionKeyOf key) fun _ ↦ h).expire now
          (sessionKeyOf key) (saved.ttlHours * 3600) }

/-- `SessionInfo.model_validate` on a decoded hash (`session_store.py:31-45`). -/
def validate (h : Hash) : Option SessionInfo := do
  let sessionId ← h "session_id"
  let repo ← h "repo"
  let threadType ← match ← h "thread_type" with
    | "pr" => some ThreadType.pr
    | "issue" => some .issue
    | "discussion" => some .discussion
    | _ => none
  let threadId ← h "thread_id"
  let workflow ← h "workflow_name"
  let ref ← h "ref"
  let worktreePath ← h "worktree_path"
  let createdAt ← h "created_at"
  let lastRun ← h "last_run"
  let turnCount ← match h "turn_count" with
    | some text => text.toInt?
    | none => some 0
  let status ← match h "status" with
    | none => some SessionStatus.active
    | some "active" => some .active
    | some "completed" => some .completed
    | some "expired" => some .expired
    | some _ => none
  return {
    key := ⟨repo, threadType, threadId, workflow⟩
    sessionId := sessionId
    ref := ref
    worktreePath := worktreePath
    createdAt := createdAt
    lastRun := lastRun
    turnCount := turnCount
    status := status
    summary := h "summary"
    streamingToken := h "streaming_token" }

/-- `SessionStore.get_session` (`session_store.py:176-191`). -/
def getSession (key : WorktreeKey) : Option SessionInfo :=
  (r.sessions.get now (sessionKeyOf key)).bind validate

/-- The token a stored session names, if it names one that is not empty. -/
def streamingTokenOf (key : WorktreeKey) : Option String :=
  ((r.getSession now key).bind (·.streamingToken)).filter (· ≠ "")

/-- `SessionStore._cleanup_streaming` (`session_store.py:304-329`). -/
def cleanupStreaming (token : String) (key : WorktreeKey) : Records :=
  { r with
    streams := r.streams.del token
    lookups := (r.lookups.del (lookupKeyOf key)).del (legacyKeyOf key) }

/-- `SessionStore.close_session` (`session_store.py:193-212`). -/
def closeSession (key : WorktreeKey) : Records :=
  let cleaned := match r.streamingTokenOf now key with
    | some token => r.cleanupStreaming token key
    | none => r
  { cleaned with sessions := cleaned.sessions.del (sessionKeyOf key) }

/-- `SessionStore.update_summary` (`session_store.py:270-284`). -/
def updateSummary (key : WorktreeKey) (summary : String) : Records :=
  { r with
    sessions := r.sessions.modify now (sessionKeyOf key) fun stored ↦
      (stored.getD .empty).hset "summary" summary }

/-- `SessionStore.increment_turn_count`; an error of `HINCRBY` ends in the log
(`session_store.py:286-302`). -/
def incrementTurnCount (key : WorktreeKey) (additionalTurns : Int) (time : String) : Records :=
  let stored := (r.sessions.get now (sessionKeyOf key)).getD .empty
  match stored.hincrby "turn_count" additionalTurns with
  | none => r
  | some counted =>
    { r with
      sessions := (r.sessions.modify now (sessionKeyOf key) fun _ ↦ counted).modify now
        (sessionKeyOf key) fun stored ↦ (stored.getD .empty).hset "last_run" time }

/-! ### Streaming sessions -/

/-- The arguments of `create_session` beside the token and the conversation, whose thread id is
the text of the issue number. -/
structure CreatedStream where
  sessionProxyUrl : String := ""
  ttlSeconds : Nat
  installationId : String := ""
  initialQuery : String := ""
  ref : String := "main"
  user : String := ""
  conversationConfig : String := ""
  sessionId : String := ""

/-- The mapping that `create_session` writes (`streaming_session.py:137-153`). -/
def createdMapping (token : String) (key : WorktreeKey) (created : CreatedStream) :
    List (String × String) :=
  [("token", token), ("repo", key.repo), ("issue_number", key.threadId),
    ("workflow", key.workflow), ("session_proxy_url", created.sessionProxyUrl),
    ("status", "running"), ("installation_id", created.installationId),
    ("initial_query", created.initialQuery), ("thread_type", key.threadType.value),
    ("ref", created.ref), ("user", created.user),
    ("conversation_config", created.conversationConfig), ("session_id", created.sessionId),
    ("transcript_path", ""), ("run_count", "1")]

/-- `SETEX`, which refuses an expiry of zero seconds. -/
def setexLookup (lookup token : String) (ttlSeconds : Nat) : Keys String String :=
  if ttlSeconds = 0 then r.lookups else r.lookups.setex now lookup ttlSeconds token

/-- `StreamingSessionStore.create_session`, one transaction (`streaming_session.py:102-165`). -/
def createSession (token : String) (key : WorktreeKey) (created : CreatedStream) : Records :=
  { r with
    streams := (r.streams.modify now token fun stored ↦
      (stored.getD .empty).hsetAll (createdMapping token key created)).expire now token
        created.ttlSeconds
    lookups := r.setexLookup now (lookupKeyOf key) token created.ttlSeconds }

/-- The token that `find_session` reads, under either key (`streaming_session.py:182-200`). -/
def lookedUp (key : WorktreeKey) : Option String :=
  ((r.lookups.get now (lookupKeyOf key)).filter (· ≠ "")).or
    ((r.lookups.get now (legacyKeyOf key)).filter (· ≠ ""))

/-- `StreamingSessionStore.find_session` with a thread type (`streaming_session.py:167-208`). -/
def findSession (key : WorktreeKey) : Option String × Records :=
  match r.lookedUp now key with
  | none => (none, r)
  | some token =>
    if r.streams.has now token then (some token, r)
    else (none, { r with lookups := r.lookups.del (lookupKeyOf key) })

/-- An update of the hash of a token. -/
def updateStream (token : String) (f : Hash → Hash) : Records :=
  { r with streams := r.streams.modify now token fun stored ↦ f (stored.getD .empty) }

/-- `StreamingSessionStore.set_completed` (`streaming_session.py:245-274`). -/
def setCompleted (token : String) (isError : Bool) (sessionId : Option String) : Records :=
  let status := if isError then "error" else "completed"
  r.updateStream now token fun h ↦
    match sessionId.filter (· ≠ "") with
    | some sessionId => h.hsetAll [("status", status), ("session_id", sessionId)]
    | none => h.hset "status" status

/-- `StreamingSessionStore.set_running` (`streaming_session.py:276-285`). -/
def setRunning (token : String) (ttlSeconds : Nat) : Records :=
  let updated := r.updateStream now token fun h ↦ h.hset "status" "running"
  { updated with streams := updated.streams.expire now token ttlSeconds }

/-- `StreamingSessionStore.update_session_id` (`streaming_session.py:358-366`). -/
def updateSessionId (token sessionId : String) : Records :=
  r.updateStream now token fun h ↦ h.hset "session_id" sessionId

/-- `StreamingSessionStore.update_transcript_path` (`streaming_session.py:368-378`). -/
def updateTranscriptPath (token path : String) : Records :=
  r.updateStream now token fun h ↦ h.hset "transcript_path" path

/-- `StreamingSessionStore.increment_run_count`; `none` in `hincrby` is an exception
(`streaming_session.py:380-384`). -/
def incrementRunCount (token : String) : Records :=
  match ((r.streams.get now token).getD .empty).hincrby "run_count" 1 with
  | none => r
  | some counted => r.updateStream now token fun _ ↦ counted

/-- `StreamingSessionStore.delete_session` (`streaming_session.py:287-295`). -/
def deleteSession (token : String) : Records :=
  { r with
    streams := r.streams.del token
    inboxes := r.inboxes.del token
    subscribers := r.subscribers.del token }

/-- `StreamingSessionStore.set_ttl` (`streaming_session.py:297-307`). -/
def setTtl (token : String) (ttlSeconds : Nat) : Records :=
  { r with
    streams := r.streams.expire now token ttlSeconds
    inboxes := r.inboxes.expire now token ttlSeconds
    subscribers := r.subscribers.expire now token ttlSeconds }

/-- `SessionStore._propagate_streaming_ttl` (`session_store.py:331-355`). -/
def propagateStreamingTtl (token : String) (key : WorktreeKey) (ttlHours : Nat) : Records :=
  let ttlSeconds := ttlHours * 3600
  let r := r.setTtl now token ttlSeconds
  { r with
    lookups := (r.lookups.expire now (lookupKeyOf key) ttlSeconds).expire now (legacyKeyOf key)
      ttlSeconds }

/-- `SessionStore.expire_session` (`session_store.py:234-268`). -/
def expireSession (key : WorktreeKey) (ttlHours : Nat) : Records :=
  if r.sessions.has now (sessionKeyOf key) then
    let expired :=
      { r with sessions := r.sessions.expire now (sessionKeyOf key) (ttlHours * 3600) }
    match expired.streamingTokenOf now key with
    | some token => expired.propagateStreamingTtl now token key ttlHours
    | none => expired
  else r

/-! ### Subscribers and inboxes -/

/-- `_INCR_SUBSCRIBERS_LUA`: only the first subscriber sets the expiry, of
`DEFAULT_SESSION_TTL_SECONDS` (`streaming_session.py:36-42`, `:309-315`). -/
def incrementSubscribers (sessionTtl : Nat) (token : String) : Records :=
  let counted := r.subscribers.modify now token fun count ↦ count.getD 0 + 1
  { r with
    subscribers :=
      if counted.get now token = some 1 then counted.expire now token sessionTtl
      else counted }

/-- `_DECR_SUBSCRIBERS_LUA` (`streaming_session.py:44-50`, `:317-321`). -/
def decrementSubscribers (token : String) : Records :=
  let counted := r.subscribers.modify now token fun count ↦ count.getD 0 - 1
  { r with
    subscribers :=
      if (counted.get now token).any (· ≤ 0) then counted.del token else counted }

/-- `StreamingSessionStore.has_subscribers` (`streaming_session.py:323-330`). -/
def hasSubscribers (token : String) : Bool := (r.subscribers.get now token).any (0 < ·)

/-- `StreamingSessionStore.push_inbox_message` (`streaming_session.py:390-395`). -/
def pushInboxMessage (sessionTtl : Nat) (token content : String) : Records :=
  { r with
    inboxes := (r.inboxes.modify now token fun items ↦ items.getD [] ++ [content]).expire now token
      sessionTtl }

/-- `StreamingSessionStore.pop_inbox_messages`, for its effect (`streaming_session.py:397-427`). -/
def popInboxMessages (token : String) : Records := { r with inboxes := r.inboxes.del token }

/-! ### What a write to one streaming session leaves -/

section Frame

variable {token u : String} (hu : u ≠ token)

include hu

theorem createSession_of_ne (key : WorktreeKey) (created : CreatedStream) :
    (r.createSession now token key created).streams u = r.streams u := by
  simp only [createSession, Keys.expire_modify, Keys.setex_apply_of_ne _ _ hu]

theorem updateStream_of_ne (f : Hash → Hash) :
    (r.updateStream now token f).streams u = r.streams u := by
  simp only [updateStream, Keys.modify_apply_of_ne _ _ hu]

theorem setRunning_of_ne (ttlSeconds : Nat) :
    (r.setRunning now token ttlSeconds).streams u = r.streams u := by
  simp only [setRunning, updateStream, Keys.expire_modify, Keys.setex_apply_of_ne _ _ hu]

theorem incrementRunCount_of_ne : (r.incrementRunCount now token).streams u = r.streams u := by
  unfold incrementRunCount
  split
  · rfl
  · exact updateStream_of_ne r now hu _

end Frame

theorem incrementRunCount_sessions (token : String) :
    (r.incrementRunCount now token).sessions = r.sessions := by
  unfold incrementRunCount
  split <;> rfl

end Records

/-- The operations of the two stores that write. -/
inductive Operation where
  | saveSession (key : WorktreeKey) (saved : Records.SavedSession) (time : String)
  | closeSession (key : WorktreeKey)
  | expireSession (key : WorktreeKey) (ttlHours : Nat)
  | updateSummary (key : WorktreeKey) (summary : String)
  | incrementTurnCount (key : WorktreeKey) (additionalTurns : Int) (time : String)
  | createSession (token : String) (key : WorktreeKey) (created : Records.CreatedStream)
  | findSession (key : WorktreeKey)
  | setCompleted (token : String) (isError : Bool) (sessionId : Option String)
  | setRunning (token : String) (ttlSeconds : Nat)
  | deleteSession (token : String)
  | setTtl (token : String) (ttlSeconds : Nat)
  | updateSessionId (token sessionId : String)
  | updateTranscriptPath (token path : String)
  | incrementRunCount (token : String)
  | incrementSubscribers (token : String)
  | decrementSubscribers (token : String)
  | pushInboxMessage (token content : String)
  | popInboxMessages (token : String)

/-- The stores after an operation at the given time, under the given default expiry. -/
def Records.apply (sessionTtl : Nat) (r : Records) (now : Nat) : Operation → Records
  | .saveSession key saved time => r.saveSession now key saved time
  | .closeSession key => r.closeSession now key
  | .expireSession key ttlHours => r.expireSession now key ttlHours
  | .updateSummary key summary => r.updateSummary now key summary
  | .incrementTurnCount key turns time => r.incrementTurnCount now key turns time
  | .createSession token key created => r.createSession now token key created
  | .findSession key => (r.findSession now key).2
  | .setCompleted token isError sessionId => r.setCompleted now token isError sessionId
  | .setRunning token ttlSeconds => r.setRunning now token ttlSeconds
  | .deleteSession token => r.deleteSession token
  | .setTtl token ttlSeconds => r.setTtl now token ttlSeconds
  | .updateSessionId token sessionId => r.updateSessionId now token sessionId
  | .updateTranscriptPath token path => r.updateTranscriptPath now token path
  | .incrementRunCount token => r.incrementRunCount now token
  | .incrementSubscribers token => r.incrementSubscribers now sessionTtl token
  | .decrementSubscribers token => r.decrementSubscribers now token
  | .pushInboxMessage token content => r.pushInboxMessage now sessionTtl token content
  | .popInboxMessages token => r.popInboxMessages token

end GithubAgent.Session
