import GithubAgent.Queue.Token
import GithubAgent.Session.Records
import GithubAgent.Shared.Conversation

/-!
# Sessions resumed from a transcript

When a session's keys have expired, the proxy finds its transcript, reads the file of metadata
beside it and waits for a message, for which it creates a session and a job. The metadata pass
through a sanitiser meant for browsers, a merge with what the URL says, a new Redis record and the
job builder.
-/

namespace GithubAgent.Session.Transcript

open GithubAgent.Base GithubAgent.Shared GithubAgent.Webhook

/-- `data.get(key, default)`. -/
def fieldOr (data : Payload) (key : String) (default : Json) : Json :=
  (data.lookup key).getD default

/-! ### The file beside the transcript -/

/-- The path of a transcript, `~/.claude/projects/<project>/<stem>.jsonl`. -/
structure TranscriptPath where
  project : String
  stem : String
  deriving DecidableEq

/-- The `.meta.json` files, by the transcript they belong to. -/
abbrev Sidecars := TranscriptPath → Option JsonText

/-- `write_transcript_meta` (`sandbox_executor/utils.py:12-23`). -/
def writeTranscriptMeta (sidecars : Sidecars) (path : TranscriptPath) (data : Payload) :
    Sidecars :=
  Function.update sidecars path (some (.dumps (.obj data)))

/-- What `_save_session` writes beside the transcript (`processor.py:835-846`). -/
def transcriptMeta (jobData : Payload) : Payload :=
  [("installation_id", fieldOr jobData "installation_id" (.str "")),
    ("ref", fieldOr jobData "ref" (.str "main")),
    ("user", fieldOr jobData "user" (.str "remote-control")),
    ("thread_type", fieldOr jobData "thread_type" (.str "issue")),
    ("conversation_config", fieldOr jobData "conversation_config" (.str ""))]

/-- The second half of `_save_session`, for a session whose transcript `find_transcript_path`
finds (`processor.py:819-848`). -/
def saveSession (sidecars : Sidecars) (jobData : Payload) (newSessionId : String)
    (transcriptPath : Option TranscriptPath) : Sidecars :=
  if newSessionId ≠ "" ∧ (jobData.value "session_token").truthy = true then
    match transcriptPath with
    | some path => writeTranscriptMeta sidecars path (transcriptMeta jobData)
    | none => sidecars
  else sidecars

/-- `load_transcript_meta` (`transcript_loader.py:156-172`). -/
def loadTranscriptMeta (sidecars : Sidecars) (path : TranscriptPath) : Json :=
  ((sidecars path).bind JsonText.loads).getD (.obj [])

/-! ### The connection -/

/-- `_sanitize_session`; `none` is the `AttributeError` of a value that is not a dict
(`session_proxy/main.py:59-64`). -/
def sanitizeSession : Json → Option Payload
  | .obj session => some (session.filter fun field ↦ field.1 ≠ "installation_id")
  | _ => none

/-- What a path leads to. -/
inductive Resolved where
  | stored (token : String) (session : Hash)
  | transcript (token : String) (session : Payload)

/-- `_resolve_session` (`session_proxy/main.py:161-181`). -/
def resolveSession (r : Records) (now : Nat) (path : SessionPath) : Option (String × Hash) :=
  (r.findSession now ⟨path.repo, path.threadType, toString path.issueNumber, path.workflow⟩).1.bind
    fun token ↦ (r.streams.get now token).map (token, ·)

section Proxy

variable (sessionProxyUrl : String) (findByRepo : String → Int → String → Option TranscriptPath)
  (loads : String → Option Json)

/-- `_resolve_token_from_path`, where `findByRepo` is `find_transcript_by_repo`
(`session_proxy/main.py:429-470`). -/
def resolveTokenFromPath (r : Records) (now : Nat) (sidecars : Sidecars)
    (owner repo segment number workflow : String) : Option Resolved := do
  let path ← parseSessionPath owner repo segment number workflow
  match resolveSession r now path with
  | some (token, session) => some (.stored token session)
  | none =>
    let transcriptPath ← findByRepo path.repo path.issueNumber workflow
    let token := "transcript:" ++ transcriptPath.stem
    let data ← sanitizeSession (loadTranscriptMeta sidecars transcriptPath)
    return .transcript token <| Payload.update
      [("token", .str token), ("repo", .str path.repo),
        ("issue_number", .str (toString path.issueNumber)), ("workflow", .str workflow),
        ("thread_type", .str path.threadType.value), ("status", .str "completed"),
        ("session_proxy_url", .str
          (buildSessionUrl sessionProxyUrl owner repo path.threadType path.issueNumber workflow))]
      data

/-! ### The job -/

/-- `int(s) if s.isdigit() else 0` with `s = str(value)`; of the values that are not strings only
integers are written in digits. -/
def issueNumberOf : Json → Int
  | .str s => Queue.digitsOrZero s
  | .int n => Queue.digitsOrZero (toString n)
  | _ => 0

/-- `_build_job_data`, on a session with fields of any kind (`session_proxy/main.py:120-152`). -/
def buildJobData (session : Payload) (content : String) (conversationConfig : Payload)
    (token : String) : Payload :=
  let issueNumber := issueNumberOf (fieldOr session "issue_number" (.str "0"))
  let sessionId := fieldOr session "session_id" (.str "")
  [("repo", fieldOr session "repo" (.str "")), ("issue_number", .int issueNumber),
    ("prompt", .str content), ("user", fieldOr session "user" (.str "remote-control")),
    ("workflow_name", fieldOr session "workflow" (.str "generic")),
    ("ref", fieldOr session "ref" (.str "main")),
    ("session_mode", .str (if sessionId.truthy then "resume" else "new")),
    ("session_id", if sessionId.truthy then sessionId else .null),
    ("session_token", .str token), ("streaming_enabled", .bool true),
    ("installation_id", fieldOr session "installation_id" (.str "")),
    ("thread_type", fieldOr session "thread_type" (.str "issue")),
    ("thread_id", .str (toString issueNumber)),
    ("conversation_config", .obj conversationConfig), ("user_query", .str content),
    ("event_data", .obj [("event_type", .str "remote_control")])]

/-- `conversation_config` of a resumed job: a text is parsed, anything else is an error that ends
in the log; `none` is the `AttributeError` of `setdefault` (`session_proxy/main.py:747-756`). -/
def conversationConfigOf (session : Payload) : Option Payload :=
  let default : Json := .obj [("persist", .bool true)]
  let parsed := match fieldOr session "conversation_config" (.str "") with
    | .str "" => default
    | .str raw => (loads raw).getD default
    | _ => default
  match parsed with
  | .obj fields =>
    some (if (fields.lookup "persist").isSome then fields
      else fields ++ [("persist", .bool true)])
  | _ => none

/-- The values that the Redis client accepts in a hash. -/
def storable : Json → Bool
  | .str _ | .int _ | .float _ => true
  | _ => false

/-- The thread type by which `thread_type_to_url_segment` finds the segment. -/
def threadTypeOf : Json → ThreadType
  | .str "pr" => .pr
  | .str "discussion" => .discussion
  | _ => .issue

/-- The two ends of `text.partition("/")`. -/
def partitionSlash (text : String) : String × String :=
  (String.ofList (text.toList.takeWhile (· ≠ '/')),
    String.ofList (text.toList.dropWhile (· ≠ '/')).tail)

/-- What a message creates: a session record under a new token, and a job. -/
structure Rehydrated where
  record : Payload
  jobData : Payload

/-- The record that `create_session` writes (`session_proxy/main.py:724-744`). -/
def rehydratedRecord (session : Payload) (sessionId repo workflow newToken : String)
    (issueNumber : Int) : Payload :=
  let threadType := fieldOr session "thread_type" (.str "issue")
  let sessionUrl := buildSessionUrl sessionProxyUrl (partitionSlash repo).1 (partitionSlash repo).2
    (threadTypeOf threadType) issueNumber workflow
  [("token", .str newToken), ("repo", .str repo), ("issue_number", .str (toString issueNumber)),
    ("workflow", .str workflow), ("session_proxy_url", .str sessionUrl),
    ("status", .str "running"),
    ("installation_id", fieldOr session "installation_id" (.str "")),
    ("initial_query", .str ""), ("thread_type", threadType),
    ("ref", fieldOr session "ref" (.str "main")),
    ("user", fieldOr session "user" (.str "remote-control")),
    ("conversation_config", .str ""), ("session_id", .str sessionId),
    ("transcript_path", .str ""), ("run_count", .str "1")]

/-- The content of a message that injects one, stripped and not blank. -/
def injected (text : JsonText) : Option String := do
  let .obj message ← text.loads | none
  let .str "inject_message" := Payload.value message "type" | none
  let .str content := fieldOr message "content" (.str "") | none
  let content := String.ofList (strip content.toList)
  if content = "" then none else some content

/-- `token[len("transcript:"):] if token.startswith("transcript:") else ""`. -/
def sessionIdOf (token : String) : String :=
  if "transcript:".toList.isPrefixOf token.toList then
    String.ofList (token.toList.drop "transcript:".toList.length)
  else ""

/-- One round of `_rehydrate_transcript_session`, on a session whose repository, number and
workflow are texts; `none` waits for the next message (`session_proxy/main.py:704-774`). -/
def rehydrateOn (token newToken : String) (session : Payload) (text : JsonText) :
    Option Rehydrated := do
  let .str repo := fieldOr session "repo" (.str "") | none
  let .str issueNumberStr := fieldOr session "issue_number" (.str "0") | none
  let .str workflow := fieldOr session "workflow" (.str "generic") | none
  let content ← injected text
  let record := rehydratedRecord sessionProxyUrl session (sessionIdOf token) repo workflow newToken
    (Queue.digitsOrZero issueNumberStr)
  if record.all fun field ↦ storable field.2 then
    let conversationConfig ← conversationConfigOf loads session
    return ⟨record, buildJobData session content conversationConfig newToken⟩
  else none

/-- `_rehydrate_transcript_session` on the texts that the browser sends
(`session_proxy/main.py:695-789`). -/
def rehydrateTranscriptSession (token newToken : String) (session : Payload)
    (texts : List JsonText) : Option Rehydrated :=
  texts.findSome? (rehydrateOn sessionProxyUrl loads token newToken session)

/-- `websocket_session` up to the transition to live mode, for a path that leads to a transcript
(`session_proxy/main.py:531-599`). -/
def websocketSession (r : Records) (now : Nat) (sidecars : Sidecars)
    (owner repo segment number workflow newToken : String) (texts : List JsonText) :
    Option Rehydrated :=
  match resolveTokenFromPath sessionProxyUrl findByRepo r now sidecars owner repo segment number
    workflow with
  | some (.transcript token session) =>
    rehydrateTranscriptSession sessionProxyUrl loads token newToken session texts
  | _ => none

end Proxy

/-! ### Resuming a finished job -/

/-- A finished job with a session token, whose session id names its transcript, and a browser that
follows the URL of the conversation to that transcript after the Redis records have expired, and
sends a message that is not blank. -/
structure Reinvocation where
  jobData : Payload
  transcriptPath : TranscriptPath
  token_given : (jobData.value "session_token").truthy = true
  session_named : transcriptPath.stem ≠ ""
  sidecars : Sidecars
  records : Records
  now : Nat
  expired : ∀ token, records.streams.get now token = none
  owner : String
  repo : String
  segment : String
  number : String
  workflow : String
  path : SessionPath
  parsed : parseSessionPath owner repo segment number workflow = some path
  findByRepo : String → Int → String → Option TranscriptPath
  found : findByRepo path.repo path.issueNumber workflow = some transcriptPath
  sessionProxyUrl : String
  loads : String → Option Json
  newToken : String
  texts : List JsonText
  asked : ∃ text ∈ texts, (injected text).isSome

namespace Reinvocation

variable (x : Reinvocation)

/-- The files after the job. -/
def saved : Sidecars :=
  saveSession x.sidecars x.jobData x.transcriptPath.stem (some x.transcriptPath)

/-- What the browser's messages create. -/
def resumed : Option Rehydrated :=
  websocketSession x.sessionProxyUrl x.findByRepo x.loads x.records x.now x.saved x.owner x.repo
    x.segment x.number x.workflow x.newToken x.texts

end Reinvocation

/-- The field is equal in both. -/
def Same (key : String) (resumed original : Payload) : Prop :=
  (resumed.value key).eq (original.value key) = true

/-- The job resumes the session of the transcript with the data of the original job. -/
structure Restores (original : Payload) (stem : String) (resumed : Payload) : Prop where
  mode : (resumed.value "session_mode").eq (.str "resume") = true
  sessionId : (resumed.value "session_id").eq (.str stem) = true
  installationId : Same "installation_id" resumed original
  ref : Same "ref" resumed original
  user : Same "user" resumed original
  threadType : Same "thread_type" resumed original
  repo : Same "repo" resumed original
  issueNumber : Same "issue_number" resumed original
  workflow : Same "workflow_name" resumed original
  conversationConfig : Same "conversation_config" resumed original

/-- The message gets a job that restores the session. -/
def Restored (x : Reinvocation) : Prop :=
  ∃ resumed, x.resumed = some resumed ∧ Restores x.jobData x.transcriptPath.stem resumed.jobData

/-! ### The session that the path leads to -/

namespace Reinvocation

variable (x : Reinvocation)

/-- The session of `_resolve_token_from_path`. -/
def session : Payload :=
  Payload.update
    [("token", .str ("transcript:" ++ x.transcriptPath.stem)), ("repo", .str x.path.repo),
      ("issue_number", .str (toString x.path.issueNumber)), ("workflow", .str x.workflow),
      ("thread_type", .str x.path.threadType.value), ("status", .str "completed"),
      ("session_proxy_url", .str (buildSessionUrl x.sessionProxyUrl x.owner x.repo
        x.path.threadType x.path.issueNumber x.workflow))]
    [("ref", fieldOr x.jobData "ref" (.str "main")),
      ("user", fieldOr x.jobData "user" (.str "remote-control")),
      ("thread_type", fieldOr x.jobData "thread_type" (.str "issue")),
      ("conversation_config", fieldOr x.jobData "conversation_config" (.str ""))]

/-- The sanitiser takes the installation out of the job's metadata. -/
theorem sanitizeSession_saved :
    sanitizeSession (loadTranscriptMeta x.saved x.transcriptPath) =
      some [("ref", fieldOr x.jobData "ref" (.str "main")),
        ("user", fieldOr x.jobData "user" (.str "remote-control")),
        ("thread_type", fieldOr x.jobData "thread_type" (.str "issue")),
        ("conversation_config", fieldOr x.jobData "conversation_config" (.str ""))] := by
  have hsaved : x.saved x.transcriptPath = some (.dumps (.obj (transcriptMeta x.jobData))) := by
    simp [saved, saveSession, x.session_named, x.token_given, writeTranscriptMeta]
  rw [loadTranscriptMeta, hsaved]
  rfl

/-- With the hashes expired, nothing is found in Redis. -/
theorem resolveSession_eq : resolveSession x.records x.now x.path = none := by
  unfold resolveSession
  cases (x.records.findSession x.now _).1 with
  | none => rfl
  | some token => simp [x.expired token]

theorem resolveTokenFromPath_eq :
    resolveTokenFromPath x.sessionProxyUrl x.findByRepo x.records x.now x.saved x.owner x.repo
      x.segment x.number x.workflow =
        some (.transcript ("transcript:" ++ x.transcriptPath.stem) x.session) := by
  simp only [resolveTokenFromPath, x.parsed, x.resolveSession_eq, x.found,
    x.sanitizeSession_saved, Option.bind_eq_bind, Option.bind_some]
  rfl

theorem resumed_eq :
    x.resumed = rehydrateTranscriptSession x.sessionProxyUrl x.loads
      ("transcript:" ++ x.transcriptPath.stem) x.newToken x.session x.texts := by
  rw [resumed, websocketSession, x.resolveTokenFromPath_eq]

/-- The fields of the session, as the job builder asks for them. -/
theorem session_fields :
    x.session.lookup "session_id" = none ∧ x.session.lookup "installation_id" = none ∧
      x.session.lookup "repo" = some (.str x.path.repo) ∧
      x.session.lookup "issue_number" = some (.str (toString x.path.issueNumber)) ∧
      x.session.lookup "workflow" = some (.str x.workflow) ∧
      x.session.lookup "ref" = some (fieldOr x.jobData "ref" (.str "main")) ∧
      x.session.lookup "user" = some (fieldOr x.jobData "user" (.str "remote-control")) ∧
      x.session.lookup "thread_type" = some (fieldOr x.jobData "thread_type" (.str "issue")) ∧
      x.session.lookup "conversation_config" =
        some (fieldOr x.jobData "conversation_config" (.str "")) := by
  unfold session
  simp only [Payload.lookup_update]
  refine ⟨?_, ?_, ?_, ?_, ?_, ?_, ?_, ?_, ?_⟩ <;> rfl

end Reinvocation

/-! ### The job of a message -/

section Rehydrate

variable {sessionProxyUrl : String} {loads : String → Option Json} {token newToken : String}
  {session : Payload}

/-- Whatever the message, its job is built from the session. -/
theorem jobData_of_rehydrateOn {text : JsonText} {resumed : Rehydrated}
    (h : rehydrateOn sessionProxyUrl loads token newToken session text = some resumed) :
    ∃ content conversationConfig,
      resumed.jobData = buildJobData session content conversationConfig newToken := by
  unfold rehydrateOn at h
  split at h
  · split at h
    · split at h
      · obtain ⟨content, -, h⟩ := Option.bind_eq_some_iff.mp h
        dsimp only at h
        split at h
        · obtain ⟨conversationConfig, -, h⟩ := Option.bind_eq_some_iff.mp h
          cases h
          exact ⟨content, conversationConfig, rfl⟩
        · cases h
      · cases h
    · cases h
  · cases h

/-- A session that can be stored is resumed by the first message that injects one. -/
theorem rehydrateTranscriptSession_eq {repo issueNumber workflow : String}
    {conversationConfig : Payload} (hrepo : session.lookup "repo" = some (.str repo))
    (hnumber : session.lookup "issue_number" = some (.str issueNumber))
    (hworkflow : session.lookup "workflow" = some (.str workflow))
    (hstorable : (rehydratedRecord sessionProxyUrl session (sessionIdOf token) repo workflow
      newToken (Queue.digitsOrZero issueNumber)).all (fun field ↦ storable field.2) = true)
    (hconfig : conversationConfigOf loads session = some conversationConfig)
    (texts : List JsonText) :
    rehydrateTranscriptSession sessionProxyUrl loads token newToken session texts =
      (texts.findSome? injected).map fun content ↦
        ⟨rehydratedRecord sessionProxyUrl session (sessionIdOf token) repo workflow newToken
            (Queue.digitsOrZero issueNumber),
          buildJobData session content conversationConfig newToken⟩ := by
  have hround (text : JsonText) :
      rehydrateOn sessionProxyUrl loads token newToken session text =
        (injected text).map fun content ↦
          ⟨rehydratedRecord sessionProxyUrl session (sessionIdOf token) repo workflow newToken
              (Queue.digitsOrZero issueNumber),
            buildJobData session content conversationConfig newToken⟩ := by
    unfold rehydrateOn fieldOr
    simp only [hrepo, hnumber, hworkflow, Option.getD_some, hstorable, hconfig, if_true]
    cases injected text <;> rfl
  unfold rehydrateTranscriptSession
  induction texts with
  | nil => rfl
  | cons text rest ih =>
    rw [List.findSome?_cons, List.findSome?_cons, hround, ih]
    cases injected text <;> rfl

end Rehydrate

/-- The token of a transcript names its session. -/
theorem sessionIdOf_transcript (stem : String) : sessionIdOf ("transcript:" ++ stem) = stem := by
  unfold sessionIdOf
  rw [String.toList_append, List.drop_left, if_pos (by simp), String.ofList_toList]

/-- The digits of a number are read back. -/
theorem digitsOrZero_toString (n : Nat) : Queue.digitsOrZero (toString (n : Int)) = n := by
  have htext : (toString (n : Int)).toList = Nat.toDigits 10 n := Nat.toList_repr
  have hdigit : (Nat.toDigits 10 n).all Char.isDigit = true :=
    List.all_eq_true.mpr fun c hc ↦ Nat.isDigit_of_mem_toDigits (by decide) (by decide) hc
  have hfold (digits : List Char) (value : Nat) :
      digits.foldl (fun (m : Int) c ↦ 10 * m + (c.toNat - 48 : Nat)) value =
        Nat.ofDigitChars 10 digits value := by
    induction digits generalizing value with
    | nil => rfl
    | cons c digits ih =>
      rw [List.foldl_cons, Nat.ofDigitChars_cons, ← ih]
      push_cast
      rfl
  unfold Queue.digitsOrZero
  rw [htext, if_pos ⟨Nat.toDigits_ne_nil, hdigit⟩]
  exact (hfold _ 0).trans (congrArg _ Nat.ofDigitChars_ten_toDigits)

/-- On a session of texts, this is the job builder of the queue's producers. -/
theorem buildJobData_map_str (session : List (String × String)) (content : String)
    (conversationConfig : Payload) (token : String) :
    buildJobData (session.map fun field ↦ (field.1, .str field.2)) content conversationConfig
      token = Queue.buildJobData session content conversationConfig token := by
  have hfield (key default : String) :
      fieldOr (session.map fun field ↦ (field.1, .str field.2)) key (.str default) =
        .str ((session.lookup key).getD default) := by
    unfold fieldOr
    induction session with
    | nil => rfl
    | cons field rest ih =>
      rw [List.map_cons, List.lookup_cons, List.lookup_cons]
      split
      · rfl
      · exact ih
  unfold buildJobData Queue.buildJobData
  simp only [hfield, issueNumberOf, Json.truthy]
  by_cases hid : (session.lookup "session_id").getD "" = ""
  · simp [hid]
  · simp [hid]

/-! ### What is lost, and what is not -/

namespace Reinvocation

variable (x : Reinvocation)

/-- Whatever the job was, the one that resumes it starts a new session, and has no installation to
issue a token from. -/
theorem lost {resumed : Rehydrated} (h : x.resumed = some resumed) :
    resumed.jobData.value "session_mode" = .str "new" ∧
      resumed.jobData.value "session_id" = .null ∧
      resumed.jobData.value "installation_id" = .str "" := by
  rw [x.resumed_eq] at h
  obtain ⟨text, -, hround⟩ := List.exists_of_findSome?_eq_some h
  obtain ⟨content, conversationConfig, hjob⟩ := jobData_of_rehydrateOn hround
  obtain ⟨hid, hinstallation, -⟩ := x.session_fields
  have hmode : (fieldOr x.session "session_id" (.str "")).truthy = false := by
    simp [fieldOr, hid, Json.truthy]
  rw [hjob]
  refine ⟨?_, ?_, ?_⟩
  · exact congrArg (fun b : Bool ↦ Json.str (if b then "resume" else "new")) hmode
  · exact congrArg (fun b : Bool ↦ if b then fieldOr x.session "session_id" (.str "") else .null)
      hmode
  · exact congrArg (Option.getD · (Json.str "")) hinstallation

/-- The new session is one of `create_session`, without an installation and a configuration. -/
theorem rehydratedRecord_eq {sessionProxyUrl ref user sessionId repo workflow newToken : String}
    {session : Payload} {t : ThreadType} {n : Int} (ttlSeconds : Nat)
    (hinstallation : session.lookup "installation_id" = none)
    (href : session.lookup "ref" = some (.str ref))
    (huser : session.lookup "user" = some (.str user))
    (htype : session.lookup "thread_type" = some (.str t.value)) :
    rehydratedRecord sessionProxyUrl session sessionId repo workflow newToken n =
      (Records.createdMapping newToken ⟨repo, t, toString n, workflow⟩
        { sessionProxyUrl := buildSessionUrl sessionProxyUrl (partitionSlash repo).1
            (partitionSlash repo).2 t n workflow
          ttlSeconds := ttlSeconds, ref := ref, user := user, sessionId := sessionId }).map
        fun field ↦ (field.1, .str field.2) := by
  have ht : threadTypeOf (.str t.value) = t := by cases t <;> rfl
  simp [rehydratedRecord, Records.createdMapping, fieldOr, hinstallation, href, huser, htype, ht]

/-- The new session names the transcript, and its job has what the URL and the rest of the
metadata say; of a `conversation_config` that is a dict only the default is left. -/
theorem kept {ref user : String} {t : ThreadType} {config : Payload} {n : Nat} (ttlSeconds : Nat)
    (href : x.jobData.lookup "ref" = some (.str ref))
    (huser : x.jobData.lookup "user" = some (.str user))
    (htype : x.jobData.lookup "thread_type" = some (.str t.value))
    (hconfig : x.jobData.lookup "conversation_config" = some (.obj config))
    (hnumber : x.path.issueNumber = n) :
    ∃ resumed, x.resumed = some resumed ∧
      resumed.record =
        (Records.createdMapping x.newToken ⟨x.path.repo, t, toString (n : Int), x.workflow⟩
          { sessionProxyUrl := buildSessionUrl x.sessionProxyUrl (partitionSlash x.path.repo).1
              (partitionSlash x.path.repo).2 t n x.workflow
            ttlSeconds := ttlSeconds, ref := ref, user := user
            sessionId := x.transcriptPath.stem }).map (fun field ↦ (field.1, .str field.2)) ∧
      resumed.jobData.value "repo" = .str x.path.repo ∧
      resumed.jobData.value "issue_number" = .int n ∧
      resumed.jobData.value "workflow_name" = .str x.workflow ∧
      resumed.jobData.value "ref" = .str ref ∧
      resumed.jobData.value "user" = .str user ∧
      resumed.jobData.value "thread_type" = .str t.value ∧
      resumed.jobData.value "conversation_config" = .obj [("persist", .bool true)] := by
  obtain ⟨-, hinstallation, hrepo, hissue, hworkflow, href', huser', htype', hconfig'⟩ :=
    x.session_fields
  simp only [fieldOr, href, huser, htype, hconfig, Option.getD_some] at href' huser' htype' hconfig'
  have hdefault : conversationConfigOf x.loads x.session = some [("persist", .bool true)] := by
    simp [conversationConfigOf, fieldOr, hconfig']
  have hstorable : (rehydratedRecord x.sessionProxyUrl x.session
      (sessionIdOf ("transcript:" ++ x.transcriptPath.stem)) x.path.repo x.workflow x.newToken
      (Queue.digitsOrZero (toString x.path.issueNumber))).all
        (fun field ↦ storable field.2) = true := by
    simp [rehydratedRecord, fieldOr, hinstallation, href', huser', htype', storable]
  obtain ⟨content, hcontent⟩ :=
    Option.isSome_iff_exists.mp (List.findSome?_isSome_iff.mpr x.asked)
  rw [x.resumed_eq, rehydrateTranscriptSession_eq hrepo hissue hworkflow hstorable hdefault,
    hcontent]
  refine ⟨_, rfl, ?_, ?_, ?_, ?_, ?_, ?_, ?_, rfl⟩
  · rw [sessionIdOf_transcript, hnumber, digitsOrZero_toString,
      rehydratedRecord_eq ttlSeconds hinstallation href' huser' htype']
  · exact congrArg (Option.getD · (Json.str "")) hrepo
  · show Json.int (issueNumberOf ((x.session.lookup "issue_number").getD (.str "0"))) = .int n
    rw [hissue, hnumber]
    exact congrArg Json.int (digitsOrZero_toString n)
  · exact congrArg (Option.getD · (Json.str "generic")) hworkflow
  · exact congrArg (Option.getD · (Json.str "main")) href'
  · exact congrArg (Option.getD · (Json.str "remote-control")) huser'
  · exact congrArg (Option.getD · (Json.str "issue")) htype'

end Reinvocation

/-- No job restores its session. -/
theorem not_restored (x : Reinvocation) : ¬ Restored x := by
  rintro ⟨resumed, hresumed, hrestores⟩
  have hmode := hrestores.mode
  rw [(x.lost hresumed).1] at hmode
  exact absurd hmode (by decide)

/-- A job of installation 77 on issue 84, whose session the browser takes up again. -/
def takenUp : Reinvocation where
  jobData := [("repo", .str "o/r"), ("issue_number", .int 84), ("workflow_name", .str "triage"),
    ("ref", .str "main"), ("user", .str "u"), ("thread_type", .str "issue"),
    ("installation_id", .str "77"), ("session_token", .str "t"),
    ("conversation_config", .obj [("persist", .bool true), ("ttl_hours", .int 24)])]
  transcriptPath := ⟨"o--r", "s1"⟩
  token_given := rfl
  session_named := by decide
  sidecars := fun _ ↦ none
  records := .empty
  now := 0
  expired := fun _ ↦ rfl
  owner := "o"
  repo := "r"
  segment := "issues"
  number := "84"
  workflow := "triage"
  path := ⟨"o/r", 84, "triage", .issue⟩
  parsed := by decide
  findByRepo := fun _ _ _ ↦ some ⟨"o--r", "s1"⟩
  found := rfl
  sessionProxyUrl := ""
  loads := fun _ ↦ none
  newToken := "t2"
  texts := [.dumps (.obj [("type", .str "inject_message"), ("content", .str " go on ")])]
  asked := ⟨_, List.mem_singleton.mpr rfl, by decide⟩

/-- The browser asks to go on, and gets a job with a session mode of `new`. -/
theorem not_all_restored : ¬ ∀ x : Reinvocation, Restored x := by
  intro h
  obtain ⟨resumed, hresumed, hrestores⟩ := h takenUp
  have hmode : (takenUp.resumed.map fun resumed ↦
      ((resumed.jobData.value "session_mode").eq (.str "resume"))) = some false := by decide
  rw [hresumed, Option.map_some, hrestores.mode] at hmode
  cases hmode

end GithubAgent.Session.Transcript
