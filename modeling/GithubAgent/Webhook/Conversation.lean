import GithubAgent.Base.Lists
import GithubAgent.Base.Separators
import GithubAgent.Webhook.Handler

/-!
# Which conversation a delivery belongs to

The agent worker derives the thread type of a job from its event data
(`resolve_thread_type` of `src/shared/session_store.py`) and the keys of the conversation from
the thread type and the issue number. The event data carry the event type but nothing of the
payload, so a comment on a pull request is taken for a comment on an issue.
-/

namespace GithubAgent.Webhook

open GithubAgent.Base GithubAgent.Shared WorkflowEngine

/-- `str.startswith`. -/
def startsWith (text start : String) : Bool := start.toList.isPrefixOf text.toList

/-- Whether the event data embed a payload whose issue is a pull request
(`session_store.py:84-88`). -/
def embedsPullRequest (eventData : Payload) : Bool :=
  match eventData.lookup "payload" with
  | some (.obj payload) =>
    match payload.lookup "issue" with
    | some (.obj issue) => (Payload.value issue "pull_request").truthy
    | _ => false
  | _ => false

/-- `resolve_thread_type` (`session_store.py:68-97`). -/
def resolveThreadType (eventData : Payload) : ThreadType :=
  let eventType := eventData.text "event_type"
  if startsWith eventType "pull_request" then .pr
  else if eventType = "issue_comment" ∧
      (embedsPullRequest eventData || (eventData.value "is_pr").truthy) then .pr
  else if startsWith eventType "discussion" then .discussion
  else .issue

/-- The four keys of a conversation. -/
structure ConversationKeys where
  session : String
  streamingLookup : String
  lock : String
  worktree : List String
  deriving DecidableEq

/-- The keys of the shared key builders. -/
def conversationKeys (repo : String) (threadType : ThreadType) (threadId workflow : String) :
    ConversationKeys where
  session := sessionKey repo threadType threadId workflow
  streamingLookup := streamingLookupKey repo threadId workflow (some threadType)
  lock := WorktreeKey.lockKey { repo, threadType, threadId, workflow }
  worktree := getWorktreePath repo threadType threadId workflow

/-- `str(issue_number) if issue_number else "0"`, which `str(issue_number or 0)` equals
(`request_processor.py:369, 389, 465`). -/
def Job.threadId (job : Job) : String :=
  match job.issueNumber with
  | some n => if n ≠ 0 then toString n else "0"
  | none => "0"

/-- The keys under which the workers run a job of the repository. -/
def Job.keys (job : Job) (repo : String) : ConversationKeys :=
  conversationKeys repo (resolveThreadType job.eventData) job.threadId job.workflowName

/-- The keys of the conversation of a workflow that a cleanup message names
(`sandbox_worker.py:101-137`). -/
def CleanupMessage.keys (workflow : String) : CleanupMessage → Option ConversationKeys
  | .expireThread repo threadType threadId
  | .reviveThread repo threadType threadId =>
    some (conversationKeys repo threadType threadId workflow)
  | .cleanupBranch .. => none

/-! ### What a job carries -/

/-- The registry has no action-qualified rules. -/
theorem findConfig_eq (eventType action : String) :
    findConfig eventType action = extractionRules.lookup eventType := by
  have hdots : ∀ p ∈ extractionRules, '.' ∉ p.1.toList := by decide
  have hnone : extractionRules.lookup (eventType ++ "." ++ action) = none := by
    rw [List.lookup_eq_none_iff]
    intro p hp
    have hne : eventType ++ "." ++ action ≠ p.1 := by
      intro heq
      apply hdots p hp
      rw [← heq]
      simp
    simpa using hne
  unfold findConfig
  rw [hnone]
  split
  · next h => split at h <;> cases h
  · rfl

theorem names_mapM {data : Payload} {rules : List (String × ExtractionRule)} {extra : Payload}
    (h : rules.mapM (fun (name, rule) ↦
      (extractField (some rule) data).map fun value ↦ (name, value)) = .ok extra) :
    extra.map Prod.fst = rules.map Prod.fst := by
  induction rules generalizing extra with
  | nil =>
    cases h
    rfl
  | cons head rest ih =>
    obtain ⟨name, rule⟩ := head
    rw [List.mapM_cons] at h
    obtain ⟨field, hfield, h⟩ := bind_eq_ok.mp h
    obtain ⟨others, hothers, h⟩ := bind_eq_ok.mp h
    cases h
    rw [List.map_cons, List.map_cons, ih hothers]
    dsimp only at hfield
    cases hextract : extractField (some rule) data with
    | error e =>
      rw [hextract] at hfield
      cases hfield
    | ok value =>
      rw [hextract] at hfield
      cases hfield
      rfl

/-- No rule extracts a field that `resolve_thread_type` reads. -/
theorem lookup_extra {intOfText : String → Option Int} {eventType action : String}
    {data : Payload} {fields : ExtractedFields}
    (h : extract intOfText eventType action data = .ok fields) {name : String}
    (hname : name ∈ ["event_type", "payload", "is_pr"]) : fields.extra.lookup name = none := by
  have hrules : ∀ p ∈ extractionRules, ∀ f ∈ p.2.extra,
      f.1 ∉ ["event_type", "payload", "is_pr"] := by decide
  unfold extract at h
  rw [findConfig_eq] at h
  split at h
  · obtain ⟨user, _, h⟩ := bind_eq_ok.mp h
    cases h
    rfl
  · next config hconfig =>
    obtain ⟨_, _, h⟩ := bind_eq_ok.mp h
    obtain ⟨_, _, h⟩ := bind_eq_ok.mp h
    obtain ⟨_, _, h⟩ := bind_eq_ok.mp h
    obtain ⟨extra, hextra, h⟩ := bind_eq_ok.mp h
    obtain ⟨_, _, h⟩ := bind_eq_ok.mp h
    obtain ⟨_, _, h⟩ := bind_eq_ok.mp h
    cases h
    rw [List.lookup_eq_none_iff]
    intro field hfield
    have hmem : field.1 ∈ config.extra.map Prod.fst :=
      names_mapM hextra ▸ List.mem_map_of_mem hfield
    obtain ⟨f, hf, hfst⟩ := List.mem_map.mp hmem
    have hentry : (eventType, config) ∈ extractionRules := mem_of_lookup hconfig
    have hne : name ≠ field.1 := by
      rintro rfl
      exact hrules _ hentry f hf (hfst ▸ hname)
    simpa using hne

/-- The number a rule extracts. -/
theorem issueNumber_extract {intOfText : String → Option Int} {eventType action : String}
    {data : Payload} {fields : ExtractedFields} {config : EventExtractionConfig}
    {rule : ExtractionRule} {n : Int}
    (h : extract intOfText eventType action data = .ok fields)
    (hconfig : extractionRules.lookup eventType = some config)
    (hrule : config.issueNumber = some rule) (hn : resolvePath data rule.path = .int n) :
    fields.issueNumber = some n := by
  unfold extract at h
  rw [findConfig_eq, hconfig] at h
  simp only [hrule] at h
  obtain ⟨number, hnumber, h⟩ := bind_eq_ok.mp h
  obtain ⟨_, _, h⟩ := bind_eq_ok.mp h
  obtain ⟨_, _, h⟩ := bind_eq_ok.mp h
  obtain ⟨_, _, h⟩ := bind_eq_ok.mp h
  obtain ⟨issueNumber, hvalid, h⟩ := bind_eq_ok.mp h
  obtain ⟨_, _, h⟩ := bind_eq_ok.mp h
  cases h
  unfold extractField at hnumber
  simp only [hn] at hnumber
  cases hnumber
  cases hvalid
  rfl

/-- Without rules there is no number. -/
theorem issueNumber_extract_none {intOfText : String → Option Int} {eventType action : String}
    {data : Payload} {fields : ExtractedFields}
    (h : extract intOfText eventType action data = .ok fields)
    (hconfig : extractionRules.lookup eventType = none) : fields.issueNumber = none := by
  unfold extract at h
  rw [findConfig_eq, hconfig] at h
  obtain ⟨user, _, h⟩ := bind_eq_ok.mp h
  cases h
  rfl

/-- What a job knows of its delivery: the thread type depends on the event type alone. -/
theorem resolveThreadType_job {env : Env} {req : Request} {repo : Option String} {job : Job}
    (h : buildJob env req repo = .ok (.inr job)) :
    resolveThreadType job.eventData =
      if startsWith req.eventType "pull_request" then .pr
      else if startsWith req.eventType "discussion" then .discussion
      else .issue := by
  obtain ⟨state, installation, command, fields, hextract, _, _, _, _, _, hdata⟩ := buildJob_cases h
  have hlookup (name : String) (hname : name ∈ ["event_type", "payload", "is_pr"]) :
      job.eventData.lookup name = (baseEventData req state installation command).lookup name := by
    rw [hdata, Payload.lookup_update, lookup_extra hextract hname, Option.none_or]
  have htype : job.eventData.text "event_type" = req.eventType := by
    simp [Payload.text, Payload.text?, hlookup, baseEventData]
  have hembeds : embedsPullRequest job.eventData = false := by
    cases command <;> simp [embedsPullRequest, hlookup, baseEventData, List.lookup_cons]
  have hflag : (job.eventData.value "is_pr").truthy = false := by
    cases command <;>
      simp [Payload.value, hlookup, baseEventData, List.lookup_cons, Json.truthy]
  unfold resolveThreadType
  simp [htype, hembeds, hflag]

/-! ### One pull request, one conversation -/

/-- A pull request of a repository. -/
structure PullRequest where
  repo : String
  number : Nat
  pos : 0 < number

/-- The delivery is about the pull request: an event of a `pull_request` type, or a comment on
an issue that is one. -/
def About (pr : PullRequest) (req : Request) : Prop :=
  req.repo = some (some pr.repo) ∧
    ((startsWith req.eventType "pull_request" = true ∧
        resolvePath req.data "pull_request.number" = .int pr.number) ∨
      (req.eventType = "issue_comment" ∧
        (∃ issue, req.data.lookup "issue" = some (.obj issue) ∧
          (issue.lookup "pull_request").isSome) ∧
        resolvePath req.data "issue.number" = .int pr.number))

/-- A delivery about the pull request that was accepted, with the job it queued. -/
structure Accepted (env : Env) (pr : PullRequest) where
  req : Request
  job : Job
  queued : job ∈ (webhook env req).jobs
  about : About pr req

/-- The jobs belong to one conversation, the one that is cleaned up when the pull request is
closed. -/
def OneConversation (pr : PullRequest) (first second : Job) : Prop :=
  resolveThreadType first.eventData = resolveThreadType second.eventData ∧
    (first.workflowName = second.workflowName → first.keys pr.repo = second.keys pr.repo) ∧
    ∀ data pullRequest, data.lookup "pull_request" = some (.obj pullRequest) →
      pullRequest.lookup "number" = some (.int pr.number) →
      ∃ message, buildCleanupMessage "pull_request" "closed" data pr.repo = some (some message) ∧
        message.keys first.workflowName = some (first.keys pr.repo) ∧
        message.keys second.workflowName = some (second.keys pr.repo)

/-- The types of pull request event in the registry. -/
def pullRequestEvents : List String :=
  ["pull_request", "pull_request_review", "pull_request_review_comment",
    "pull_request_review_thread"]

/-- The keys tell the pull requests of a repository from its other threads. -/
theorem conversationKeys_injective {repo workflow id other : String} {t : ThreadType}
    (h : conversationKeys repo t id workflow = conversationKeys repo .pr other workflow) :
    t = .pr ∧ id = other := by
  have hpath := congrArg ConversationKeys.worktree h
  simp only [conversationKeys, getWorktreePath, List.cons.injEq, and_true, true_and] at hpath
  have hchars := congrArg String.toList hpath
  cases t with
  | pr =>
    rw [String.append_right_inj] at hpath
    exact ⟨rfl, hpath⟩
  | issue => simp [ThreadType.value] at hchars
  | discussion => simp [ThreadType.value] at hchars

theorem PullRequest.number_ne_zero (pr : PullRequest) : (pr.number : Int) ≠ 0 := by
  have hpos := pr.pos
  omega

/-- A closed pull request is cleaned up under its own number. -/
theorem buildCleanupMessage_closed (pr : PullRequest) {data pullRequest : Payload}
    (hdata : data.lookup "pull_request" = some (.obj pullRequest))
    (hnumber : pullRequest.lookup "number" = some (.int pr.number)) :
    buildCleanupMessage "pull_request" "closed" data pr.repo =
      some (some (.expireThread pr.repo .pr (toString pr.number))) := by
  have hpos := pr.number_ne_zero
  simp only [buildCleanupMessage, threadNumber, Payload.dict, hdata, Payload.number?, hnumber,
    and_self, ↓reduceIte, Option.map_some, Option.bind_some, if_neg hpos]
  rfl

section Keys

variable {env : Env} {pr : PullRequest} (a : Accepted env pr)

/-- A registered pull request event runs under the keys of the pull request. -/
theorem keys_of_mem (h : a.req.eventType ∈ pullRequestEvents) :
    resolveThreadType a.job.eventData = .pr ∧
      a.job.keys pr.repo =
        conversationKeys pr.repo .pr (toString pr.number) a.job.workflowName := by
  have hevents : ∀ eventType ∈ pullRequestEvents, startsWith eventType "pull_request" = true ∧
      eventType ≠ "issue_comment" := by decide
  have hrules : ∀ eventType ∈ pullRequestEvents,
      ((extractionRules.lookup eventType).bind (·.issueNumber)).map (·.path) =
        some "pull_request.number" := by decide
  obtain ⟨repo, _, hbuild⟩ := buildJob_of_mem_jobs a.queued
  have hthread : resolveThreadType a.job.eventData = .pr := by
    rw [resolveThreadType_job hbuild, if_pos (hevents _ h).1]
  have hnumber : resolvePath a.req.data "pull_request.number" = .int pr.number := by
    rcases a.about.2 with habout | habout
    · exact habout.2
    · exact absurd habout.1 (hevents _ h).2
  have hid : a.job.threadId = toString pr.number := by
    obtain ⟨_, _, _, fields, hextract, _, _, _, _, hissue, _⟩ := buildJob_cases hbuild
    obtain ⟨rule, hrule, hpath⟩ := Option.map_eq_some_iff.mp (hrules _ h)
    obtain ⟨config, hconfig, hrule⟩ := Option.bind_eq_some_iff.mp hrule
    rw [← hpath] at hnumber
    have hpos := pr.number_ne_zero
    unfold Job.threadId
    rw [hissue, issueNumber_extract hextract hconfig hrule hnumber]
    simp only [ne_eq, hpos, not_false_eq_true, ↓reduceIte]
    rfl
  refine ⟨hthread, ?_⟩
  rw [Job.keys, hthread, hid]

/-- No other event does. -/
theorem mem_of_keys (h : a.job.keys pr.repo =
    conversationKeys pr.repo .pr (toString pr.number) a.job.workflowName) :
    a.req.eventType ∈ pullRequestEvents := by
  have hrules : ∀ p ∈ extractionRules, startsWith p.1 "pull_request" = true →
      p.1 ∈ pullRequestEvents := by decide
  obtain ⟨hthread, hid⟩ := conversationKeys_injective h
  obtain ⟨repo, _, hbuild⟩ := buildJob_of_mem_jobs a.queued
  obtain ⟨_, _, _, fields, hextract, _, _, _, _, hissue, _⟩ := buildJob_cases hbuild
  have hstart : startsWith a.req.eventType "pull_request" = true := by
    rw [resolveThreadType_job hbuild] at hthread
    by_contra hstart
    rw [if_neg hstart] at hthread
    split at hthread <;> cases hthread
  cases hconfig : extractionRules.lookup a.req.eventType with
  | some config =>
    exact hrules (a.req.eventType, config) (mem_of_lookup hconfig) hstart
  | none =>
    unfold Job.threadId at hid
    rw [hissue, issueNumber_extract_none hextract hconfig] at hid
    have hzero := repr_injective (m := 0) hid
    have hpos := pr.pos
    omega

end Keys

/-- Two accepted deliveries about a pull request belong to its conversation exactly when both
are pull request events of the registry. -/
theorem oneConversation_iff (env : Env) (pr : PullRequest) (first second : Accepted env pr) :
    OneConversation pr first.job second.job ↔
      first.req.eventType ∈ pullRequestEvents ∧ second.req.eventType ∈ pullRequestEvents := by
  constructor
  · rintro ⟨_, _, hclosed⟩
    obtain ⟨message, hmessage, hfirst, hsecond⟩ :=
      hclosed [("pull_request", .obj [("number", .int pr.number)])] [("number", .int pr.number)]
        rfl rfl
    rw [buildCleanupMessage_closed pr rfl rfl] at hmessage
    cases hmessage
    exact ⟨mem_of_keys first (Option.some.inj hfirst).symm,
      mem_of_keys second (Option.some.inj hsecond).symm⟩
  · rintro ⟨hfirst, hsecond⟩
    obtain ⟨hthread, hkeys⟩ := keys_of_mem first hfirst
    obtain ⟨hthread', hkeys'⟩ := keys_of_mem second hsecond
    refine ⟨hthread.trans hthread'.symm, ?_, ?_⟩
    · intro hworkflow
      rw [hkeys, hkeys', hworkflow]
    · intro data pullRequest hdata hnumber
      refine ⟨_, buildCleanupMessage_closed pr hdata hnumber, ?_, ?_⟩
      · rw [hkeys]
        rfl
      · rw [hkeys']
        rfl

/-- A workflow that reviews a pull request when it is opened and on command. -/
def reviewEnv : Env where
  webhookSecret := ""
  botUsername := "agent"
  engine := ofConfig
    { workflows := [("review-pr",
        { triggers := { events := [.name "pull_request.opened"], commands := ["/review"] } })]
      nodup := by decide }
  intOfText := fun _ ↦ none

/-- The delivery of an opened pull request. -/
def openedRequest : Request where
  eventType := "pull_request"
  signatureValid := true
  data := [("action", .str "opened"), ("repository", .obj [("full_name", .str "o/r")]),
    ("pull_request", .obj [("number", .int 7)])]

/-- The delivery of a command in a comment on it. -/
def commentRequest : Request where
  eventType := "issue_comment"
  signatureValid := true
  data := [("action", .str "created"), ("repository", .obj [("full_name", .str "o/r")]),
    ("issue", .obj [("number", .int 7), ("pull_request", .obj [("url", .str "pulls/7")])]),
    ("comment", .obj [("body", .str "/review")])]

/-- A pull request is opened, and somebody asks for a review in a comment. -/
theorem not_oneConversation :
    ¬ ∀ env pr (first second : Accepted env pr), OneConversation pr first.job second.job := by
  intro h
  let pr : PullRequest := ⟨"o/r", 7, by decide⟩
  let first : Accepted reviewEnv pr :=
    { req := openedRequest
      job := (webhook reviewEnv openedRequest).jobs.head (by decide)
      queued := List.head_mem _
      about := ⟨rfl, .inl ⟨by decide, rfl⟩⟩ }
  let second : Accepted reviewEnv pr :=
    { req := commentRequest
      job := (webhook reviewEnv commentRequest).jobs.head (by decide)
      queued := List.head_mem _
      about := ⟨rfl, .inr ⟨rfl, ⟨_, rfl, rfl⟩, rfl⟩⟩ }
  have hthread := (h reviewEnv pr first second).1
  revert hthread
  decide

end GithubAgent.Webhook
