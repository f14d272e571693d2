import GithubAgent.Shared.Keys
import GithubAgent.Webhook.Engine
import GithubAgent.Webhook.Extractor

/-!
# The webhook

The request handler of `src/services/webhook/main.py`: what it publishes on its three queues
for a delivery and how it answers. The signature check is taken by its verdict, and a body
that is not a JSON object is left out.
-/

namespace GithubAgent.Webhook

open GithubAgent.Base GithubAgent.Shared

/-- The service's settings and its engine. `intOfText` is the validator's reading of a numeric
string. -/
structure Env where
  webhookSecret : String
  botUsername : String
  engine : WorkflowEngine
  intOfText : String → Option Int

/-- A delivery: the `X-GitHub-Event` header, the verdict on the signature and the payload. -/
structure Request where
  eventType : String
  signatureValid : Bool
  data : Payload

/-- The `action` field of the payload. -/
def Request.action (req : Request) : String := req.data.text "action"

/-- The name of the repository, unless `repository` is not a dict. -/
def Request.repo (req : Request) : Option (Option String) :=
  (req.data.dict "repository").map fun repository ↦ repository.text? "full_name"

/-- The `HTTPException`s the handler raises. -/
inductive HttpError where
  | unauthorized
  | unprocessable (e : ExtractError)
  | internal

/-- The status code of the exception. -/
def HttpError.statusCode : HttpError → Nat
  | .unauthorized => 401
  | .unprocessable _ => 422
  | .internal => 500

/-- An attribute access that fails ends in the last handler (`main.py:284-286`). -/
def getAttr {α : Type} : Option α → Except HttpError α
  | some value => .ok value
  | none => .error .internal

/-- The JSON answer of the handler. -/
structure Response where
  status : String
  message : String

/-- A message on the worktree cleanup queue. -/
inductive CleanupMessage where
  | expireThread (repo : String) (threadType : ThreadType) (threadId : String)
  | reviveThread (repo : String) (threadType : ThreadType) (threadId : String)
  | cleanupBranch (repo branch : String)

/-- The `action` field of the message. -/
def CleanupMessage.action : CleanupMessage → String
  | .expireThread .. => "expire_thread"
  | .reviveThread .. => "revive_thread"
  | .cleanupBranch .. => "cleanup_branch"

/-- The number of the thread under a field, unless it is missing or 0, as `str` writes it. -/
def threadNumber (data : Payload) (field : String) : Option (Option String) :=
  (data.dict field).map fun thread ↦
    (thread.number? "number").bind fun n ↦ if n = 0 then none else some (toString n)

/-- `_build_cleanup_message`; the outer `none` is an `AttributeError` (`main.py:289-363`). -/
def buildCleanupMessage (eventType action : String) (data : Payload) (repo : String) :
    Option (Option CleanupMessage) :=
  if eventType = "pull_request" ∧ action = "closed" then
    (threadNumber data "pull_request").map (·.map (.expireThread repo .pr))
  else if eventType = "issues" ∧ action = "closed" then
    (threadNumber data "issue").map (·.map (.expireThread repo .issue))
  else if eventType = "discussion" ∧ action ∈ ["closed", "deleted", "locked"] then
    (threadNumber data "discussion").map (·.map (.expireThread repo .discussion))
  else if eventType = "delete" ∧ data.text "ref_type" = "branch" then
    let branch := data.text "ref"
    some (if branch = "" then none else some (.cleanupBranch repo branch))
  else if eventType = "pull_request" ∧ action = "reopened" then
    (threadNumber data "pull_request").map (·.map (.reviveThread repo .pr))
  else if eventType = "issues" ∧ action = "reopened" then
    (threadNumber data "issue").map (·.map (.reviveThread repo .issue))
  else if eventType = "discussion" ∧ action ∈ ["reopened", "unlocked"] then
    (threadNumber data "discussion").map (·.map (.reviveThread repo .discussion))
  else some none

/-- The state of the thread, `"open"` when no field gives it (`main.py:121-127`). -/
def issueState (data : Payload) : Option Json := do
  let issue ← data.dict "issue"
  if (issue.value "state").truthy then return issue.value "state"
  let pullRequest ← data.dict "pull_request"
  if (pullRequest.value "state").truthy then return pullRequest.value "state"
  let discussion ← data.dict "discussion"
  if (discussion.value "state").truthy then return discussion.value "state"
  return .str "open"

/-- Python's whitespace, for `str.strip` and `\\s`. -/
def isSpace (c : Char) : Bool :=
  c.toNat ∈ [9, 10, 11, 12, 13, 28, 29, 30, 31, 32, 133, 160, 5760, 8232, 8233, 8239, 8287,
    12288] || (8192 ≤ c.toNat && c.toNat ≤ 8202)

/-- `str.strip`. -/
def strip (text : List Char) : List Char :=
  ((text.dropWhile isSpace).reverse.dropWhile isSpace).reverse

/-- The match of `^(/\\S+)\\s*(.*)` with the stripped body: the command and the query
(`main.py:143-147`). -/
def parseCommand (body : String) : Option (String × String) :=
  match strip body.toList with
  | '/' :: rest =>
    let word := rest.takeWhile (!isSpace ·)
    let query := ((rest.dropWhile (!isSpace ·)).dropWhile isSpace).takeWhile (· ≠ '\n')
    if word = [] then none
    else some (String.ofList ('/' :: word), String.ofList (strip query))
  | _ => none

/-- The match of `^/[a-z0-9\\-]+$` with a command (`main.py:158`). -/
def isCommand (command : String) : Bool :=
  match command.toList with
  | '/' :: rest => !rest.isEmpty && rest.all fun c ↦ isNameChar c || c == '-'
  | _ => false

/-- The command overlay: only a created issue comment carries a command, and without one, or
with an ill-formed one, it ends here (`main.py:136-184`). -/
def parseComment (req : Request) : Except HttpError (Response ⊕ Option String × String) :=
  if req.eventType = "issue_comment" ∧ req.action = "created" then do
    let comment ← getAttr (req.data.dict "comment")
    let body ← match comment.lookup "body" with
      | none => pure ""
      | some (.str body) => pure body
      | some _ => throw .internal
    match parseCommand body with
    | none => return .inl ⟨"ignored", "No command found in comment"⟩
    | some (command, query) =>
      if 50 < command.length then
        return .inl ⟨"error", "Command is too long (max 50 characters)"⟩
      else if !isCommand command then
        return .inl ⟨"error",
          "Invalid command format. Use lowercase letters, numbers, and hyphens only."⟩
      else return .inr (some command, query)
  else return .inr (none, "")

/-- The key under which filters are looked up (`main.py:222`). -/
def eventKey (eventType action : String) : String :=
  if action = "" then eventType else eventType ++ "." ++ action

/-- The choice of the workflow (`main.py:214-236`). -/
def selectWorkflow (engine : WorkflowEngine) (eventType action : String)
    (command : Option String) (data : Payload) : Option String :=
  match command with
  | some command => engine.getWorkflowForCommand command
  | none =>
    if eventType = "" then none
    else (engine.getWorkflowForEvent eventType action).find? fun candidate ↦
      engine.checkFilters candidate data (some (eventKey eventType action))

/-- An agent job (`main.py:266-274`). -/
structure Job where
  repository : Option String
  issueNumber : Option Int
  eventData : Payload
  userQuery : String
  user : String
  ref : GitRef
  workflowName : String

/-- The `id` of the installation as `str` writes it. -/
def installationId (installation : Payload) : String :=
  match installation.lookup "id" with
  | some (.int n) => toString n
  | some (.str s) => s
  | _ => ""

/-- The event data without the extracted fields (`main.py:130-135, 168`). -/
def baseEventData (req : Request) (issueState : Json) (installation : Payload)
    (command : Option String) : Payload :=
  [("event_type", .str req.eventType), ("action", .str req.action),
    ("issue_state", issueState), ("installation_id", .str (installationId installation))] ++
    (command.map fun c ↦ ("command", .str c)).toList

/-- The ref of a job: a comment on a pull request runs on its head (`main.py:196-202`). -/
def jobRef (req : Request) (fields : ExtractedFields) : Except HttpError GitRef := do
  if req.eventType = "issue_comment" then
    let issue ← getAttr (req.data.dict "issue")
    match fields.issueNumber with
    | some n =>
      if (issue.lookup "pull_request").isSome ∧ n ≠ 0 then return .pull (.int n)
      else return fields.ref
    | none => return fields.ref
  else return fields.ref

/-- From the event data to the job, or to the answer that there is none (`main.py:120-274`). -/
def buildJob (env : Env) (req : Request) (repo : Option String) :
    Except HttpError (Response ⊕ Job) := do
  let state ← getAttr (issueState req.data)
  let installation ← getAttr (req.data.dict "installation")
  match ← parseComment req with
  | .inl response => return .inl response
  | .inr (command, userQuery) =>
    let fields ← (extract env.intOfText req.eventType req.action req.data).mapError .unprocessable
    let ref ← jobRef req fields
    match selectWorkflow env.engine req.eventType req.action command req.data with
    | none => return .inl ⟨"ignored", "No workflow configured for this event"⟩
    | some workflowName =>
      let sender ← getAttr (req.data.dict "sender")
      if env.botUsername ≠ "" ∧
          env.engine.shouldSkipSelf workflowName (sender.text "login") env.botUsername then
        return .inl ⟨"ignored", "Skipping event from bot itself (skip_self enabled for workflow '"
          ++ workflowName ++ "')"⟩
      else
        return .inr
          { repository := repo
            issueNumber := fields.issueNumber
            eventData := (baseEventData req state installation command).update fields.extra
            userQuery
            user := fields.user
            ref
            workflowName }

/-- A message on the repository sync queue. -/
structure SyncRequest where
  repo : String
  ref : String

/-- What one delivery leaves on the queues, and its answer. -/
structure Outcome where
  syncRequests : List SyncRequest := []
  cleanups : List CleanupMessage := []
  jobs : List Job := []
  result : Except HttpError Response

/-- A push event only asks for a sync (`main.py:95-104`). -/
def handlePush (req : Request) (repo : Option String) : Outcome :=
  match repo, req.data.text? "ref" with
  | some repo, some ref =>
    if repo ≠ "" ∧ ref ≠ "" then
      { syncRequests := [⟨repo, ref⟩], result := .ok ⟨"accepted", "Proactive sync triggered"⟩ }
    else { result := .ok ⟨"ignored", "Push event missing repo or ref"⟩ }
  | _, _ => { result := .ok ⟨"ignored", "Push event missing repo or ref"⟩ }

/-- The cleanup message of a delivery, if it warrants one (`main.py:107-108`). -/
def cleanupOf (req : Request) (repo : Option String) : Option (Option CleanupMessage) :=
  match repo with
  | some repo =>
    if repo ≠ "" ∧ req.eventType ∈ ["pull_request", "issues", "delete"] then
      buildCleanupMessage req.eventType req.action req.data repo
    else some none
  | none => some none

/-- The agent job of a delivery, after its cleanup message (`main.py:107-282`). -/
def handleEvent (env : Env) (req : Request) (repo : Option String)
    (cleanup : Option CleanupMessage) : Outcome :=
  match buildJob env req repo with
  | .error e => { cleanups := cleanup.toList, result := .error e }
  | .ok (.inl response) => { cleanups := cleanup.toList, result := .ok response }
  | .ok (.inr job) =>
    { cleanups := cleanup.toList, jobs := [job],
      result := .ok ⟨"accepted", "Agent is processing your request"⟩ }

/-- `webhook` (`main.py:70-286`). -/
def webhook (env : Env) (req : Request) : Outcome :=
  if env.webhookSecret ≠ "" ∧ req.signatureValid = false then { result := .error .unauthorized }
  else
    match req.repo with
    | none => { result := .error .internal }
    | some repo =>
      if req.eventType = "push" then handlePush req repo
      else
        match cleanupOf req repo with
        | none => { result := .error .internal }
        | some none => handleEvent env req repo none
        | some (some cleanup) =>
          if env.engine.getWorkflowForEvent req.eventType req.action = [] then
            { cleanups := [cleanup],
              result := .ok ⟨"accepted", "Worktree cleanup queued (" ++ cleanup.action ++ ")"⟩ }
          else handleEvent env req repo (some cleanup)

/-- A queued job is the one `buildJob` returns. -/
theorem buildJob_of_mem_jobs {env : Env} {req : Request} {job : Job}
    (h : job ∈ (webhook env req).jobs) :
    ∃ repo, req.repo = some repo ∧ buildJob env req repo = .ok (.inr job) := by
  have hevent (repo : Option String) (cleanup : Option CleanupMessage)
      (hjob : job ∈ (handleEvent env req repo cleanup).jobs) :
      buildJob env req repo = .ok (.inr job) := by
    unfold handleEvent at hjob
    split at hjob
    · simp at hjob
    · simp at hjob
    · next built hbuild =>
      rw [hbuild, List.mem_singleton.mp hjob]
  unfold webhook at h
  split at h
  · simp at h
  · split at h
    · simp at h
    · next repo hrepo =>
      refine ⟨repo, hrepo, ?_⟩
      split at h
      · unfold handlePush at h
        split at h
        · split at h <;> simp at h
        · simp at h
      · split at h
        · simp at h
        · exact hevent repo none h
        · next cleanup _ =>
          split at h
          · simp at h
          · exact hevent repo (some cleanup) h

@[simp] theorem getAttr_eq_ok {α : Type} {o : Option α} {a : α} :
    getAttr o = .ok a ↔ o = some a := by
  cases o <;> simp [getAttr]

theorem bind_eq_ok {E A B : Type} {x : Except E A} {f : A → Except E B} {b : B} :
    x >>= f = .ok b ↔ ∃ a, x = .ok a ∧ f a = .ok b := by
  constructor
  · intro h
    cases x with
    | ok a => exact ⟨a, rfl, h⟩
    | error e => cases h
  · rintro ⟨a, rfl, h⟩
    exact h

/-- How a delivery becomes a job. -/
theorem buildJob_cases {env : Env} {req : Request} {repo : Option String} {job : Job}
    (h : buildJob env req repo = .ok (.inr job)) :
    ∃ state installation command fields,
      extract env.intOfText req.eventType req.action req.data = .ok fields ∧
      selectWorkflow env.engine req.eventType req.action command req.data =
        some job.workflowName ∧
      parseComment req = .ok (.inr (command, job.userQuery)) ∧ jobRef req fields = .ok job.ref ∧
      job.repository = repo ∧ job.issueNumber = fields.issueNumber ∧
      job.eventData =
        (baseEventData req state installation command).update fields.extra := by
  unfold buildJob at h
  obtain ⟨state, _, h⟩ := bind_eq_ok.mp h
  obtain ⟨installation, _, h⟩ := bind_eq_ok.mp h
  obtain ⟨parsed, hparsed, h⟩ := bind_eq_ok.mp h
  cases parsed with
  | inl response => cases h
  | inr overlay =>
    obtain ⟨command, query⟩ := overlay
    obtain ⟨fields, hfields, h⟩ := bind_eq_ok.mp h
    obtain ⟨ref, href, h⟩ := bind_eq_ok.mp h
    refine ⟨state, installation, command, fields, ?_, ?_⟩
    · cases hextract : extract env.intOfText req.eventType req.action req.data with
      | error e => rw [hextract] at hfields; cases hfields
      | ok extracted => rw [hextract] at hfields; cases hfields; rfl
    · cases hselect : selectWorkflow env.engine req.eventType req.action command req.data with
      | none => rw [hselect] at h; cases h
      | some workflowName =>
        rw [hselect] at h
        obtain ⟨sender, _, h⟩ := bind_eq_ok.mp h
        split at h
        · cases h
        · cases h
          exact ⟨rfl, hparsed, href, rfl, rfl, rfl⟩

end GithubAgent.Webhook
