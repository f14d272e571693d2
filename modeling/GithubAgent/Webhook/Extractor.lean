import GithubAgent.Shared.Payload

/-!
# Payload extraction

`PayloadExtractor` of `src/services/webhook/payload_extractor.py` with the registry of
`src/services/webhook/extraction_rules.py`: which payload fields become the issue number, the
ref, the user and the extra context of a job.
-/

namespace GithubAgent.Webhook

open GithubAgent.Base GithubAgent.Shared

/-- A field extraction rule (`payload_extractor.py:17-22`). -/
structure ExtractionRule where
  path : String
  required : Bool := false
  default : Json := .null

/-- The rules of an event type (`payload_extractor.py:25-31`). -/
structure EventExtractionConfig where
  issueNumber : Option ExtractionRule := none
  ref : Option ExtractionRule := none
  user : ExtractionRule := { path := "sender.login" }
  extra : List (String × ExtractionRule) := []

/-- A git ref as the template `_resolve_ref` chose and the value it formats. -/
inductive GitRef where
  | main
  | pull (number : Json)
  | heads (branch : Json)
  | tags (tag : Json)
  | raw (ref : Json)

/-- The result of an extraction (`payload_extractor.py:34-40`). -/
structure ExtractedFields where
  issueNumber : Option Int
  ref : GitRef
  user : String
  extra : Payload

/-- The `ValueError`s of `extract`: a required field is missing, or `ExtractedFields` rejects
the type of a value. -/
inductive ExtractError where
  | missing (path : String)
  | invalid (field : String)

/-- The message of `_extract_field` (`payload_extractor.py:165-168`); the other text is the
validator's own. -/
def ExtractError.message : ExtractError → String
  | .missing path => "Required field at path '" ++ path ++ "' is missing from payload"
  | .invalid field => field

/-- How the ref of an event type is qualified (`payload_extractor.py:70-93`). -/
inductive RefStrategy where
  | pr
  | heads
  | passthrough
  | createDelete
  | main
  deriving DecidableEq

/-- `_REF_STRATEGIES.get(event_type, "passthrough")` (`payload_extractor.py:70-93, 201`). -/
def refStrategy (eventType : String) : RefStrategy :=
  if eventType ∈ ["pull_request", "pull_request_review", "pull_request_review_comment",
      "pull_request_review_thread"] then .pr
  else if eventType ∈ ["workflow_job", "workflow_run", "check_run", "check_suite", "deployment",
      "deployment_status", "repository_dispatch"] then .heads
  else if eventType ∈ ["create", "delete"] then .createDelete
  else if eventType = "issue_comment" then .main
  else .passthrough

/-- `EXTRACTION_RULES` (`extraction_rules.py:19-251`). -/
def extractionRules : List (String × EventExtractionConfig) :=
  [("pull_request",
    { issueNumber := some { path := "pull_request.number", required := true }
      ref := some { path := "pull_request.number" }
      user := { path := "pull_request.user.login" } }),
   ("pull_request_review",
    { issueNumber := some { path := "pull_request.number", required := true }
      ref := some { path := "pull_request.number" }
      user := { path := "review.user.login" } }),
   ("pull_request_review_comment",
    { issueNumber := some { path := "pull_request.number", required := true }
      ref := some { path := "pull_request.number" }
      user := { path := "comment.user.login" } }),
   ("pull_request_review_thread",
    { issueNumber := some { path := "pull_request.number", required := true }
      ref := some { path := "pull_request.number" } }),
   ("issues",
    { issueNumber := some { path := "issue.number", required := true }
      user := { path := "issue.user.login" } }),
   ("issue_comment",
    { issueNumber := some { path := "issue.number", required := true }
      user := { path := "comment.user.login" } }),
   ("sub_issues",
    { issueNumber := some { path := "sub_issue.number" }
      extra := [("parent_issue_number", { path := "parent_issue.number" })] }),
   ("discussion",
    { issueNumber := some { path := "discussion.number" }
      user := { path := "discussion.user.login" } }),
   ("discussion_comment",
    { issueNumber := some { path := "discussion.number" }
      user := { path := "comment.user.login" } }),
   ("workflow_job",
    { issueNumber := some { path := "workflow_job.run_id" }
      ref := some { path := "workflow_job.head_branch" }
      extra := [("run_id", { path := "workflow_job.run_id" }),
        ("workflow_name_gh", { path := "workflow_job.workflow_name" }),
        ("job_name", { path := "workflow_job.name" }),
        ("conclusion", { path := "workflow_job.conclusion" }),
        ("head_branch", { path := "workflow_job.head_branch" })] }),
   ("workflow_run",
    { issueNumber := some { path := "workflow_run.id" }
      ref := some { path := "workflow_run.head_branch" }
      extra := [("run_id", { path := "workflow_run.id" }),
        ("workflow_name_gh", { path := "workflow_run.name" }),
        ("conclusion", { path := "workflow_run.conclusion" }),
        ("head_branch", { path := "workflow_run.head_branch" })] }),
   ("workflow_dispatch",
    { ref := some { path := "ref" }
      extra := [("workflow", { path := "workflow" }),
        ("inputs", { path := "inputs" })] }),
   ("check_run",
    { issueNumber := some { path := "check_run.check_suite.id" }
      ref := some { path := "check_run.check_suite.head_branch" }
      extra := [("run_id", { path := "check_run.id" }),
        ("conclusion", { path := "check_run.conclusion" }),
        ("head_branch", { path := "check_run.check_suite.head_branch" })] }),
   ("check_suite",
    { ref := some { path := "check_suite.head_branch" }
      extra := [("head_branch", { path := "check_suite.head_branch" }),
        ("conclusion", { path := "check_suite.conclusion" })] }),
   ("status",
    { extra := [("state", { path := "state" }),
        ("sha", { path := "sha" }),
        ("context", { path := "context" }),
        ("description", { path := "description" })] }),
   ("release",
    { ref := some { path := "release.tag_name" }
      extra := [("tag_name", { path := "release.tag_name" }),
        ("release_name", { path := "release.name" }),
        ("release_body", { path := "release.body" })] }),
   ("push",
    { ref := some { path := "ref" } }),
   ("create",
    { ref := some { path := "ref" }
      extra := [("ref_type", { path := "ref_type" })] }),
   ("delete",
    { ref := some { path := "ref" }
      extra := [("ref_type", { path := "ref_type" })] }),
   ("commit_comment",
    { user := { path := "comment.user.login" }
      extra := [("commit_id", { path := "comment.commit_id" })] }),
   ("repository_dispatch",
    { ref := some { path := "branch" }
      extra := [("client_payload", { path := "client_payload" })] }),
   ("deployment",
    { ref := some { path := "deployment.ref" }
      extra := [("environment", { path := "deployment.environment" })] }),
   ("deployment_status",
    { ref := some { path := "deployment.ref" }
      extra := [("environment", { path := "deployment.environment" }),
        ("state", { path := "deployment_status.state" })] }),
   ("label",
    { extra := [("label_name", { path := "label.name" }),
        ("label_color", { path := "label.color" })] }),
   ("milestone",
    { extra := [("milestone_title", { path := "milestone.title" })] }),
   ("star", {}),
   ("watch", {}),
   ("fork",
    { extra := [("fork_full_name", { path := "forkee.full_name" })] }),
   ("gollum",
    { extra := [("pages", { path := "pages" })] }),
   ("repository", {}),
   ("branch_protection_configuration", {}),
   ("branch_protection_rule",
    { extra := [("rule_name", { path := "rule.name" })] }),
   ("member",
    { extra := [("member_login", { path := "member.login" })] }),
   ("team", {}),
   ("organization", {}),
   ("installation", {}),
   ("installation_repositories", {}),
   ("ping", {}),
   ("package", {}),
   ("merge_group",
    { ref := some { path := "merge_group.head_ref" }
      extra := [("head_sha", { path := "merge_group.head_sha" }),
        ("base_ref", { path := "merge_group.base_ref" })] }),
   ("secret_scanning_alert",
    { extra := [("alert_number", { path := "alert.number" })] }),
   ("dependabot_alert",
    { extra := [("alert_number", { path := "alert.number" })] }),
   ("code_scanning_alert",
    { extra := [("alert_number", { path := "alert.number" })] })]

/-- `_find_config`; a missing action is `""` (`payload_extractor.py:105-113`). -/
def findConfig (eventType action : String) : Option EventExtractionConfig :=
  match (if action = "" then none else extractionRules.lookup (eventType ++ "." ++ action)) with
  | some config => some config
  | none => extractionRules.lookup eventType

/-- `_extract_field` (`payload_extractor.py:157-171`). -/
def extractField (rule : Option ExtractionRule) (data : Payload) : Except ExtractError Json :=
  match rule with
  | none => .ok .null
  | some rule =>
    match resolvePath data rule.path with
    | .null => if rule.required then .error (.missing rule.path) else .ok rule.default
    | value => .ok value

/-- `_resolve_ref` (`payload_extractor.py:173-217`). -/
def resolveRef (eventType : String) (refRule : Option ExtractionRule) (data : Payload) :
    Except ExtractError GitRef := do
  match ← extractField refRule data with
  | .null => return .main
  | rawRef =>
    match refStrategy eventType with
    | .pr => return .pull rawRef
    | .heads => return .heads rawRef
    | .main => return .main
    | .createDelete => return if data.text "ref_type" = "tag" then .tags rawRef else .heads rawRef
    | .passthrough => return .raw rawRef

/-- The field `issue_number: int | None`. The validator also takes a boolean, an integral float
and a numeric string; how it reads the last is its own matter. -/
def validateIssueNumber (intOfText : String → Option Int) :
    Json → Except ExtractError (Option Int)
  | .null => .ok none
  | .int n => .ok (some n)
  | .bool b => .ok (some (if b then 1 else 0))
  | .float q => if q.den = 1 then .ok (some q.num) else .error (.invalid "issue_number")
  | .str s => ((intOfText s).map some).elim (.error (.invalid "issue_number")) .ok
  | _ => .error (.invalid "issue_number")

/-- The field `user: str`, after `or "unknown"`. -/
def validateUser : Json → Except ExtractError String
  | .str s => .ok (if s = "" then "unknown" else s)
  | value => if value.truthy then .error (.invalid "user") else .ok "unknown"

/-- `extract` (`payload_extractor.py:115-155`). -/
def extract (intOfText : String → Option Int) (eventType action : String) (data : Payload) :
    Except ExtractError ExtractedFields :=
  match findConfig eventType action with
  | none => do
    let user ← validateUser (resolvePath data "sender.login")
    return { issueNumber := none, ref := .main, user, extra := [] }
  | some config => do
    let issueNumber ← extractField config.issueNumber data
    let ref ← resolveRef eventType config.ref data
    let user ← extractField (some config.user) data
    let extra ← config.extra.mapM fun (name, rule) ↦
      (extractField (some rule) data).map fun value ↦ (name, value)
    let issueNumber ← validateIssueNumber intOfText issueNumber
    let user ← validateUser user
    return { issueNumber, ref, user, extra }

end GithubAgent.Webhook
