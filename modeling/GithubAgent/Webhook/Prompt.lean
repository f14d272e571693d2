import GithubAgent.Base.Escape
import GithubAgent.Base.Strings
import GithubAgent.Webhook.Command
import GithubAgent.Webhook.Conversation

/-!
# The prompt of a command

`WorkflowEngine.build_prompt` of `src/workflows/engine.py` and the part of `RequestProcessor` that
calls it: how the text behind a command comes into the prompt of the agent. A queued message is the
job that the webhook published.
-/

namespace GithubAgent.Webhook

open GithubAgent.Base GithubAgent.Base.Format GithubAgent.Shared

/-! ### Templates -/

/-- Prompt configuration of a workflow (`engine.py:19-25`). -/
structure PromptConfig where
  template : String
  systemContext : Option String := none

/-- The `ValueError`s of `_validate_templates`, for the template or for the inline context. -/
inductive TemplateError where
  | empty
  | syntaxError
  | unknown (names : List (List Char))
  | contextSyntax
  | unknownContext (names : List (List Char))

/-- The valid placeholders (`engine.py:198`). -/
def validPlaceholders : List (List Char) :=
  ["repo".toList, "issue_number".toList, "user_query".toList]

/-- The names of the fields of the pieces. -/
def fieldNames (pieces : List Piece) : List (List Char) :=
  pieces.filterMap fun p ↦ p.field.map Field.name

/-- The names that are not placeholders. -/
def unknownNames (pieces : List Piece) : List (List Char) :=
  (fieldNames pieces).filter fun name ↦ name ∉ validPlaceholders

/-- The system context is the name of a file. -/
def isFile (context : List Char) : Bool := ".md".toList.isSuffixOf context

/-- A text is well-formed and has no other fields than the placeholders. -/
def checkNames (text : List Char) (illFormed : TemplateError)
    (unknown : List (List Char) → TemplateError) : Except TemplateError Unit :=
  if (parse text).2 = false then .error illFormed
  else if unknownNames (parse text).1 ≠ [] then .error (unknown (unknownNames (parse text).1))
  else .ok ()

/-- `_validate_templates` on one workflow (`engine.py:192-247`). -/
def validateTemplate (p : PromptConfig) : Except TemplateError Unit :=
  if p.template = "" then .error .empty
  else do
    checkNames p.template.toList .syntaxError .unknown
    let context := (p.systemContext.getD "").toList
    if context = [] ∨ isFile context then .ok ()
    else checkNames context .contextSyntax .unknownContext

/-! ### Building the prompt -/

/-- What the workers take from the interpreter and from the disk: `str` of a JSON value, and the
text of a file under `prompts`. -/
structure Interpreter extends Runtime where
  showJson : Json → List Char
  readText : String → Option (List Char)

/-- `issue_number or ""`. -/
def issueValue (issueNumber : Option Int) : Value :=
  match issueNumber with
  | some n => if n = 0 then .str [] else .int n
  | none => .str []

/-- The variables of a system context (`engine.py:536-540`). -/
def contextVars (repo : String) (issueNumber : Option Int) (name : List Char) : Option Value :=
  if name = "repo".toList then some (.str repo.toList)
  else if name = "issue_number".toList then some (issueValue issueNumber)
  else none

/-- `safe_vars` (`engine.py:469-476`). -/
def safeVars (repo : String) (issueNumber : Option Int) (userQuery name : List Char) :
    Option Value :=
  if name = "user_query".toList then some (.str (escapeBraces userQuery))
  else contextVars repo issueNumber name

/-- The exceptions of `build_prompt`. -/
inductive PromptError where
  | invalidTemplate
  | raised (e : FormatError)
  | unreadable

/-- A `KeyError` or `ValueError` (`engine.py:487, 541`). -/
def isCaught : FormatError → Bool
  | .valueError | .keyError => true
  | _ => false

/-- The template with its variables (`engine.py:461-493`). -/
def fillTemplate (rt : Interpreter) (template : String) (repo : String) (issueNumber : Option Int)
    (userQuery : List Char) : Except PromptError (List Part) :=
  let vars := safeVars repo issueNumber userQuery
  if (parse template.toList).2 = false then .error .invalidTemplate
  else if (fieldNames (parse template.toList).1).any fun name ↦ (vars name).isNone then
    .error .invalidTemplate
  else (format rt.toRuntime vars template.toList).mapError fun e ↦
    if isCaught e then .invalidTemplate else .raised e

/-- The system context: a file or an inline text, formatted (`engine.py:496-546`). -/
def loadContext (rt : Interpreter) (p : PromptConfig) (repo : String) (issueNumber : Option Int) :
    Except PromptError (Option (List Char)) := do
  let context := (p.systemContext.getD "").toList
  let text ← if isFile context then
      match rt.readText (String.ofList context) with
      | none => throw .unreadable
      | some text => pure (strip text)
    else pure context
  if text = [] then return none
  match format rt.toRuntime (contextVars repo issueNumber) text with
  | .ok parts => return some (textOf parts)
  | .error e => if isCaught e then return none else throw (.raised e)

/-- The prompt: the filled template, and the query if it is appended. -/
structure Prompt where
  parts : List Part
  appended : Option (List Char)

/-- `f"{prompt}. {user_query}"`, or the filled template alone. -/
def Prompt.text (prompt : Prompt) : List Char :=
  textOf prompt.parts ++ prompt.appended.elim [] fun query ↦ '.' :: ' ' :: query

/-- `build_prompt` (`engine.py:420-553`). -/
def buildPrompt (rt : Interpreter) (p : PromptConfig) (repo : String) (issueNumber : Option Int)
    (userQuery : String) : Except PromptError (Prompt × Option (List Char)) := do
  let parts ← fillTemplate rt p.template repo issueNumber userQuery.toList
  let context ← loadContext rt p repo issueNumber
  let appended := if userQuery ≠ "" ∧ ¬ occursIn "\x7buser_query\x7d" p.template then
    some userQuery.toList else none
  return (⟨parts, appended⟩, context)

/-- A line of the failure context, if its value is there. -/
def contextLine (rt : Interpreter) (eventData : Payload) (label key : String) : List Char :=
  if (eventData.value key).truthy then
    "- ".toList ++ label.toList ++ ": ".toList ++ rt.showJson (eventData.value key) ++ ['\n']
  else []

/-- The workflow context of CI failures (`request_processor.py:224-243`). -/
def failureContext (rt : Interpreter) (eventData : Payload) : List Char :=
  if (eventData.value "run_id").truthy then
    "\n\n## Workflow Failure Context\n\n".toList ++
      contextLine rt eventData "Run ID" "run_id" ++
      contextLine rt eventData "Workflow Name" "workflow_name_gh" ++
      contextLine rt eventData "Failed Job" "job_name" ++
      contextLine rt eventData "Conclusion" "conclusion" ++
      contextLine rt eventData "Head Branch" "head_branch" ++
      contextLine rt eventData "Target Branch for PR" "head_branch" ++
      ("\nUse the GitHub MCP tools to investigate this specific workflow run and job.\n").toList
  else []

/-- The prompt of a job, with what is put behind it. -/
structure JobPrompt where
  prompt : Prompt
  failure : List Char

/-- The text that the agent gets. -/
def JobPrompt.text (job : JobPrompt) : List Char := job.prompt.text ++ job.failure

/-- The prompt that the worker builds from a queued message, unless it ignores the message or an
exception ends it (`worker.py:157-191`, `request_processor.py:190-243`). -/
def executePrompt (rt : Interpreter) (prompts : String → Option PromptConfig) (job : Job) :
    Option JobPrompt := do
  let repo ← job.repository
  if repo = "" ∨ job.eventData = [] ∨ job.workflowName = "" then none
  let p ← prompts job.workflowName
  let (prompt, _) ← (buildPrompt rt p repo job.issueNumber job.userQuery).toOption
  return ⟨prompt, failureContext rt job.eventData⟩

/-! ### What the agent should get -/

/-- A created comment on an issue: a configured command, and the end of the text or whitespace and
more. -/
structure CommandComment (env : Env) where
  req : Request
  repo : String
  number : Nat
  command : String
  text : List Char
  created : req.eventType = "issue_comment" ∧ req.action = "created"
  repository : req.repo = some (some repo)
  repo_ne : repo ≠ ""
  issue : resolvePath req.data "issue.number" = .int number
  number_pos : 0 < number
  body : ∃ comment, req.data.dict "comment" = some comment ∧
    comment.lookup "body" = some (.str (String.ofList (command.toList ++ text)))
  configured : ∃ workflow, env.engine.getWorkflowForCommand command = some workflow ∧
    validateWorkflowName workflow = .ok ()
  wellFormed : isCommand command = true
  text_isSpace : ∀ c ∈ text.head?, isSpace c = true

namespace CommandComment

variable {env : Env} (c : CommandComment env)

/-- The user's words. -/
def words : List Char := strip c.text

/-- The value that a placeholder stands for. -/
def value (name : List Char) : Value :=
  if name = "user_query".toList then .str c.words
  else if name = "repo".toList then .str c.repo.toList
  else .int c.number

/-- What a field shows is right: the words as they are, and the repository and the number
somewhere. -/
def Shown (rt : Interpreter) (f : Field) (body : List Char) : Prop :=
  if f.name = "user_query".toList then Verbatim rt.toRuntime f.conversion c.words body
  else (c.value f.name).text <:+: body

end CommandComment

/-- The template has a placeholder for the query. -/
def UsesQuery (p : PromptConfig) : Prop :=
  "user_query".toList ∈ fieldNames (parse p.template.toList).1

instance (p : PromptConfig) : Decidable (UsesQuery p) :=
  inferInstanceAs (Decidable ("user_query".toList ∈ fieldNames (parse p.template.toList).1))

/-- The prompt is the template with the right text at every use of a placeholder, and the words
behind it if no placeholder is for them. -/
structure Conveys {env : Env} (c : CommandComment env) (rt : Interpreter) (p : PromptConfig)
    (out : JobPrompt) : Prop where
  shape : out.prompt.parts.map Part.piece = (parse p.template.toList).1
  shown : ∀ part ∈ out.prompt.parts, ∀ use ∈ part.use, c.Shown rt use.1 use.2.body
  used : UsesQuery p → out.prompt.appended = none
  unused : ¬ UsesQuery p → out.prompt.appended.getD [] = c.words
  ends : out.failure = []

/-- The text of such a prompt: the filled template, and behind it the words that it has no field
for. -/
theorem Conveys.text_eq {env : Env} {c : CommandComment env} {rt : Interpreter} {p : PromptConfig}
    {out : JobPrompt} (h : Conveys c rt p out) (hne : c.words ≠ []) :
    out.text = textOf out.prompt.parts ++ if UsesQuery p then [] else '.' :: ' ' :: c.words := by
  rw [JobPrompt.text, Prompt.text, h.ends, List.append_nil]
  split
  · next huses => rw [h.used huses, Option.elim_none]
  · next huses =>
    have happended := h.unused huses
    cases hout : out.prompt.appended with
    | none =>
      rw [hout] at happended
      exact absurd happended.symm hne
    | some query =>
      rw [hout] at happended
      rw [Option.elim_some, ← happended]
      rfl

/-- The worker builds such a prompt. -/
def WordsReach {env : Env} (c : CommandComment env) (rt : Interpreter)
    (prompts : String → Option PromptConfig) (p : PromptConfig) (job : Job) : Prop :=
  ∃ out, executePrompt rt prompts job = some out ∧ Conveys c rt p out

/-- The precision of the field cuts the text off before the first brace that is one too many. -/
def CutsInTime (rt : Runtime) (expand : List Char → Except FormatError (List Char)) (f : Field)
    (text : List Char) : Prop :=
  ∃ n x, f.precision rt expand = some n ∧ convert rt f.conversion (.str text) = .ok (.str x) ∧
    n ≤ firstRunEnd x

/-- The words are one line. If a field of the template is for them, they have no braces, or the
field cuts them off in time; and the template has the plain placeholder if and only if it has a
field for them. Every field shows its value when it is formatted as it asks, and the system context
can be formatted. -/
structure Unharmed {env : Env} (c : CommandComment env) (rt : Interpreter) (p : PromptConfig) :
    Prop where
  oneLine : '\n' ∉ c.words
  braces : ∀ piece ∈ (parse p.template.toList).1, ∀ f ∈ piece.field,
    f.name = "user_query".toList → (∀ ch ∈ c.words, isBrace ch = false) ∨
      CutsInTime rt.toRuntime
        (expandSpec rt.toRuntime (safeVars c.repo (some c.number) c.words)) f c.words
  plain : c.words ≠ [] → (occursIn "\x7buser_query\x7d" p.template = true ↔ UsesQuery p)
  fits : ∀ piece ∈ (parse p.template.toList).1, ∀ f ∈ piece.field,
    Fits rt.toRuntime (expandSpec rt.toRuntime (safeVars c.repo (some c.number) c.words)) f
      (c.value f.name)
  context : ∃ context, loadContext rt p c.repo (some c.number) = .ok context

/-! ### The queued message -/

section Queued

variable {env : Env} {c : CommandComment env} {job : Job}

/-- Without rules for it there is no extra context. -/
theorem extra_extract {intOfText : String → Option Int} {eventType action : String}
    {data : Payload} {fields : ExtractedFields} {config : EventExtractionConfig}
    (h : extract intOfText eventType action data = .ok fields)
    (hconfig : extractionRules.lookup eventType = some config) (hextra : config.extra = []) :
    fields.extra = [] := by
  unfold extract at h
  rw [findConfig_eq, hconfig] at h
  simp only [hextra] at h
  obtain ⟨_, _, h⟩ := bind_eq_ok.mp h
  obtain ⟨_, _, h⟩ := bind_eq_ok.mp h
  obtain ⟨_, _, h⟩ := bind_eq_ok.mp h
  obtain ⟨extra, hmap, h⟩ := bind_eq_ok.mp h
  obtain ⟨_, _, h⟩ := bind_eq_ok.mp h
  obtain ⟨_, _, h⟩ := bind_eq_ok.mp h
  cases h
  cases hmap
  rfl

/-- The message that is queued for the comment. -/
structure Queued (c : CommandComment env) (job : Job) : Prop where
  repository : job.repository = some c.repo
  issueNumber : job.issueNumber = some (c.number : Int)
  userQuery : job.userQuery = String.ofList (strip (c.words.takeWhile (· ≠ '\n')))
  workflow_ne : job.workflowName ≠ ""
  eventData_ne : job.eventData ≠ []
  runId : (job.eventData.value "run_id").truthy = false

theorem queued_of_mem (hjob : job ∈ (webhook env c.req).jobs) : Queued c job := by
  obtain ⟨repo, hrepo, hbuild⟩ := buildJob_of_mem_jobs hjob
  obtain ⟨state, installation, command, fields, hextract, hselect, hparsed, -, hrepository,
    hnumber, hdata⟩ := buildJob_cases hbuild
  obtain ⟨config, hconfig, hissue, hextra⟩ : ∃ config,
      extractionRules.lookup c.req.eventType = some config ∧
        config.issueNumber = some { path := "issue.number", required := true } ∧
          config.extra = [] := by
    rw [c.created.1]
    exact ⟨_, rfl, rfl, rfl⟩
  have hfields : fields.extra = [] := extra_extract hextract hconfig hextra
  have hbase : job.eventData = baseEventData c.req state installation command := by
    rw [hdata, hfields]
    simp [Payload.update]
  obtain ⟨word, hcommand, hword, hletters⟩ := exists_of_isCommand c.wellFormed
  obtain ⟨comment, hdict, hbody⟩ := c.body
  rw [hcommand, List.cons_append] at hbody
  have hname : '/' :: word = c.command.toList := hcommand.symm
  have hquery : command = some c.command ∧
      job.userQuery = String.ofList (strip (c.words.takeWhile (· ≠ '\n'))) := by
    unfold parseComment at hparsed
    rw [if_pos c.created, hdict] at hparsed
    simp only [getAttr, hbody, bind, pure, Except.bind, Except.pure,
      parseCommand_eq hword hletters c.text_isSpace, hname, String.ofList_toList] at hparsed
    split at hparsed
    · cases hparsed
    · split at hparsed
      · cases hparsed
      · simp only [Except.ok.injEq, Sum.inr.injEq, Prod.mk.injEq] at hparsed
        exact ⟨hparsed.1.symm, hparsed.2.symm⟩
  refine ⟨?_, ?_, hquery.2, ?_, ?_, ?_⟩
  · rw [hrepository]
    exact Option.some.inj (hrepo.symm.trans c.repository)
  · rw [hnumber]
    exact issueNumber_extract hextract hconfig hissue c.issue
  · obtain ⟨workflow, hworkflow, hvalid⟩ := c.configured
    rw [hquery.1, selectWorkflow, hworkflow] at hselect
    rw [← Option.some.inj hselect]
    rintro rfl
    cases hvalid
  · rw [hbase]
    simp [baseEventData]
  · rw [hbase, hquery.1]
    simp [Payload.value, baseEventData, List.lookup_cons, Json.truthy]

end Queued

/-! ### What the worker makes of it -/

section Build

variable {env : Env} {c : CommandComment env} {job : Job} {rt : Interpreter}
  {prompts : String → Option PromptConfig} {p : PromptConfig}

/-- An accepted template is well-formed, and its fields are placeholders. -/
theorem of_validateTemplate (h : validateTemplate p = .ok ()) :
    (parse p.template.toList).2 = true ∧
      ∀ name ∈ fieldNames (parse p.template.toList).1, name ∈ validPlaceholders := by
  unfold validateTemplate at h
  split at h
  · cases h
  · obtain ⟨_, hcheck, -⟩ := bind_eq_ok.mp h
    unfold checkNames at hcheck
    split at hcheck
    · cases hcheck
    · next hcomplete =>
      split at hcheck
      · cases hcheck
      · next hknown =>
        rw [not_not, unknownNames, List.filter_eq_nil_iff] at hknown
        refine ⟨by simpa using hcomplete, fun name hname ↦ ?_⟩
        simpa using hknown name hname

/-- A field of a piece is one of the names. -/
theorem mem_fieldNames {pieces : List Piece} {piece : Piece} {f : Field} (hpiece : piece ∈ pieces)
    (hf : f ∈ piece.field) : f.name ∈ fieldNames pieces := by
  refine List.mem_filterMap.mpr ⟨piece, hpiece, ?_⟩
  rw [Option.mem_def.mp hf]
  rfl

/-- The value that the template is filled with. -/
def filledValue (c : CommandComment env) (query name : List Char) : Value :=
  if name = "user_query".toList then .str (escapeBraces query) else c.value name

theorem lookupField_eq (query : List Char) {name : List Char} (h : name ∈ validPlaceholders) :
    lookupField rt.toRuntime (safeVars c.repo (some (c.number : Int)) query) name =
      .ok (filledValue c query name) := by
  have hnumber : issueValue (some (c.number : Int)) = .int c.number := by
    have hne : (c.number : Int) ≠ 0 := by
      have hpos := c.number_pos
      omega
    rw [issueValue, if_neg hne]
  simp only [validPlaceholders, List.mem_cons, List.not_mem_nil, or_false] at h
  obtain rfl | rfl | rfl := h
  · rfl
  · have hfilled : filledValue c query "issue_number".toList = .int c.number := rfl
    rw [hfilled, ← hnumber]
    rfl
  · rfl

/-- What the worker builds from the message for an accepted template. -/
theorem executePrompt_eq_some (hq : Queued c job) (hp : prompts job.workflowName = some p)
    (hvalid : validateTemplate p = .ok ()) {out : JobPrompt} :
    executePrompt rt prompts job = some out ↔ ∃ parts context,
      format rt.toRuntime (safeVars c.repo (some (c.number : Int)) job.userQuery.toList)
        p.template.toList = .ok parts ∧
      loadContext rt p c.repo (some (c.number : Int)) = .ok context ∧
      out = ⟨⟨parts, if job.userQuery ≠ "" ∧ ¬ occursIn "\x7buser_query\x7d" p.template then
        some job.userQuery.toList else none⟩, []⟩ := by
  have hfailure : failureContext rt job.eventData = [] := by
    rw [failureContext, if_neg (by simp [hq.runId])]
  have hnames : ¬ ((fieldNames (parse p.template.toList).1).any fun name ↦
      (safeVars c.repo (some (c.number : Int)) job.userQuery.toList name).isNone) = true := by
    intro hany
    obtain ⟨name, hname, hnone⟩ := List.any_eq_true.mp hany
    have hmem := (of_validateTemplate hvalid).2 name hname
    simp only [validPlaceholders, List.mem_cons, List.not_mem_nil, or_false] at hmem
    obtain rfl | rfl | rfl := hmem <;> cases hnone
  unfold executePrompt
  simp only [hq.repository, hq.issueNumber, hp, hfailure, Option.bind_eq_bind, Option.bind_some,
    c.repo_ne, hq.eventData_ne, hq.workflow_ne, or_self, if_false]
  unfold buildPrompt fillTemplate
  simp only [(of_validateTemplate hvalid).1, Bool.true_eq_false, if_false, hnames]
  cases format rt.toRuntime (safeVars c.repo (some (c.number : Int)) job.userQuery.toList)
      p.template.toList with
  | error e => simp [bind, Except.bind, Except.mapError, Except.toOption]
  | ok parts =>
    cases loadContext rt p c.repo (some (c.number : Int)) with
    | error e => simp [bind, Except.bind, Except.mapError, Except.toOption]
    | ok context =>
      constructor
      · intro h
        exact ⟨parts, context, rfl, rfl, (Option.some.inj h).symm⟩
      · rintro ⟨_, _, hparts, hcontext, rfl⟩
        cases hparts
        cases hcontext
        rfl

/-- A field of an accepted template is rendered from its value. -/
theorem renderField_eq (hvalid : validateTemplate p = .ok ()) (query : List Char)
    {expand : List Char → Except FormatError (List Char)} {piece : Piece} {f : Field}
    (hpiece : piece ∈ (parse p.template.toList).1) (hf : f ∈ piece.field) :
    renderField rt.toRuntime (safeVars c.repo (some (c.number : Int)) query) expand f =
      formatField rt.toRuntime expand f (filledValue c query f.name) := by
  have hname := (of_validateTemplate hvalid).2 f.name (mem_fieldNames hpiece hf)
  rw [renderField, lookupField_eq query hname]
  rfl

/-- A field of an accepted template shows what it should if it fits its value and, where it is for
the words, if doubled braces do no harm. -/
theorem shown_iff (hvalid : validateTemplate p = .ok ())
    {expand : List Char → Except FormatError (List Char)} {piece : Piece} {f : Field}
    (hpiece : piece ∈ (parse p.template.toList).1) (hf : f ∈ piece.field) :
    (∃ r, renderField rt.toRuntime (safeVars c.repo (some (c.number : Int)) c.words) expand f =
        .ok r ∧ c.Shown rt f r.body) ↔
      Fits rt.toRuntime expand f (c.value f.name) ∧
        (f.name = "user_query".toList → (∀ ch ∈ c.words, isBrace ch = false) ∨
          CutsInTime rt.toRuntime expand f c.words) := by
  rw [renderField_eq hvalid c.words hpiece hf]
  unfold CommandComment.Shown filledValue
  by_cases hname : f.name = "user_query".toList
  · have hvalue : c.value f.name = .str c.words := by rw [CommandComment.value, if_pos hname]
    rw [if_pos hname, hvalue]
    simp only [hname, true_implies]
    exact verbatim_escapeBraces_iff f c.words
  · rw [if_neg hname]
    simp only [hname, false_implies, and_true]
    exact Iff.rfl

/-- A part with a field for the words shows no line break, when the query has none. -/
theorem newline_notMem_body (hvalid : validateTemplate p = .ok ()) {query : List Char}
    (hquery : '\n' ∉ query) {expand : List Char → Except FormatError (List Char)} {piece : Piece}
    {f : Field} {r : Rendered} (hpiece : piece ∈ (parse p.template.toList).1)
    (hf : f ∈ piece.field) (hname : f.name = "user_query".toList)
    (h : renderField rt.toRuntime (safeVars c.repo (some (c.number : Int)) query) expand f =
      .ok r) : '\n' ∉ r.body := by
  rw [renderField_eq hvalid query hpiece hf, filledValue, if_pos hname] at h
  obtain ⟨x, spec, asked, hx, -, -, rfl⟩ := formatField_str_eq_ok.mp h
  have hnot : '\n' ∉ x := newline_notMem_convert hx (mt mem_escapeBraces.mp hquery)
  intro hmem
  apply hnot
  show '\n' ∈ x
  have hcut : cut asked.precision x <+: x := by
    unfold cut
    split
    · exact List.prefix_rfl
    · exact List.take_prefix _ x
  exact hcut.subset hmem

/-- The words that reach the agent are one line. -/
theorem oneLine_of_wordsReach (hq : Queued c job) (hp : prompts job.workflowName = some p)
    (hvalid : validateTemplate p = .ok ()) (h : WordsReach c rt prompts p job) :
    '\n' ∉ c.words := by
  obtain ⟨out, hout, hconveys⟩ := h
  obtain ⟨parts, context, hformat, -, rfl⟩ := (executePrompt_eq_some hq hp hvalid).mp hout
  obtain ⟨-, hshape, hrender⟩ := build_eq_ok.mp hformat
  have hquery : job.userQuery.toList = strip (c.words.takeWhile (· ≠ '\n')) := by
    rw [hq.userQuery, String.toList_ofList]
  have hline : '\n' ∉ job.userQuery.toList := by
    rw [hquery]
    intro hmem
    have hmem := (strip_within _).subset hmem
    have hne := List.mem_takeWhile_imp hmem
    simp at hne
  intro hmem
  by_cases huses : UsesQuery p
  · obtain ⟨piece, hpiece, hname⟩ := List.mem_filterMap.mp huses
    obtain ⟨f, hf, hname⟩ := Option.map_eq_some_iff.mp hname
    obtain ⟨part, hpart, r, huse⟩ := exists_use (hshape ▸ hpiece) hf
    have hshown := hconveys.shown part hpart (f, r) huse
    rw [CommandComment.Shown, if_pos hname] at hshown
    obtain ⟨x, -, -, hwithin⟩ := hshown
    exact newline_notMem_body hvalid hline hpiece hf hname (hrender part hpart (f, r) huse)
      (hwithin.subset hmem)
  · have happended := hconveys.unused huses
    dsimp only at happended
    rw [← happended] at hmem
    split at hmem
    · exact hline hmem
    · cases hmem

/-- The query is the words if they are one line. -/
theorem Queued.userQuery_of_oneLine (hq : Queued c job) (h : '\n' ∉ c.words) :
    job.userQuery.toList = c.words := by
  rw [hq.userQuery, String.toList_ofList]
  exact (query_eq_iff c.text).mpr h

/-- The words that reach the agent are not harmed on the way. -/
theorem unharmed_of_wordsReach (hq : Queued c job) (hp : prompts job.workflowName = some p)
    (hvalid : validateTemplate p = .ok ()) (h : WordsReach c rt prompts p job) :
    Unharmed c rt p := by
  have hline : '\n' ∉ c.words := oneLine_of_wordsReach hq hp hvalid h
  have hquery := hq.userQuery_of_oneLine hline
  obtain ⟨out, hout, hconveys⟩ := h
  obtain ⟨parts, context, hformat, hcontext, rfl⟩ := (executePrompt_eq_some hq hp hvalid).mp hout
  rw [hquery] at hformat
  obtain ⟨-, hshape, hrender⟩ := build_eq_ok.mp hformat
  have hfield : ∀ piece ∈ (parse p.template.toList).1, ∀ f ∈ piece.field,
      Fits rt.toRuntime (expandSpec rt.toRuntime (safeVars c.repo (some c.number) c.words)) f
          (c.value f.name) ∧
        (f.name = "user_query".toList → (∀ ch ∈ c.words, isBrace ch = false) ∨
          CutsInTime rt.toRuntime
            (expandSpec rt.toRuntime (safeVars c.repo (some c.number) c.words)) f c.words) := by
    intro piece hpiece f hf
    apply (shown_iff hvalid hpiece hf).mp
    obtain ⟨part, hpart, r, huse⟩ := exists_use (hshape ▸ hpiece) hf
    exact ⟨r, hrender part hpart (f, r) huse, hconveys.shown part hpart (f, r) huse⟩
  have hused := hconveys.used
  have hunused := hconveys.unused
  rw [hquery] at hused hunused
  refine ⟨hline, fun piece hpiece f hf ↦ (hfield piece hpiece f hf).2, ?_,
    fun piece hpiece f hf ↦ (hfield piece hpiece f hf).1, ⟨context, hcontext⟩⟩
  intro hne
  have hne' : job.userQuery ≠ "" := by
    intro hempty
    rw [hempty] at hquery
    exact hne hquery.symm
  constructor
  · intro hoccurs
    by_contra hnot
    have happended := hunused hnot
    rw [if_neg (by simp [hoccurs])] at happended
    exact hne happended.symm
  · intro huses
    by_contra hnot
    have happended := hused huses
    rw [if_pos ⟨hne', hnot⟩] at happended
    cases happended

/-- Words that are not harmed reach the agent. -/
theorem wordsReach_of_unharmed (hq : Queued c job) (hp : prompts job.workflowName = some p)
    (hvalid : validateTemplate p = .ok ()) (h : Unharmed c rt p) :
    WordsReach c rt prompts p job := by
  have hquery := hq.userQuery_of_oneLine h.oneLine
  have hrendered : ∀ piece ∈ (parse p.template.toList).1, ∀ f ∈ piece.field,
      ∃ r, renderField rt.toRuntime (safeVars c.repo (some (c.number : Int)) c.words)
          (expandSpec rt.toRuntime (safeVars c.repo (some c.number) c.words)) f = .ok r ∧
        c.Shown rt f r.body := by
    intro piece hpiece f hf
    apply (shown_iff hvalid hpiece hf).mpr
    exact ⟨h.fits piece hpiece f hf, h.braces piece hpiece f hf⟩
  obtain ⟨parts, hshape, hrender⟩ := exists_parts fun piece hpiece f hf ↦
    (hrendered piece hpiece f hf).imp fun _ hr ↦ hr.1
  obtain ⟨context, hcontext⟩ := h.context
  have hformat : format rt.toRuntime (safeVars c.repo (some (c.number : Int))
      job.userQuery.toList) p.template.toList = .ok parts := by
    rw [hquery]
    exact build_eq_ok.mpr ⟨(of_validateTemplate hvalid).1, hshape, hrender⟩
  have hempty : job.userQuery = "" ↔ c.words = [] := by
    rw [← hquery, String.toList_eq_nil_iff]
  refine ⟨_, (executePrompt_eq_some hq hp hvalid).mpr ⟨parts, context, hformat, hcontext, rfl⟩,
    hshape, ?_, ?_, ?_, rfl⟩
  · intro part hpart use huse
    have hpiece : part.piece ∈ (parse p.template.toList).1 := by
      rw [← hshape]
      exact List.mem_map_of_mem hpart
    have hf : use.1 ∈ part.piece.field := Option.mem_map_of_mem Prod.fst huse
    obtain ⟨r, hr, hshown⟩ := hrendered part.piece hpiece use.1 hf
    rw [hrender part hpart use huse] at hr
    rw [Except.ok.inj hr]
    exact hshown
  · intro huses
    apply if_neg
    rintro ⟨hne, hnot⟩
    exact hnot ((h.plain (mt hempty.mpr hne)).mpr huses)
  · intro huses
    dsimp only
    rw [hquery]
    split
    · rfl
    · next hnot =>
      by_contra hne
      have hne' : c.words ≠ [] := fun hnil ↦ hne hnil.symm
      apply huses
      apply (h.plain hne').mp
      by_contra hoccurs
      exact hnot ⟨mt hempty.mp hne', hoccurs⟩

end Build

/-! ### When the words reach the agent -/

/-- The words of a command reach the agent exactly if they are not harmed on the way. -/
theorem wordsReach_iff {env : Env} (c : CommandComment env) (rt : Interpreter)
    (prompts : String → Option PromptConfig) {job : Job} {p : PromptConfig}
    (hjob : job ∈ (webhook env c.req).jobs) (hp : prompts job.workflowName = some p)
    (hvalid : validateTemplate p = .ok ()) :
    WordsReach c rt prompts p job ↔ Unharmed c rt p :=
  ⟨unharmed_of_wordsReach (queued_of_mem hjob) hp hvalid,
    wordsReach_of_unharmed (queued_of_mem hjob) hp hvalid⟩

/-! ### Two comments -/

/-- The delivery of a comment on issue 7. -/
def commentDelivery (body : String) : Request where
  eventType := "issue_comment"
  signatureValid := true
  data := [("action", .str "created"), ("repository", .obj [("full_name", .str "o/r")]),
    ("issue", .obj [("number", .int 7)]), ("comment", .obj [("body", .str body)])]

theorem isCommand_review : isCommand "/review" = true := by
  decide

/-- A review is asked for in one line. -/
def shortComment : CommandComment reviewEnv where
  req := commentDelivery "/review the tests"
  repo := "o/r"
  number := 7
  command := "/review"
  text := " the tests".toList
  created := by decide
  repository := rfl
  repo_ne := by decide
  issue := rfl
  number_pos := by decide
  body := ⟨_, rfl, rfl⟩
  configured := ⟨"review-pr", by decide, rfl⟩
  wellFormed := isCommand_review
  text_isSpace := by
    rintro c ⟨⟩
    rfl

/-- A review is asked for in two lines. -/
def longComment : CommandComment reviewEnv where
  req := commentDelivery "/review\nthe tests\nand the docs"
  repo := "o/r"
  number := 7
  command := "/review"
  text := "\nthe tests\nand the docs".toList
  created := by decide
  repository := rfl
  repo_ne := by decide
  issue := rfl
  number_pos := by decide
  body := ⟨_, rfl, rfl⟩
  configured := ⟨"review-pr", by decide, rfl⟩
  wellFormed := isCommand_review
  text_isSpace := by
    rintro c ⟨⟩
    rfl

/-- A template with each of the placeholders. -/
def reviewPrompt : PromptConfig where
  template := "Review \x7brepo\x7d#\x7bissue_number\x7d: \x7buser_query\x7d"

/-- An interpreter for templates without specifications. -/
def plainInterpreter : Interpreter where
  isPrintable := fun _ ↦ true
  decimal := fun _ ↦ none
  formatInt := fun _ _ ↦ .error .valueError
  getPath := fun _ _ ↦ .error .attributeError
  showJson := fun _ ↦ []
  readText := fun _ ↦ none

/-- The job of the first comment. -/
def shortJob : Job := (webhook reviewEnv shortComment.req).jobs.head (by decide)

/-- The one line reaches the agent. -/
theorem wordsReach_short :
    WordsReach shortComment plainInterpreter (fun _ ↦ some reviewPrompt) reviewPrompt shortJob := by
  apply (wordsReach_iff shortComment plainInterpreter (fun _ ↦ some reviewPrompt)
    (List.head_mem _) rfl rfl).mpr
  have hfields : ∀ piece ∈ (parse reviewPrompt.template.toList).1, ∀ f ∈ piece.field,
      f ∈ [⟨"repo".toList, none, []⟩, ⟨"issue_number".toList, none, []⟩,
        (⟨"user_query".toList, none, []⟩ : Field)] := by decide
  refine ⟨by decide, fun _ _ _ _ _ ↦ .inl (not_isBrace_of_all (by decide)), fun _ ↦ by decide, ?_,
    none, rfl⟩
  intro piece hpiece f hf
  have hmem := hfields piece hpiece f hf
  simp only [List.mem_cons, List.not_mem_nil, or_false] at hmem
  obtain rfl | rfl | rfl := hmem
  · exact ⟨_, rfl, List.infix_rfl⟩
  · exact ⟨_, rfl, List.infix_rfl⟩
  · exact ⟨_, rfl, List.infix_rfl⟩

/-- Of the two lines only the first reaches the agent. -/
theorem not_wordsReach :
    ¬ ∀ (env : Env) (c : CommandComment env) (rt : Interpreter)
      (prompts : String → Option PromptConfig) (p : PromptConfig),
      ∀ job ∈ (webhook env c.req).jobs, prompts job.workflowName = some p →
        validateTemplate p = .ok () → WordsReach c rt prompts p job := by
  intro h
  let job : Job := (webhook reviewEnv longComment.req).jobs.head (by decide)
  have hjob : job ∈ (webhook reviewEnv longComment.req).jobs := List.head_mem _
  have hreach := h reviewEnv longComment plainInterpreter (fun _ ↦ some reviewPrompt) reviewPrompt
    job hjob rfl rfl
  have hline : '\n' ∉ longComment.words :=
    oneLine_of_wordsReach (queued_of_mem hjob) rfl rfl hreach
  revert hline
  decide

end GithubAgent.Webhook
