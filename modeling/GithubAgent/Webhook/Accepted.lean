import GithubAgent.Base.Formattable
import GithubAgent.Webhook.Prompt

/-!
# What an accepted configuration builds

The checks of `WorkflowEngine.__init__` that read prompts (`src/workflows/engine.py:172-247,
304-311`), and when `build_prompt` succeeds on what they accept. The files under `prompts` are the
same at both times.
-/

namespace GithubAgent.Webhook

open GithubAgent.Base GithubAgent.Base.Format

/-! ### Acceptance -/

/-- The exceptions of `__init__` on a parsed configuration. -/
inductive InitError where
  | name (e : NameError)
  | missingFile (workflow : String)
  | template (workflow : String) (e : TemplateError)

/-- `_validate_system_context_files` on one workflow (`engine.py:178-190`). -/
def validateContextFile (fileExists : String → Bool) (entry : String × PromptConfig) :
    Except InitError Unit :=
  let systemContext := entry.2.systemContext.getD ""
  if isFile systemContext.toList ∧ fileExists systemContext = false then
    .error (.missingFile entry.1)
  else .ok ()

/-- `__init__` on the names and prompts of a configuration (`engine.py:268-311`). -/
def initPrompts (fileExists : String → Bool) (workflows : List (String × PromptConfig)) :
    Except InitError Unit := do
  workflows.forM fun entry ↦ (validateWorkflowName entry.1).mapError .name
  workflows.forM (validateContextFile fileExists)
  workflows.forM fun entry ↦ (validateTemplate entry.2).mapError (.template entry.1)

/-! ### What is built -/

/-- The text of the system context: inline, or that of the file; none if it cannot be read. -/
def contextText (rt : Interpreter) (p : PromptConfig) : Option (List Char) :=
  let context := (p.systemContext.getD "").toList
  if isFile context then (rt.readText (String.ofList context)).map strip else some context

/-- `build_prompt` returns, with a system context if there is one. -/
def Built (rt : Interpreter) (p : PromptConfig) (repo : String) (issueNumber : Option Int)
    (userQuery : String) : Prop :=
  ∃ prompt context, buildPrompt rt p repo issueNumber userQuery = .ok (prompt, context) ∧
    ∀ text ∈ contextText rt p, text ≠ [] → context ≠ none

/-- The fields of the template fit their values, and the text of the system context can be read and
fits the repository and the number. -/
structure Formattable (rt : Interpreter) (p : PromptConfig) (repo : String)
    (issueNumber : Option Int) (userQuery : String) : Prop where
  template : ∀ piece ∈ (parse p.template.toList).1, ∀ f ∈ piece.field,
    ∀ v ∈ safeVars repo issueNumber userQuery.toList f.name,
      ValueFits rt.toRuntime
        (expandSpec rt.toRuntime (safeVars repo issueNumber userQuery.toList)) f v
  file : contextText rt p ≠ none
  context : ∀ text ∈ contextText rt p, text ≠ [] → TextFits rt.toRuntime
    (contextVars repo issueNumber) (expandSpec rt.toRuntime (contextVars repo issueNumber)) text

/-! ### The template -/

section Template

variable {rt : Interpreter} {p : PromptConfig} {repo : String} {issueNumber : Option Int}
  {userQuery : List Char}

theorem forM_eq_ok {A E : Type} {f : A → Except E Unit} {l : List A} (h : l.forM f = .ok ()) :
    ∀ a ∈ l, f a = .ok () := by
  induction l with
  | nil => exact nofun
  | cons a l ih =>
    obtain ⟨⟨⟩, ha, hl⟩ := bind_eq_ok.mp (show f a >>= (fun _ ↦ l.forM f) = .ok () from h)
    exact List.forall_mem_cons.mpr ⟨ha, ih hl⟩

/-- The templates of an accepted configuration are accepted. -/
theorem validateTemplate_of_initPrompts {fileExists : String → Bool}
    {workflows : List (String × PromptConfig)} (h : initPrompts fileExists workflows = .ok ())
    {name : String} (hp : workflows.lookup name = some p) : validateTemplate p = .ok () := by
  obtain ⟨_, _, h⟩ := bind_eq_ok.mp h
  obtain ⟨_, _, h⟩ := bind_eq_ok.mp h
  have hvalid := forM_eq_ok h (name, p) (mem_of_lookup hp)
  cases hcheck : validateTemplate p with
  | error e =>
    simp only [hcheck] at hvalid
    cases hvalid
  | ok u => rfl

/-- A placeholder has a value, which its field finds. -/
theorem lookupField_safeVars (rt : Interpreter) (repo : String) (issueNumber : Option Int)
    (userQuery : List Char) {name : List Char} (h : name ∈ validPlaceholders) :
    ∃ v, safeVars repo issueNumber userQuery name = some v ∧
      lookupField rt.toRuntime (safeVars repo issueNumber userQuery) name = .ok v := by
  simp only [validPlaceholders, List.mem_cons, List.not_mem_nil, or_false] at h
  obtain rfl | rfl | rfl := h
  · exact ⟨_, rfl, rfl⟩
  · exact ⟨_, rfl, rfl⟩
  · exact ⟨_, rfl, rfl⟩

/-- An accepted template is filled in as far as its fields fit. -/
theorem fillTemplate_isOk_iff (hvalid : validateTemplate p = .ok ()) :
    (∃ parts, fillTemplate rt p.template repo issueNumber userQuery = .ok parts) ↔
      ∀ piece ∈ (parse p.template.toList).1, ∀ f ∈ piece.field,
        ∀ v ∈ safeVars repo issueNumber userQuery f.name,
          ValueFits rt.toRuntime
            (expandSpec rt.toRuntime (safeVars repo issueNumber userQuery)) f v := by
  obtain ⟨hparse, hnames⟩ := of_validateTemplate hvalid
  have hfill : (∃ parts, fillTemplate rt p.template repo issueNumber userQuery = .ok parts) ↔
      ∃ parts, format rt.toRuntime (safeVars repo issueNumber userQuery) p.template.toList =
        .ok parts := by
    have hany : ¬ ((fieldNames (parse p.template.toList).1).any fun name ↦
        (safeVars repo issueNumber userQuery name).isNone) = true := by
      intro hany
      obtain ⟨name, hname, hnone⟩ := List.any_eq_true.mp hany
      obtain ⟨v, hv, -⟩ := lookupField_safeVars rt repo issueNumber userQuery (hnames name hname)
      rw [hv] at hnone
      cases hnone
    unfold fillTemplate
    simp only [hparse, Bool.true_eq_false, if_false, hany]
    cases format rt.toRuntime (safeVars repo issueNumber userQuery) p.template.toList with
    | error e => simp [Except.mapError]
    | ok parts => simp [Except.mapError]
  rw [hfill, format, build_isOk_iff, TextFits, and_iff_right hparse]
  refine forall₂_congr fun piece hpiece ↦ forall₂_congr fun f hf ↦ ?_
  obtain ⟨v, hv, hlookup⟩ := lookupField_safeVars rt repo issueNumber userQuery
    (hnames f.name (mem_fieldNames hpiece hf))
  rw [hlookup, hv]
  simp

end Template

/-! ### The system context -/

section Context

variable (rt : Interpreter) (p : PromptConfig) (repo : String) (issueNumber : Option Int)

/-- The system context, from its text. -/
theorem loadContext_eq : loadContext rt p repo issueNumber =
    match contextText rt p with
    | none => .error .unreadable
    | some [] => .ok none
    | some text =>
      match format rt.toRuntime (contextVars repo issueNumber) text with
      | .ok parts => .ok (some (textOf parts))
      | .error e => if isCaught e then .ok none else .error (.raised e) := by
  unfold loadContext contextText
  by_cases hfile : isFile (p.systemContext.getD "").toList
  · simp only [hfile, if_true]
    cases rt.readText (String.ofList (p.systemContext.getD "").toList) with
    | none => rfl
    | some raw =>
      simp only [Option.map_some]
      cases strip raw with
      | nil => rfl
      | cons c text => rfl
  · simp only [hfile, Bool.false_eq_true, if_false]
    cases (p.systemContext.getD "").toList with
    | nil => rfl
    | cons c text => rfl

/-- The system context is there exactly when its text can be read and, if there is any, fits. -/
theorem loadContext_isOk_iff : (∃ context, loadContext rt p repo issueNumber = .ok context ∧
      ∀ text ∈ contextText rt p, text ≠ [] → context ≠ none) ↔
    contextText rt p ≠ none ∧ ∀ text ∈ contextText rt p, text ≠ [] → TextFits rt.toRuntime
      (contextVars repo issueNumber) (expandSpec rt.toRuntime (contextVars repo issueNumber))
      text := by
  rw [loadContext_eq]
  cases contextText rt p with
  | none => simp
  | some text =>
    cases text with
    | nil => simp
    | cons c text =>
      have hfits : (∃ parts, format rt.toRuntime (contextVars repo issueNumber) (c :: text) =
          .ok parts) ↔ TextFits rt.toRuntime (contextVars repo issueNumber)
            (expandSpec rt.toRuntime (contextVars repo issueNumber)) (c :: text) :=
        build_isOk_iff (c :: text)
      have hne : c :: text ≠ [] := List.cons_ne_nil c text
      simp only [Option.mem_some, forall_eq', hne, ne_eq, not_false_eq_true, true_implies,
        reduceCtorEq, true_and, ← hfits]
      cases format rt.toRuntime (contextVars repo issueNumber) (c :: text) with
      | ok parts => simp
      | error e =>
        cases hcaught : isCaught e with
        | true => simp [hcaught]
        | false => simp [hcaught]

end Context

/-! ### What is built -/

/-- An accepted configuration builds a prompt exactly when the prompt is formattable. -/
theorem built_iff (rt : Interpreter) {fileExists : String → Bool}
    {workflows : List (String × PromptConfig)} (hinit : initPrompts fileExists workflows = .ok ())
    {name : String} {p : PromptConfig} (hp : workflows.lookup name = some p) (repo : String)
    (issueNumber : Option Int) (userQuery : String) :
    Built rt p repo issueNumber userQuery ↔ Formattable rt p repo issueNumber userQuery := by
  have hvalid : validateTemplate p = .ok () := validateTemplate_of_initPrompts hinit hp
  have hbuilt : Built rt p repo issueNumber userQuery ↔
      (∃ parts, fillTemplate rt p.template repo issueNumber userQuery.toList = .ok parts) ∧
        ∃ context, loadContext rt p repo issueNumber = .ok context ∧
          ∀ text ∈ contextText rt p, text ≠ [] → context ≠ none := by
    unfold Built buildPrompt
    cases fillTemplate rt p.template repo issueNumber userQuery.toList with
    | error e => simp [bind, Except.bind]
    | ok parts =>
      cases loadContext rt p repo issueNumber with
      | error e => simp [bind, Except.bind]
      | ok context => simp [bind, Except.bind, pure, Except.pure]
  rw [hbuilt, fillTemplate_isOk_iff hvalid, loadContext_isOk_iff]
  exact ⟨fun h ↦ ⟨h.1, h.2.1, h.2.2⟩, fun h ↦ ⟨h.template, h.file, h.context⟩⟩

/-- A configuration of one workflow. -/
def oneWorkflow (context : String) : List (String × PromptConfig) :=
  [("review-pr", { template := "Review \x7brepo\x7d.", systemContext := some context })]

/-- The workflow with a context that names the repository. -/
theorem built_review : initPrompts (fun _ ↦ false) (oneWorkflow "Work on \x7brepo\x7d.") = .ok () ∧
    Built plainInterpreter ⟨"Review \x7brepo\x7d.", some "Work on \x7brepo\x7d."⟩ "o/r" (some 7)
      "the tests" := by
  have hinit : initPrompts (fun _ ↦ false) (oneWorkflow "Work on \x7brepo\x7d.") = .ok () := rfl
  have hfield : ∀ text ∈ ["Review \x7brepo\x7d.".toList, "Work on \x7brepo\x7d.".toList],
      (parse text).2 = true ∧ ∀ piece ∈ (parse text).1, ∀ f ∈ piece.field,
        f = ⟨"repo".toList, none, []⟩ := by decide
  have hworkflow : (oneWorkflow "Work on \x7brepo\x7d.").lookup "review-pr" =
      some ⟨"Review \x7brepo\x7d.", some "Work on \x7brepo\x7d."⟩ := rfl
  refine ⟨hinit, (built_iff plainInterpreter hinit hworkflow _ _ _).mpr ⟨?_, ?_, ?_⟩⟩
  · intro piece hpiece f hf v hv
    rw [(hfield _ (by simp)).2 piece hpiece f hf] at hv ⊢
    cases hv
    exact ⟨[], rfl, rfl⟩
  · exact Option.some_ne_none _
  · intro text htext _
    cases htext
    refine ⟨(hfield _ (by simp)).1, fun piece hpiece f hf ↦ ?_⟩
    rw [(hfield _ (by simp)).2 piece hpiece f hf]
    exact ⟨.str "o/r".toList, rfl, [], rfl, rfl⟩

/-- A context with the query is accepted and never built. -/
theorem not_built : ¬ ∀ (rt : Interpreter) (fileExists : String → Bool)
    (workflows : List (String × PromptConfig)), initPrompts fileExists workflows = .ok () →
    ∀ name p, workflows.lookup name = some p → ∀ repo issueNumber userQuery,
      Built rt p repo issueNumber userQuery := by
  intro h
  obtain ⟨prompt, context, hbuild, hcontext⟩ := h plainInterpreter (fun _ ↦ false)
    (oneWorkflow "Answer \x7buser_query\x7d.") rfl "review-pr" _ rfl "o/r" (some 7) "the tests"
  have hnone : context = none := by
    cases hbuild
    rfl
  exact hcontext _ rfl (by decide) hnone

end GithubAgent.Webhook
