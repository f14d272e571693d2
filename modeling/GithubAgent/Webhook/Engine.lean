import GithubAgent.Shared.Payload
import Mathlib.Logic.Function.Basic

/-!
# The workflow engine

`WorkflowEngine` of `src/workflows/engine.py`: the triggers of a configuration, the lookup
tables `__init__` builds from them and the queries the webhook makes. Prompts, context,
conversation and streaming settings take no part in routing and are left out, and with them
the two checks of `__init__` that read prompts.
-/

namespace GithubAgent.Webhook

open GithubAgent.Base GithubAgent.Shared

/-- Payload filters: a dot path and the expected value, or the list of expected values. -/
abbrev Filters := List (String × Json)

/-- An event trigger with its own filters (`engine.py:30-40`). -/
structure EventTrigger where
  event : String
  filters : Filters := []

/-- An entry of `triggers.events`: a string or an `EventTrigger` (`engine.py:46-48`). -/
inductive TriggerEntry where
  | name (event : String)
  | trigger (t : EventTrigger)

/-- The normalisation to `EventTrigger` (`engine.py:281-284`). -/
def TriggerEntry.normalize : TriggerEntry → EventTrigger
  | .name event => { event }
  | .trigger t => t

/-- Triggers of a workflow (`engine.py:43-54`). -/
structure TriggersConfig where
  events : List TriggerEntry := []
  commands : List String := []
  filters : Filters := []

/-- The settings of a workflow that routing reads (`engine.py:103-125`). -/
structure WorkflowConfig where
  triggers : TriggersConfig
  skipSelf : Bool := true

/-- The root configuration: a dict, so no name occurs twice (`engine.py:131-136`). -/
structure WorkflowsConfig where
  workflows : List (String × WorkflowConfig)
  nodup : (workflows.map Prod.fst).Nodup

/-- The `ValueError`s of `_validate_workflow_names`. -/
inductive NameError where
  | invalid (name : String)
  | tooLong (name : String)
  | reserved (name : String)
  deriving DecidableEq

/-- The message of the error (`engine.py:152-170`). -/
def NameError.message : NameError → String
  | .invalid name => "Invalid workflow name '" ++ name ++
      "'. Workflow names must be lowercase with hyphens (e.g., 'review-pr', 'fix-ci')"
  | .tooLong name => "Workflow name '" ++ name ++ "' is too long (max 50 characters)"
  | .reserved name => "Workflow name '" ++ name ++
      "' is reserved. Please choose a different name."

/-- `[a-z0-9]`. -/
def isNameChar (c : Char) : Bool := ('a' ≤ c && c ≤ 'z') || ('0' ≤ c && c ≤ '9')

/-- `[a-z0-9]+(-[a-z0-9]+)*$` on the rest of a name; `$` also matches before a final newline.
`started` says that the current group has a character. -/
def matchesName (started : Bool) : List Char → Bool
  | [] => started
  | ['\n'] => started
  | c :: rest =>
    if isNameChar c then matchesName true rest else c == '-' && started && matchesName false rest

/-- The check of one name (`engine.py:150-170`). -/
def validateWorkflowName (name : String) : Except NameError Unit :=
  if !matchesName false name.toList then .error (.invalid name)
  else if 50 < name.length then .error (.tooLong name)
  else if name ∈ ["test", "debug", "admin", "system"] then .error (.reserved name)
  else .ok ()

/-- The engine: the workflows and the lookup tables (`engine.py:265-276`). -/
structure WorkflowEngine where
  workflows : List (String × WorkflowConfig)
  eventMap : String → Option (List String)
  commandMap : String → Option String
  eventFilters : String × String → Option Filters

namespace WorkflowEngine

/-- The entries of one trigger in the two event tables: a workflow is appended once for every
entry, and non-empty filters replace those stored under the same pair (`engine.py:285-289`). -/
def addTrigger (engine : WorkflowEngine) (workflowName : String) (trigger : EventTrigger) :
    WorkflowEngine :=
  { engine with
    eventMap := Function.update engine.eventMap trigger.event
      (some ((engine.eventMap trigger.event).getD [] ++ [workflowName]))
    eventFilters :=
      if trigger.filters.isEmpty then engine.eventFilters
      else Function.update engine.eventFilters (workflowName, trigger.event)
        (some trigger.filters) }

/-- A command of a workflow; the last workflow keeps it (`engine.py:295-296`). -/
def addCommand (engine : WorkflowEngine) (workflowName command : String) : WorkflowEngine :=
  { engine with commandMap := Function.update engine.commandMap command (some workflowName) }

/-- One round of the loop over the workflows (`engine.py:278-299`). -/
def addWorkflow (engine : WorkflowEngine) (entry : String × WorkflowConfig) : WorkflowEngine :=
  let withEvents := entry.2.triggers.events.foldl
    (fun engine e ↦ engine.addTrigger entry.1 e.normalize) engine
  entry.2.triggers.commands.foldl (fun engine c ↦ engine.addCommand entry.1 c) withEvents

/-- The tables of a configuration (`engine.py:273-299`). -/
def ofConfig (config : WorkflowsConfig) : WorkflowEngine :=
  config.workflows.foldl addWorkflow
    { workflows := config.workflows
      eventMap := fun _ ↦ none
      commandMap := fun _ ↦ none
      eventFilters := fun _ ↦ none }

/-- `__init__` on a parsed configuration: the names are checked first (`engine.py:265-303`). -/
def init (config : WorkflowsConfig) : Except NameError WorkflowEngine := do
  config.workflows.forM fun entry ↦ validateWorkflowName entry.1
  return ofConfig config

/-- `get_workflow_for_event`; a missing action is `""` (`engine.py:313-335`). -/
def getWorkflowForEvent (engine : WorkflowEngine) (eventType action : String) : List String :=
  match (if action = "" then none else engine.eventMap (eventType ++ "." ++ action)) with
  | some names => names
  | none => (engine.eventMap eventType).getD []

/-- `should_skip_self` (`engine.py:337-357`). -/
def shouldSkipSelf (engine : WorkflowEngine) (workflowName eventActor botUsername : String) :
    Bool :=
  match engine.workflows.lookup workflowName with
  | none => true
  | some workflow => workflow.skipSelf && eventActor == botUsername

/-- `get_workflow_for_command` (`engine.py:359-367`). -/
def getWorkflowForCommand (engine : WorkflowEngine) (command : String) : Option String :=
  engine.commandMap command

/-- The values a filter accepts: `expected if isinstance(expected, list) else [expected]`. -/
def expectedList : Json → List Json
  | .arr items => items
  | v => [v]

/-- All filters accept the payload (`engine.py:405-422`). -/
def accepts (filters : Filters) (payload : Payload) : Bool :=
  filters.all fun filter ↦ (expectedList filter.2).any ((resolvePath payload filter.1).eq ·)

/-- `check_filters`: the filters stored for the event key, else those of the workflow
(`engine.py:369-422`). -/
def checkFilters (engine : WorkflowEngine) (workflowName : String) (payload : Payload)
    (eventKey : Option String) : Bool :=
  match engine.workflows.lookup workflowName with
  | none => false
  | some workflow =>
    let own := match eventKey with
      | some key => if key = "" then none else engine.eventFilters (workflowName, key)
      | none => none
    accepts (own.getD workflow.triggers.filters) payload

/-! ### What the tables hold -/

/-- The triggers of a workflow, normalised. -/
def triggersOf (workflow : WorkflowConfig) : List EventTrigger :=
  workflow.triggers.events.map TriggerEntry.normalize

/-- The name of a workflow, once for each of its triggers for the key. -/
def namesFor (key : String) (entry : String × WorkflowConfig) : List String :=
  ((triggersOf entry.2).filter (·.event = key)).map fun _ ↦ entry.1

/-- The filters of the last trigger for the key that has its own. -/
def lastOwnFilters (workflow : WorkflowConfig) (key : String) : Option Filters :=
  ((triggersOf workflow).reverse.find? fun t ↦ t.event = key ∧ t.filters.isEmpty = false).map
    EventTrigger.filters

/-- A table entry after names were appended to it. -/
def appendNames (stored : Option (List String)) (names : List String) : Option (List String) :=
  if names = [] then stored else some (stored.getD [] ++ names)

theorem appendNames_append (stored : Option (List String)) (names more : List String) :
    appendNames (appendNames stored names) more = appendNames stored (names ++ more) := by
  unfold appendNames
  by_cases hn : names = []
  · simp [hn]
  · by_cases hm : more = []
    · simp [hm]
    · simp [hn, hm, List.append_assoc]

theorem eventMap_addTrigger (engine : WorkflowEngine) (name key : String) (t : EventTrigger) :
    (engine.addTrigger name t).eventMap key =
      appendNames (engine.eventMap key) (if t.event = key then [name] else []) := by
  unfold addTrigger appendNames
  by_cases hk : t.event = key
  · subst hk
    simp
  · have hne : key ≠ t.event := fun h ↦ hk h.symm
    simp [hk, hne]

theorem eventFilters_addTrigger (engine : WorkflowEngine) (name : String) (t : EventTrigger)
    (slot : String × String) :
    (engine.addTrigger name t).eventFilters slot =
      if t.filters.isEmpty = false ∧ slot = (name, t.event) then some t.filters
      else engine.eventFilters slot := by
  unfold addTrigger
  by_cases he : t.filters.isEmpty = true
  · simp [he]
  · by_cases hat : slot = (name, t.event)
    · simp [he, hat]
    · simp [he, hat]

@[simp] theorem workflows_addTrigger (engine : WorkflowEngine) (name : String)
    (t : EventTrigger) : (engine.addTrigger name t).workflows = engine.workflows := rfl

/-- Commands change neither the workflows nor the event tables. -/
theorem foldl_addCommand (commands : List String) (name : String) (engine : WorkflowEngine) :
    (commands.foldl (fun engine c ↦ engine.addCommand name c) engine).workflows =
        engine.workflows ∧
      (commands.foldl (fun engine c ↦ engine.addCommand name c) engine).eventMap =
        engine.eventMap ∧
      (commands.foldl (fun engine c ↦ engine.addCommand name c) engine).eventFilters =
        engine.eventFilters := by
  induction commands generalizing engine with
  | nil => exact ⟨rfl, rfl, rfl⟩
  | cons c rest ih => exact ih (engine.addCommand name c)

/-- The event tables after the triggers of one workflow. -/
theorem foldl_addTrigger (entries : List TriggerEntry) (name : String) (engine : WorkflowEngine) :
    let after := entries.foldl (fun engine e ↦ engine.addTrigger name e.normalize) engine
    let triggers := entries.map TriggerEntry.normalize
    after.workflows = engine.workflows ∧
      (∀ key, after.eventMap key = appendNames (engine.eventMap key)
        ((triggers.filter (·.event = key)).map fun _ ↦ name)) ∧
      (∀ key, after.eventFilters (name, key) =
        ((triggers.reverse.find? fun t ↦ t.event = key ∧ t.filters.isEmpty = false).map
          EventTrigger.filters).or (engine.eventFilters (name, key))) ∧
      ∀ other key, other ≠ name →
        after.eventFilters (other, key) = engine.eventFilters (other, key) := by
  induction entries generalizing engine with
  | nil => exact ⟨rfl, fun _ ↦ rfl, fun _ ↦ rfl, fun _ _ _ ↦ rfl⟩
  | cons e rest ih =>
    obtain ⟨hw, hmap, hown, hother⟩ := ih (engine.addTrigger name e.normalize)
    refine ⟨hw, ?_, ?_, ?_⟩
    · intro key
      rw [List.foldl_cons, hmap, eventMap_addTrigger, appendNames_append]
      by_cases hk : e.normalize.event = key <;> simp [hk]
    · intro key
      rw [List.foldl_cons, hown, eventFilters_addTrigger, List.map_cons, List.reverse_cons,
        List.find?_append, Option.map_or, Option.or_assoc]
      by_cases hk : e.normalize.event = key
      · by_cases hf : e.normalize.filters = [] <;> simp [hk, hf]
      · have hne : key ≠ e.normalize.event := fun h ↦ hk h.symm
        simp [hk, hne]
    · intro other key hne
      rw [List.foldl_cons, hother other key hne, eventFilters_addTrigger]
      simp [hne]

theorem workflows_addWorkflow (engine : WorkflowEngine) (entry : String × WorkflowConfig) :
    (engine.addWorkflow entry).workflows = engine.workflows := by
  unfold addWorkflow
  rw [(foldl_addCommand _ _ _).1]
  exact (foldl_addTrigger _ _ _).1

theorem eventMap_addWorkflow (engine : WorkflowEngine) (entry : String × WorkflowConfig)
    (key : String) : (engine.addWorkflow entry).eventMap key =
      appendNames (engine.eventMap key) (namesFor key entry) := by
  unfold addWorkflow
  rw [(foldl_addCommand _ _ _).2.1]
  exact (foldl_addTrigger _ _ _).2.1 key

theorem eventFilters_addWorkflow (engine : WorkflowEngine) (entry : String × WorkflowConfig)
    (name key : String) : (engine.addWorkflow entry).eventFilters (name, key) =
      if name = entry.1 then (lastOwnFilters entry.2 key).or (engine.eventFilters (name, key))
      else engine.eventFilters (name, key) := by
  unfold addWorkflow
  rw [(foldl_addCommand _ _ _).2.2]
  split
  · next hname =>
    subst hname
    exact (foldl_addTrigger _ _ _).2.2.1 key
  · next hname => exact (foldl_addTrigger _ _ _).2.2.2 name key hname

section Config

variable (config : WorkflowsConfig)

theorem workflows_ofConfig : (ofConfig config).workflows = config.workflows := by
  have hfold (l : List (String × WorkflowConfig)) (engine : WorkflowEngine) :
      (l.foldl addWorkflow engine).workflows = engine.workflows := by
    induction l generalizing engine with
    | nil => rfl
    | cons entry rest ih => rw [List.foldl_cons, ih, workflows_addWorkflow]
  exact hfold config.workflows _

/-- The event map lists the workflows of a key in configuration order. -/
theorem eventMap_ofConfig (key : String) :
    (ofConfig config).eventMap key =
      appendNames none (config.workflows.flatMap (namesFor key)) := by
  have hfold (l : List (String × WorkflowConfig)) (engine : WorkflowEngine) :
      (l.foldl addWorkflow engine).eventMap key =
        appendNames (engine.eventMap key) (l.flatMap (namesFor key)) := by
    induction l generalizing engine with
    | nil => rfl
    | cons entry rest ih =>
      rw [List.foldl_cons, ih, eventMap_addWorkflow, appendNames_append, List.flatMap_cons]
  exact hfold config.workflows _

/-- The filter table holds, for a workflow and a key, the filters of the last trigger. -/
theorem eventFilters_ofConfig (name key : String) :
    (ofConfig config).eventFilters (name, key) =
      (config.workflows.lookup name).bind fun workflow ↦ lastOwnFilters workflow key := by
  have hfold (l : List (String × WorkflowConfig)) (engine : WorkflowEngine)
      (hnodup : (l.map Prod.fst).Nodup) :
      (l.foldl addWorkflow engine).eventFilters (name, key) =
        ((l.lookup name).bind fun workflow ↦ lastOwnFilters workflow key).or
          (engine.eventFilters (name, key)) := by
    induction l generalizing engine with
    | nil => rfl
    | cons entry rest ih =>
      rw [List.map_cons, List.nodup_cons] at hnodup
      rw [List.foldl_cons, ih _ hnodup.2, eventFilters_addWorkflow, List.lookup_cons]
      by_cases hname : name = entry.1
      · subst hname
        have hnone : rest.lookup entry.1 = none := by
          rw [List.lookup_eq_none_iff]
          intro p hp
          have hne : p.1 ≠ entry.1 := fun h ↦ hnodup.1 (h ▸ List.mem_map_of_mem hp)
          simpa using fun h : entry.1 = p.1 ↦ hne h.symm
        simp [hnone]
      · have hbeq : (name == entry.1) = false := by simpa using hname
        simp [hname, hbeq]
  rw [ofConfig, hfold _ _ config.nodup, Option.or_none]

end Config

end WorkflowEngine

end GithubAgent.Webhook
