import GithubAgent.Base.Lists
import GithubAgent.Webhook.Handler

/-!
# Whether routing respects each trigger's filters

A workflow should run when one of its triggers for the matched key accepts the payload, by the
trigger's own filters or else by the workflow's. The engine keeps one set of filters for each
workflow and key, the last trigger's, and looks them up under the key with the action even
when the triggers were matched under the bare event type.
-/

namespace GithubAgent.Webhook

open GithubAgent.Base GithubAgent.Shared WorkflowEngine

/-! ### What routing should do -/

/-- The filters a trigger is subject to: its own, or else those of its workflow. -/
def effectiveFilters (workflow : WorkflowConfig) (t : EventTrigger) : Filters :=
  if t.filters.isEmpty then workflow.triggers.filters else t.filters

/-- A trigger of the workflow for the key accepts the payload. -/
def acceptsFor (workflow : WorkflowConfig) (key : String) (payload : Payload) : Bool :=
  (triggersOf workflow).any fun t ↦
    t.event = key && accepts (effectiveFilters workflow t) payload

/-- A workflow of that name has a trigger for the key that accepts the payload. -/
def hasAcceptingEntry (config : WorkflowsConfig) (key : String) (payload : Payload)
    (name : String) : Bool :=
  (config.workflows.lookup name).any fun workflow ↦ acceptsFor workflow key payload

/-- The key under which `get_workflow_for_event` finds its candidates. -/
def matchedKey (config : WorkflowsConfig) (eventType action : String) : String :=
  if action ≠ "" ∧ (config.workflows.flatMap (namesFor (eventType ++ "." ++ action))) ≠ [] then
    eventType ++ "." ++ action
  else eventType

/-- The first candidate with a trigger for the matched key that accepts the payload. -/
def routed (config : WorkflowsConfig) (eventType action : String) (payload : Payload) :
    Option String :=
  ((ofConfig config).getWorkflowForEvent eventType action).find?
    (hasAcceptingEntry config (matchedKey config eventType action) payload)

/-! ### When a candidate is misjudged -/

/-- The filters that survive for a key reject the payload, and another trigger for the key
accepts it. -/
def Overwritten (workflow : WorkflowConfig) (key : String) (payload : Payload) : Prop :=
  ∃ own ∈ lastOwnFilters workflow key,
    accepts own payload = false ∧ acceptsFor workflow key payload = true

/-- The filters of the workflow say otherwise than its triggers for the bare event type. -/
def BareKeyDiffers (workflow : WorkflowConfig) (eventType : String) (payload : Payload) : Prop :=
  accepts workflow.triggers.filters payload ≠ acceptsFor workflow eventType payload

/-- The workflow is judged by filters that are not those of its triggers: the delivery has an
event type, and the key with the action is the matched one but filters were overwritten, or
the bare event type is the matched one. A delivery without an event type is not routed. -/
def Misjudged (config : WorkflowsConfig) (eventType action : String) (payload : Payload)
    (workflow : WorkflowConfig) : Prop :=
  if eventType = "" then acceptsFor workflow (matchedKey config eventType action) payload = true
  else if matchedKey config eventType action = eventKey eventType action then
    Overwritten workflow (eventKey eventType action) payload
  else BareKeyDiffers workflow eventType payload

/-- Every misjudged candidate comes after a candidate that is rightly accepted. -/
def MisjudgedComeLate (config : WorkflowsConfig) (eventType action : String)
    (payload : Payload) : Prop :=
  ∀ pre name post workflow,
    (ofConfig config).getWorkflowForEvent eventType action = pre ++ name :: post →
    config.workflows.lookup name = some workflow →
    Misjudged config eventType action payload workflow →
      ∃ earlier ∈ pre, ∃ other, config.workflows.lookup earlier = some other ∧
        ¬ Misjudged config eventType action payload other ∧
        acceptsFor other (matchedKey config eventType action) payload = true

/-! ### What the candidates and the filters are -/

section Candidates

variable {config : WorkflowsConfig} {eventType action key : String}

/-- The candidates are the workflows of the matched key, in configuration order. -/
theorem getWorkflowForEvent_ofConfig (config : WorkflowsConfig) (eventType action : String) :
    (ofConfig config).getWorkflowForEvent eventType action =
      config.workflows.flatMap (namesFor (matchedKey config eventType action)) := by
  unfold getWorkflowForEvent matchedKey
  have hget (key : String) : ((ofConfig config).eventMap key).getD [] =
      config.workflows.flatMap (namesFor key) := by
    rw [eventMap_ofConfig]
    unfold appendNames
    split
    · next hnil => rw [hnil]; rfl
    · rfl
  by_cases ha : action = ""
  · simp [ha, hget]
  · by_cases hnames : config.workflows.flatMap (namesFor (eventType ++ "." ++ action)) = []
    · have hmap : (ofConfig config).eventMap (eventType ++ "." ++ action) = none := by
        rw [eventMap_ofConfig, hnames]
        rfl
      simp [ha, hnames, hmap, hget]
    · have hmap : (ofConfig config).eventMap (eventType ++ "." ++ action) =
          some (config.workflows.flatMap (namesFor (eventType ++ "." ++ action))) := by
        rw [eventMap_ofConfig]
        simp [appendNames, hnames]
      simp [ha, hnames, hmap]

/-- A name that a key lists is that of a workflow with a trigger for the key. -/
theorem lookup_of_mem_namesFor {name : String}
    (h : name ∈ config.workflows.flatMap (namesFor key)) :
    ∃ workflow, config.workflows.lookup name = some workflow ∧
      ∃ t ∈ triggersOf workflow, t.event = key := by
  obtain ⟨entry, hentry, hname⟩ := List.mem_flatMap.mp h
  unfold namesFor at hname
  obtain ⟨t, ht, rfl⟩ := List.mem_map.mp hname
  rw [List.mem_filter, decide_eq_true_eq] at ht
  refine ⟨entry.2, ?_, t, ht⟩
  have hnodup := config.nodup
  generalize config.workflows = l at hentry hnodup
  clear h
  induction l with
  | nil => cases hentry
  | cons head rest ih =>
    rw [List.map_cons, List.nodup_cons] at hnodup
    rw [List.lookup_cons]
    rcases List.mem_cons.mp hentry with rfl | hrest
    · simp
    · have hne : (entry.1 == head.1) = false := by
        have hmem : entry.1 ∈ rest.map Prod.fst := List.mem_map_of_mem hrest
        simpa using fun heq : entry.1 = head.1 ↦ hnodup.1 (heq ▸ hmem)
      rw [hne]
      exact ih hrest hnodup.2

/-- A key that lists no workflow has no filters. -/
theorem lastOwnFilters_of_namesFor {name : String} {workflow : WorkflowConfig}
    (hnames : config.workflows.flatMap (namesFor key) = [])
    (hlookup : config.workflows.lookup name = some workflow) :
    lastOwnFilters workflow key = none := by
  cases hown : lastOwnFilters workflow key with
  | none => rfl
  | some own =>
    unfold lastOwnFilters at hown
    obtain ⟨t, ht, _⟩ := Option.map_eq_some_iff.mp hown
    have hmem := List.mem_reverse.mp (List.mem_of_find?_eq_some ht)
    have hkey := List.find?_some ht
    rw [decide_eq_true_eq] at hkey
    have hname : name ∈ config.workflows.flatMap (namesFor key) := by
      refine List.mem_flatMap.mpr ⟨_, mem_of_lookup hlookup, List.mem_map.mpr ⟨t, ?_, rfl⟩⟩
      rw [List.mem_filter, decide_eq_true_eq]
      exact ⟨hmem, hkey.1⟩
    rw [hnames] at hname
    cases hname

/-- The key with the action is empty only without an event type. -/
theorem eventKey_ne (h : eventType ≠ "") : eventKey eventType action ≠ "" := by
  unfold eventKey
  split
  · exact h
  · intro hempty
    have hlen := congrArg String.length hempty
    simp only [String.length_append] at hlen
    have hdot : ".".length = 1 := rfl
    have hzero : "".length = 0 := rfl
    omega

/-- The key with the action is passed over only when it lists no workflow. -/
theorem matchedKey_ne (h : matchedKey config eventType action ≠ eventKey eventType action) :
    matchedKey config eventType action = eventType ∧
      config.workflows.flatMap (namesFor (eventKey eventType action)) = [] := by
  unfold matchedKey eventKey at *
  by_cases ha : action = ""
  · simp [ha] at h
  · rw [if_neg ha] at h ⊢
    by_cases hnames : config.workflows.flatMap (namesFor (eventType ++ "." ++ action)) = []
    · exact ⟨if_neg fun hboth ↦ hboth.2 hnames, hnames⟩
    · exact absurd (if_pos ⟨ha, hnames⟩) h

end Candidates

section Verdict

variable {config : WorkflowsConfig} {eventType action key name : String} {payload : Payload}
  {workflow : WorkflowConfig}

/-- Whether the handler takes a candidate. -/
def verdict (config : WorkflowsConfig) (eventType action : String) (payload : Payload)
    (name : String) : Bool :=
  eventType ≠ "" &&
    (ofConfig config).checkFilters name payload (some (eventKey eventType action))

/-- A candidate is taken on the last filters stored for the key, or on the workflow's. -/
theorem verdict_eq (hlookup : config.workflows.lookup name = some workflow)
    (htype : eventType ≠ "") :
    verdict config eventType action payload name =
      accepts ((lastOwnFilters workflow (eventKey eventType action)).getD
        workflow.triggers.filters) payload := by
  have hkey : eventKey eventType action ≠ "" := eventKey_ne htype
  simp [verdict, checkFilters, workflows_ofConfig, eventFilters_ofConfig, hlookup, htype, hkey]

/-- The trigger that was last to store its filters. -/
theorem exists_of_lastOwnFilters {own : Filters} (h : lastOwnFilters workflow key = some own) :
    ∃ t ∈ triggersOf workflow, t.event = key ∧ effectiveFilters workflow t = own := by
  unfold lastOwnFilters at h
  obtain ⟨t, ht, rfl⟩ := Option.map_eq_some_iff.mp h
  have hkey := List.find?_some ht
  rw [decide_eq_true_eq] at hkey
  refine ⟨t, List.mem_reverse.mp (List.mem_of_find?_eq_some ht), hkey.1, ?_⟩
  simp [effectiveFilters, hkey.2]

/-- Without stored filters every trigger for the key is subject to the workflow's. -/
theorem effectiveFilters_of_none (h : lastOwnFilters workflow key = none) {t : EventTrigger}
    (ht : t ∈ triggersOf workflow) (hkey : t.event = key) :
    effectiveFilters workflow t = workflow.triggers.filters := by
  unfold lastOwnFilters at h
  rw [Option.map_eq_none_iff, List.find?_eq_none] at h
  have hempty := h t (List.mem_reverse.mpr ht)
  simp only [hkey, true_and, decide_eq_true_eq, Bool.not_eq_false] at hempty
  simp [effectiveFilters, hempty]

theorem acceptsFor_of_mem {t : EventTrigger} (ht : t ∈ triggersOf workflow) (hkey : t.event = key)
    (haccepts : accepts (effectiveFilters workflow t) payload = true) :
    acceptsFor workflow key payload = true := by
  refine List.any_eq_true.mpr ⟨t, ht, ?_⟩
  simp [hkey, haccepts]

/-- Under the key that was matched, only overwritten filters mislead. -/
theorem accepts_ne_iff (hentry : ∃ t ∈ triggersOf workflow, t.event = key) :
    accepts ((lastOwnFilters workflow key).getD workflow.triggers.filters) payload ≠
      acceptsFor workflow key payload ↔ Overwritten workflow key payload := by
  unfold Overwritten
  cases hown : lastOwnFilters workflow key with
  | some own =>
    obtain ⟨t, ht, hkey, heff⟩ := exists_of_lastOwnFilters hown
    cases haccepts : accepts own payload with
    | true =>
      have hfor := acceptsFor_of_mem ht hkey (heff ▸ haccepts)
      simp [haccepts, hfor]
    | false => simp [haccepts]
  | none =>
    have hfor : acceptsFor workflow key payload = accepts workflow.triggers.filters payload := by
      obtain ⟨t, ht, hkey⟩ := hentry
      rw [Bool.eq_iff_iff]
      constructor
      · intro hany
        obtain ⟨t', ht', hboth⟩ := List.any_eq_true.mp hany
        rw [Bool.and_eq_true, decide_eq_true_eq] at hboth
        rw [← effectiveFilters_of_none hown ht' hboth.1]
        exact hboth.2
      · intro haccepts
        exact acceptsFor_of_mem ht hkey (effectiveFilters_of_none hown ht hkey ▸ haccepts)
    simp [hfor]

/-- A candidate is judged otherwise than its triggers say exactly when it is misjudged. -/
theorem verdict_ne_iff (hlookup : config.workflows.lookup name = some workflow)
    (hentry : ∃ t ∈ triggersOf workflow, t.event = matchedKey config eventType action) :
    verdict config eventType action payload name ≠
      acceptsFor workflow (matchedKey config eventType action) payload ↔
        Misjudged config eventType action payload workflow := by
  unfold Misjudged
  by_cases htype : eventType = ""
  · simp [verdict, htype]
  · rw [if_neg htype, verdict_eq hlookup htype]
    by_cases hmatched : matchedKey config eventType action = eventKey eventType action
    · rw [if_pos hmatched, hmatched]
      rw [hmatched] at hentry
      exact accepts_ne_iff hentry
    · obtain ⟨hbare, hnames⟩ := matchedKey_ne hmatched
      have hnone := lastOwnFilters_of_namesFor hnames hlookup
      rw [if_neg hmatched, hbare, hnone]
      rfl

end Verdict

/-! ### The claim -/

/-- The handler selects the workflow that routing should select exactly when every misjudged
candidate comes after one that is rightly accepted. -/
theorem selectWorkflow_eq_routed_iff (config : WorkflowsConfig) (eventType action : String)
    (payload : Payload) :
    selectWorkflow (ofConfig config) eventType action none payload =
      routed config eventType action payload ↔
        MisjudgedComeLate config eventType action payload := by
  have hselect : selectWorkflow (ofConfig config) eventType action none payload =
      ((ofConfig config).getWorkflowForEvent eventType action).find?
        (verdict config eventType action payload) := by
    unfold selectWorkflow verdict
    by_cases htype : eventType = ""
    · simp only [htype, ↓reduceIte]
      exact (List.find?_eq_none.mpr (by simp)).symm
    · simp [htype]
  have hcandidate (name : String)
      (hname : name ∈ (ofConfig config).getWorkflowForEvent eventType action) :
      ∃ workflow, config.workflows.lookup name = some workflow ∧
        hasAcceptingEntry config (matchedKey config eventType action) payload name =
          acceptsFor workflow (matchedKey config eventType action) payload ∧
        (verdict config eventType action payload name ≠
          acceptsFor workflow (matchedKey config eventType action) payload ↔
            Misjudged config eventType action payload workflow) := by
    rw [getWorkflowForEvent_ofConfig] at hname
    obtain ⟨workflow, hlookup, hentry⟩ := lookup_of_mem_namesFor hname
    refine ⟨workflow, hlookup, ?_, verdict_ne_iff hlookup hentry⟩
    simp [hasAcceptingEntry, hlookup]
  rw [hselect, routed, find?_eq_find?_iff]
  unfold MisjudgedComeLate
  constructor
  · intro h pre name post workflow hl hlookup hmis
    obtain ⟨_, hlookup', hentry, hne⟩ := hcandidate name (by simp [hl])
    cases hlookup'.symm.trans hlookup
    obtain ⟨earlier, hmem, hverdict, haccepts⟩ := h pre name post hl (hentry ▸ hne.mpr hmis)
    obtain ⟨other, hother, hentry', hne'⟩ := hcandidate earlier (by simp [hl, hmem])
    rw [hentry'] at haccepts
    refine ⟨earlier, hmem, other, hother, fun hmis' ↦ hne'.mpr hmis' ?_, haccepts⟩
    rw [hverdict, haccepts]
  · intro h pre name post hl hdiffer
    obtain ⟨workflow, hlookup, hentry, hne⟩ := hcandidate name (by simp [hl])
    obtain ⟨earlier, hmem, other, hother, hright, haccepts⟩ :=
      h pre name post workflow hl hlookup (hne.mp (hentry ▸ hdiffer))
    obtain ⟨_, hother', hentry', hne'⟩ := hcandidate earlier (by simp [hl, hmem])
    cases hother'.symm.trans hother
    have hverdict := not_not.mp fun hdiffer' ↦ hright (hne'.mp hdiffer')
    exact ⟨earlier, hmem, hverdict.trans haccepts, hentry'.trans haccepts⟩

/-- Two triggers of one workflow for the same event, each with its own filters. -/
def twoLabels : WorkflowsConfig where
  workflows := [("review-pr",
    { triggers :=
        { events :=
            [.trigger { event := "pull_request.labeled", filters := [("label.name", .str "review")] },
             .trigger { event := "pull_request.labeled",
                        filters := [("label.name", .str "pr-review")] }] } })]
  nodup := by decide

/-- A pull request gets the label of the first trigger, whose filters were overwritten. -/
theorem not_routed :
    ¬ ∀ config engine eventType action payload, WorkflowEngine.init config = .ok engine →
      selectWorkflow engine eventType action none payload =
        routed config eventType action payload := by
  intro h
  have heq := h twoLabels (ofConfig twoLabels) "pull_request" "labeled"
    [("action", .str "labeled"), ("label", .obj [("name", .str "review")])] rfl
  revert heq
  decide

end GithubAgent.Webhook
