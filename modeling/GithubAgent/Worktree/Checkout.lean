import GithubAgent.Worktree.Refs

/-!
# The ref an event names

The ref of a delivery goes through the extraction rules and the strategy of its event type,
the queue and the fallback of the agent worker. What the delivery names is compared with what
the resolvers make of that ref.
-/

namespace GithubAgent.Worktree

open GithubAgent.Base GithubAgent.Shared GithubAgent.Webhook

/-- `str` of a payload value; only what it makes of strings and integers matters. -/
def pyStr (other : Json → String) : Json → String
  | .str s => s
  | .int n => toString n
  | value => other value

/-- The text that `_resolve_ref` formats (`payload_extractor.py:199-217`). -/
def refText (other : Json → String) : GitRef → String
  | .main => "main"
  | .pull number => "refs/pull/" ++ pyStr other number ++ "/head"
  | .heads branch => "refs/heads/" ++ pyStr other branch
  | .tags tag => "refs/tags/" ++ pyStr other tag
  | .raw ref => pyStr other ref

/-- `ref or "main"` (`request_processor.py:330`). -/
def finalRef (ref : String) : String := if ref = "" then "main" else ref

/-- The refs that a delivery sends to the workers, with its jobs and its sync requests. -/
def producedRefs (other : Json → String) (outcome : Outcome) : List String :=
  outcome.jobs.map (fun job ↦ finalRef (refText other job.ref)) ++
    outcome.syncRequests.map (·.ref)

/-! ### What an event names -/

/-- The payload value under the ref rule of the event. -/
def refValue (req : Request) : Json :=
  match (findConfig req.eventType req.action).bind (·.ref) with
  | some rule => resolvePath req.data rule.path
  | none => .null

/-- Events whose payload gives the short name of a branch or tag. -/
def shortEvents : List String :=
  ["workflow_job", "workflow_run", "check_run", "check_suite", "deployment",
    "deployment_status", "repository_dispatch"]

/-- Events whose payload gives the short name and says which kind of ref it is. -/
def createdEvents : List String := ["create", "delete"]

/-- Events whose payload gives the qualified ref. -/
def qualifiedEvents : List String := ["push", "merge_group", "workflow_dispatch"]

/-- The delivery names the target, as GitHub spells it in the payload of the event. -/
def Names (req : Request) : Target → Prop
  | .pull number _ =>
    (req.eventType ∈ pullRequestEvents ∧ refValue req = .int number) ∨
      (req.eventType = "issue_comment" ∧
        (∃ issue, req.data.lookup "issue" = some (.obj issue) ∧
          (issue.lookup "pull_request").isSome) ∧
        resolvePath req.data "issue.number" = .int number)
  | .branch name =>
    (req.eventType ∈ shortEvents ∧ refValue req = .str name) ∨
      (req.eventType ∈ createdEvents ∧ req.data.text "ref_type" = "branch" ∧
        refValue req = .str name) ∨
      (req.eventType ∈ qualifiedEvents ∧ refValue req = .str ("refs/heads/" ++ name))
  | .tag name =>
    (req.eventType ∈ "release" :: shortEvents ∧ refValue req = .str name) ∨
      (req.eventType ∈ createdEvents ∧ req.data.text "ref_type" = "tag" ∧
        refValue req = .str name) ∨
      (req.eventType ∈ qualifiedEvents ∧ refValue req = .str ("refs/tags/" ++ name))

/-- A delivery that names a target, and a ref it sends. -/
structure Delivery (env : Env) (other : Json → String) where
  req : Request
  target : Target
  ref : String
  named : Names req target
  produced : ref ∈ producedRefs other (webhook env req)

/-- Both deliveries check out what they name, and no two refs are resolved to one. -/
def CheckedOut {env : Env} {other : Json → String} (first second : Delivery env other) : Prop :=
  ChecksOut first.target first.ref ∧ ChecksOut second.target second.ref ∧
    (resolveRef first.ref = resolveRef second.ref → first.ref = second.ref)

/-- The target is a pull request, a branch whose name does not contain `refs/heads/`, or a tag
that the event does not give by its short name alone. -/
def Resolvable (req : Request) : Target → Prop
  | .pull .. => True
  | .branch name => ¬ "refs/heads/".toList <:+: name.toList
  | .tag _ => req.eventType ∉ "release" :: shortEvents

/-! ### The ref that is sent -/

section Ref

variable {env : Env} {req : Request} {other : Json → String} {value : Json}

/-- A value under the ref rule is formatted as the strategy of the event says. -/
theorem resolveRef_value {eventType : String} {rule : ExtractionRule} {data : Payload}
    (hvalue : resolvePath data rule.path = value) (hne : value ≠ .null) :
    Webhook.resolveRef eventType (some rule) data = .ok (
      match refStrategy eventType with
      | .pr => .pull value
      | .heads => .heads value
      | .main => .main
      | .createDelete => if data.text "ref_type" = "tag" then .tags value else .heads value
      | .passthrough => .raw value) := by
  have hfield : extractField (some rule) data = .ok value := by
    unfold extractField
    dsimp only
    rw [hvalue]
    cases value with
    | null => exact absurd rfl hne
    | _ => rfl
  unfold Webhook.resolveRef
  rw [hfield]
  cases value with
  | null => exact absurd rfl hne
  | _ => cases refStrategy eventType <;> rfl

/-- The ref of an extraction. -/
theorem ref_extract {intOfText : String → Option Int} {eventType action : String}
    {data : Payload} {fields : ExtractedFields} {config : EventExtractionConfig}
    (h : extract intOfText eventType action data = .ok fields)
    (hconfig : findConfig eventType action = some config) :
    Webhook.resolveRef eventType config.ref data = .ok fields.ref := by
  unfold extract at h
  rw [hconfig] at h
  obtain ⟨_, _, h⟩ := bind_eq_ok.mp h
  obtain ⟨ref, href, h⟩ := bind_eq_ok.mp h
  obtain ⟨_, _, h⟩ := bind_eq_ok.mp h
  obtain ⟨_, _, h⟩ := bind_eq_ok.mp h
  obtain ⟨_, _, h⟩ := bind_eq_ok.mp h
  obtain ⟨_, _, h⟩ := bind_eq_ok.mp h
  cases h
  exact href

/-- The ref of a job, unless a comment sets it. -/
theorem job_ref {repo : Option String} {job : Job} (h : buildJob env req repo = .ok (.inr job))
    (hcomment : req.eventType ≠ "issue_comment") (hvalue : refValue req = value)
    (hne : value ≠ .null) :
    job.ref =
      match refStrategy req.eventType with
      | .pr => .pull value
      | .heads => .heads value
      | .main => .main
      | .createDelete => if req.data.text "ref_type" = "tag" then .tags value else .heads value
      | .passthrough => .raw value := by
  obtain ⟨_, _, _, fields, hextract, _, _, href, _⟩ := buildJob_cases h
  rw [jobRef, if_neg hcomment] at href
  unfold refValue at hvalue
  split at hvalue
  · next rule hrule =>
    obtain ⟨config, hconfig, hrule⟩ := Option.bind_eq_some_iff.mp hrule
    have hextracted := ref_extract hextract hconfig
    rw [hrule, resolveRef_value hvalue hne] at hextracted
    rw [← Except.ok.inj href, ← Except.ok.inj hextracted]
  · exact absurd hvalue.symm hne

/-- A comment on a pull request runs on its head. -/
theorem job_ref_comment {repo : Option String} {job : Job} {issue : Payload} {number : Nat}
    (h : buildJob env req repo = .ok (.inr job)) (hcomment : req.eventType = "issue_comment")
    (hissue : req.data.lookup "issue" = some (.obj issue))
    (hpull : (issue.lookup "pull_request").isSome)
    (hnumber : resolvePath req.data "issue.number" = .int number) (hpos : 0 < number) :
    job.ref = .pull (.int number) := by
  obtain ⟨_, _, _, fields, hextract, _, _, href, _⟩ := buildJob_cases h
  have hfield : fields.issueNumber = some (number : Int) := by
    rw [hcomment] at hextract
    exact issueNumber_extract hextract rfl rfl hnumber
  have hdict : req.data.dict "issue" = some issue := by
    rw [Payload.dict, hissue]
  have hzero : (number : Int) ≠ 0 := by omega
  rw [jobRef, if_pos hcomment, hdict] at href
  simp only [getAttr, bind, Except.bind, hfield, hpull, hzero, ne_eq, not_false_eq_true, and_self,
    if_true, pure, Except.pure] at href
  exact (Except.ok.inj href).symm

/-- Only a push asks for a sync. -/
theorem syncRequests_eq_nil (h : req.eventType ≠ "push") :
    (webhook env req).syncRequests = [] := by
  have hevent (repo : Option String) (cleanup : Option CleanupMessage) :
      (handleEvent env req repo cleanup).syncRequests = [] := by
    unfold handleEvent
    split <;> rfl
  unfold webhook
  split
  · rfl
  · split
    · rfl
    · split
      · rfl
      · exact hevent _ _
      · split
        · rfl
        · exact hevent _ _

/-- A push queues no job, and syncs the ref of its payload. -/
theorem producedRefs_push (h : req.eventType = "push") {ref : String}
    (href : ref ∈ producedRefs other (webhook env req)) : req.data.text? "ref" = some ref := by
  have hempty {outcome : Outcome} (hjobs : outcome.jobs = []) (hsyncs : outcome.syncRequests = []) :
      ref ∉ producedRefs other outcome := by
    simp [producedRefs, hjobs, hsyncs]
  unfold webhook at href
  split at href
  · exact absurd href (hempty rfl rfl)
  · split at href
    · exact absurd href (hempty rfl rfl)
    · unfold handlePush at href
      split at href
      · next pushed hpushed _ =>
        split at href
        · rw [hpushed]
          simpa [producedRefs, eq_comm] using href
        · exact absurd href (hempty rfl rfl)
      · exact absurd href (hempty rfl rfl)

/-- The ref that a delivery sends for its target. -/
def namedRef (req : Request) : Target → String
  | .branch name => "refs/heads/" ++ name
  | .tag name =>
    if req.eventType = "release" then finalRef name
    else if req.eventType ∈ shortEvents then "refs/heads/" ++ name
    else "refs/tags/" ++ name
  | .pull number _ => "refs/pull/" ++ toString number ++ "/head"

/-- A qualified ref is not empty. -/
theorem finalRef_append {start : String} (name : String) (h : start ≠ "") :
    finalRef (start ++ name) = start ++ name := by
  have hne : start ++ name ≠ "" := by
    intro hnil
    exact h (String.append_eq_empty_iff.mp hnil).1
  rw [finalRef, if_neg hne]

/-- Any other delivery sends the ref of its job. -/
theorem exists_job_of_mem {ref : String} (h : req.eventType ≠ "push")
    (href : ref ∈ producedRefs other (webhook env req)) :
    ∃ repo job, buildJob env req repo = .ok (.inr job) ∧
      ref = finalRef (refText other job.ref) := by
  rw [producedRefs, syncRequests_eq_nil h, List.map_nil, List.append_nil] at href
  obtain ⟨job, hjob, rfl⟩ := List.mem_map.mp href
  obtain ⟨repo, _, hbuild⟩ := buildJob_of_mem_jobs hjob
  exact ⟨repo, job, hbuild, rfl⟩

/-- The ref rule of a push is its field `ref`. -/
theorem refValue_push (h : req.eventType = "push") {ref : String}
    (href : req.data.text? "ref" = some ref) : refValue req = .str ref := by
  have hrule : (extractionRules.lookup "push").bind (·.ref) = some { path := "ref" } := rfl
  have hpath : splitDots "ref" = ["ref"] := by decide
  unfold refValue
  rw [findConfig_eq, h, hrule]
  simp only [resolvePath, hpath, walk, Json.get?]
  unfold Payload.text? at href
  split at href
  · next s hs =>
    rw [hs, ← Option.some.inj href]
    rfl
  · cases href

/-- What a delivery sends follows from what it names. -/
theorem producedRef_eq {target : Target} {ref : String} (hnamed : Names req target)
    (href : ref ∈ producedRefs other (webhook env req)) : ref = namedRef req target := by
  have hpulls : ∀ e ∈ pullRequestEvents, refStrategy e = .pr ∧ e ≠ "issue_comment" ∧
      e ≠ "push" := by decide
  have hshort : ∀ e ∈ shortEvents, refStrategy e = .heads ∧ e ≠ "issue_comment" ∧
      e ≠ "push" ∧ e ≠ "release" := by decide
  have hcreated : ∀ e ∈ createdEvents, refStrategy e = .createDelete ∧ e ≠ "issue_comment" ∧
      e ≠ "push" ∧ e ≠ "release" ∧ e ∉ shortEvents := by decide
  have hqualified : ∀ e ∈ qualifiedEvents, refStrategy e = .passthrough ∧ e ≠ "issue_comment" ∧
      e ≠ "release" ∧ e ∉ shortEvents := by decide
  have hraw {text : String} (he : req.eventType ∈ qualifiedEvents)
      (hvalue : refValue req = .str text) (htext : finalRef text = text) : ref = text := by
    by_cases hpush : req.eventType = "push"
    · have hsame := refValue_push hpush (producedRefs_push hpush href)
      rw [hvalue] at hsame
      exact (Json.str.inj hsame).symm
    · obtain ⟨repo, job, hbuild, rfl⟩ := exists_job_of_mem hpush href
      obtain ⟨hstrategy, hcomment, _⟩ := hqualified _ he
      rw [job_ref hbuild hcomment hvalue (by intro h; cases h), hstrategy]
      exact htext
  have hhead (number : Nat) : finalRef (refText other (.pull (.int number))) =
      "refs/pull/" ++ toString number ++ "/head" := by
    show finalRef ("refs/pull/" ++ toString number ++ "/head") = _
    rw [String.append_assoc]
    exact finalRef_append _ (by decide)
  cases target with
  | pull number pos =>
    rcases hnamed with ⟨he, hvalue⟩ | ⟨he, ⟨issue, hissue, hpull⟩, hnumber⟩
    · obtain ⟨hstrategy, hcomment, hpush⟩ := hpulls _ he
      obtain ⟨repo, job, hbuild, rfl⟩ := exists_job_of_mem hpush href
      rw [job_ref hbuild hcomment hvalue (by intro h; cases h), hstrategy]
      exact hhead number
    · have hpush : req.eventType ≠ "push" := by
        rw [he]
        decide
      obtain ⟨repo, job, hbuild, rfl⟩ := exists_job_of_mem hpush href
      rw [job_ref_comment hbuild he hissue hpull hnumber pos]
      exact hhead number
  | branch name =>
    rcases hnamed with ⟨he, hvalue⟩ | ⟨he, htype, hvalue⟩ | ⟨he, hvalue⟩
    · obtain ⟨hstrategy, hcomment, hpush, _⟩ := hshort _ he
      obtain ⟨repo, job, hbuild, rfl⟩ := exists_job_of_mem hpush href
      rw [job_ref hbuild hcomment hvalue (by intro h; cases h), hstrategy]
      exact finalRef_append name (by decide)
    · obtain ⟨hstrategy, hcomment, hpush, _⟩ := hcreated _ he
      obtain ⟨repo, job, hbuild, rfl⟩ := exists_job_of_mem hpush href
      rw [job_ref hbuild hcomment hvalue (by intro h; cases h), hstrategy, htype]
      exact finalRef_append name (by decide)
    · exact hraw he hvalue (finalRef_append name (by decide))
  | tag name =>
    rcases hnamed with ⟨he, hvalue⟩ | ⟨he, htype, hvalue⟩ | ⟨he, hvalue⟩
    · rcases List.mem_cons.mp he with he | he
      · have hpush : req.eventType ≠ "push" ∧ req.eventType ≠ "issue_comment" := by
          rw [he]
          decide
        obtain ⟨repo, job, hbuild, rfl⟩ := exists_job_of_mem hpush.1 href
        rw [job_ref hbuild hpush.2 hvalue (by intro h; cases h), namedRef, if_pos he, he]
        rfl
      · obtain ⟨hstrategy, hcomment, hpush, hrelease⟩ := hshort _ he
        obtain ⟨repo, job, hbuild, rfl⟩ := exists_job_of_mem hpush href
        rw [job_ref hbuild hcomment hvalue (by intro h; cases h), hstrategy, namedRef,
          if_neg hrelease, if_pos he]
        exact finalRef_append name (by decide)
    · obtain ⟨hstrategy, hcomment, hpush, hrelease, hshort⟩ := hcreated _ he
      obtain ⟨repo, job, hbuild, rfl⟩ := exists_job_of_mem hpush href
      rw [job_ref hbuild hcomment hvalue (by intro h; cases h), hstrategy, htype, namedRef,
        if_neg hrelease, if_neg hshort]
      exact finalRef_append name (by decide)
    · obtain ⟨_, _, hrelease, hshort⟩ := hqualified _ he
      rw [namedRef, if_neg hrelease, if_neg hshort]
      exact hraw he hvalue (finalRef_append name (by decide))

end Ref

/-! ### What the resolvers make of it -/

section Resolution

variable {env : Env} {other : Json → String}

/-- A target that can be resolved is sent by its remote ref. -/
theorem namedRef_of_resolvable {req : Request} {target : Target} (h : Resolvable req target) :
    namedRef req target = target.remoteRef := by
  cases target with
  | branch name => rfl
  | pull number pos => rfl
  | tag name =>
    obtain ⟨hrelease, hshort⟩ := not_or.mp (List.mem_cons.not.mp h)
    rw [namedRef, if_neg hrelease, if_neg hshort]
    rfl

/-- Remote refs that can be resolved check out. -/
theorem checksOut_remoteRef {target : Target}
    (h : ∀ name, target = .branch name → ¬ "refs/heads/".toList <:+: name.toList) :
    ChecksOut target target.remoteRef := by
  cases target with
  | branch name =>
    have hname : deleteWord name "refs/heads/" = name :=
      (deleteWord_eq_self_iff name (by decide)).mpr (h name rfl)
    refine ⟨?_, ?_, ?_⟩
    · rw [storedRef_branch, Target.remoteRef, resolveRef, bareRef_heads, hname]
    · rfl
    · rw [Target.remoteRef, indexingRef, resolveRef, bareRef_heads, bareRef_heads]
  | tag name =>
    refine ⟨?_, ?_, ?_⟩
    · rw [storedRef_tag, Target.remoteRef, resolveRef, bareRef_append name (.inr rfl)]
    · rfl
    · rw [Target.remoteRef, indexingRef, resolveRef, bareRef_append name (.inr rfl),
        bareRef_append name (.inr rfl)]
  | pull number pos =>
    refine ⟨?_, ?_, ?_⟩
    · rw [storedRef_pull, Target.remoteRef, resolveRef, String.append_assoc,
        bareRef_append _ (.inl rfl)]
    · rfl
    · rw [Target.remoteRef, indexingRef, resolveRef, String.append_assoc,
        bareRef_append _ (.inl rfl), bareRef_append _ (.inl rfl)]

theorem remotes_ne_tags (base name : String) :
    "refs/remotes/origin/" ++ base ≠ "refs/tags/" ++ name := by
  intro h
  have hchars := congrArg String.toList h
  simp at hchars

theorem remotes_ne_pull (base name : String) :
    "refs/remotes/origin/" ++ base ≠ "refs/pull/" ++ name := by
  intro h
  have hchars := congrArg String.toList h
  simp at hchars

theorem tags_ne_pull (base name : String) : "refs/tags/" ++ base ≠ "refs/pull/" ++ name := by
  intro h
  have hchars := congrArg String.toList h
  simp at hchars

/-- The refs of the bare repository tell the targets apart. -/
theorem storedRef_injective {first second : Target}
    (h : storedRef first.remoteRef = storedRef second.remoteRef) :
    first.remoteRef = second.remoteRef := by
  cases first with
  | branch name =>
    rw [storedRef_branch] at h
    cases second with
    | branch name' =>
      rw [storedRef_branch, Option.some.injEq, String.append_right_inj] at h
      rw [h]
    | tag name' =>
      rw [storedRef_tag, Option.some.injEq] at h
      exact absurd h (remotes_ne_tags _ _)
    | pull number pos =>
      rw [storedRef_pull, Option.some.injEq, String.append_assoc] at h
      exact absurd h (remotes_ne_pull _ _)
  | tag name =>
    rw [storedRef_tag] at h
    cases second with
    | branch name' =>
      rw [storedRef_branch, Option.some.injEq] at h
      exact absurd h.symm (remotes_ne_tags _ _)
    | tag name' =>
      rw [storedRef_tag, Option.some.injEq] at h
      exact h
    | pull number pos =>
      rw [storedRef_pull, Option.some.injEq, String.append_assoc] at h
      exact absurd h (tags_ne_pull _ _)
  | pull number pos =>
    rw [storedRef_pull] at h
    cases second with
    | branch name' =>
      rw [storedRef_branch, Option.some.injEq, String.append_assoc] at h
      exact absurd h.symm (remotes_ne_pull _ _)
    | tag name' =>
      rw [storedRef_tag, Option.some.injEq, String.append_assoc] at h
      exact absurd h.symm (tags_ne_pull _ _)
    | pull number' pos' =>
      rw [storedRef_pull, Option.some.injEq] at h
      exact h

/-- The short name of a tag is never resolved to the ref of the tag. -/
theorem not_checksOut_finalRef (name : String) : ¬ ChecksOut (.tag name) (finalRef name) := by
  rintro ⟨hstored, _, _⟩
  rw [storedRef_tag, Option.some.injEq, resolveRef] at hstored
  rcases bareRef_cases (deleteWord · "refs/") (finalRef name) with hself | ⟨base, hbase⟩
  · rw [hself, finalRef] at hstored
    split at hstored
    · next hempty =>
      rw [hempty] at hstored
      revert hstored
      decide
    · have hlength := congrArg String.length hstored
      rw [String.length_append] at hlength
      have hten : "refs/tags/".length = 10 := rfl
      omega
  · rw [hbase] at hstored
    exact remotes_ne_tags _ _ hstored.symm

/-- A delivery checks out its target exactly when the target can be resolved. -/
theorem checksOut_namedRef_iff {req : Request} {target : Target} :
    ChecksOut target (namedRef req target) ↔ Resolvable req target := by
  constructor
  · intro h
    cases target with
    | pull number pos => trivial
    | branch name =>
      obtain ⟨hstored, _, _⟩ := h
      rw [storedRef_branch, namedRef, resolveRef, bareRef_heads, Option.some.injEq,
        String.append_right_inj] at hstored
      exact (deleteWord_eq_self_iff name (by decide)).mp hstored.symm
    | tag name =>
      intro hevent
      rw [namedRef] at h
      rcases List.mem_cons.mp hevent with hrelease | hshort
      · rw [if_pos hrelease] at h
        exact not_checksOut_finalRef name h
      · have hrelease : req.eventType ≠ "release" := by
          intro heq
          rw [heq] at hshort
          revert hshort
          decide
        rw [if_neg hrelease, if_pos hshort] at h
        obtain ⟨hstored, _, _⟩ := h
        rw [storedRef_tag, resolveRef, bareRef_heads, Option.some.injEq] at hstored
        exact remotes_ne_tags _ _ hstored.symm
  · intro h
    rw [namedRef_of_resolvable h]
    apply checksOut_remoteRef
    rintro name rfl
    exact h

/-- Deliveries check out what they name exactly when their targets can be resolved. -/
theorem checkedOut_iff (first second : Delivery env other) :
    CheckedOut first second ↔
      Resolvable first.req first.target ∧ Resolvable second.req second.target := by
  have hfirst := producedRef_eq first.named first.produced
  have hsecond := producedRef_eq second.named second.produced
  unfold CheckedOut
  constructor
  · rintro ⟨hout, hout', _⟩
    rw [hfirst, checksOut_namedRef_iff] at hout
    rw [hsecond, checksOut_namedRef_iff] at hout'
    exact ⟨hout, hout'⟩
  · rintro ⟨hresolvable, hresolvable'⟩
    have hout : ChecksOut first.target first.ref := by
      rw [hfirst]
      exact checksOut_namedRef_iff.mpr hresolvable
    have hout' : ChecksOut second.target second.ref := by
      rw [hsecond]
      exact checksOut_namedRef_iff.mpr hresolvable'
    refine ⟨hout, hout', ?_⟩
    intro heq
    rw [hfirst, hsecond, namedRef_of_resolvable hresolvable, namedRef_of_resolvable hresolvable']
    apply storedRef_injective
    rw [hout.1, hout'.1, heq]

end Resolution

/-! ### A release -/

/-- A workflow that runs when a release is published. -/
def releaseEnv : Env where
  webhookSecret := ""
  botUsername := "agent"
  engine := WorkflowEngine.ofConfig
    { workflows := [("announce", { triggers := { events := [.name "release.published"] } })]
      nodup := by decide }
  intOfText := fun _ ↦ none

/-- The release of the tag `v1.0`. -/
def release : Delivery releaseEnv (fun _ ↦ "") where
  req :=
    { eventType := "release"
      signatureValid := true
      data := [("action", .str "published"), ("repository", .obj [("full_name", .str "o/r")]),
        ("release", .obj [("tag_name", .str "v1.0")])] }
  target := .tag "v1.0"
  ref := "v1.0"
  named := .inl ⟨by decide, rfl⟩
  produced := by decide

/-- The tag of a release is looked for among the branches. -/
theorem not_checkedOut :
    ¬ ∀ (env : Env) (other : Json → String) (first second : Delivery env other),
      CheckedOut first second := by
  intro hall
  have hstored := (hall releaseEnv (fun _ ↦ "") release release).1.1
  revert hstored
  decide

end GithubAgent.Worktree
