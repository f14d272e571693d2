import GithubAgent.Queue.Issued
import GithubAgent.Shared.Payload

/-!
# The token of a pulled job

Two services put jobs into the queue, and a reclaimer strips the `github_token` of the jobs it
restores, for `JobProcessor._setup_worktree` to issue a new one from `installation_id`. The
system below is the queue with the producers' own job data. `Texts` says of every text in it,
wherever it is on its way, that a processor finds a token.
-/

namespace GithubAgent.Queue

open GithubAgent.Base GithubAgent.Shared

/-! ### The producers and the reader -/

/-- The locals of `RequestProcessor._execute` that go into the job. -/
structure ExecuteLocals where
  repo : String
  issueNumber : Json
  finalRef : String
  prompt : String
  systemContext : Json
  claudeMd : Json
  memoryIndex : Json
  githubToken : String
  user : String
  workflowName : String
  userQuery : String
  eventData : Payload
  parentSpanId : Json
  contextProfile : Json
  sessionMode : String
  sessionId : Json
  threadType : String
  threadId : String
  conversationConfig : Payload
  conversationSummary : Json
  streamingEnabled : Bool
  sessionToken : Json

/-- The job data of `_execute`; the installation is only in the event data
(`request_processor.py:446-479`). -/
def ExecuteLocals.jobData (l : ExecuteLocals) : Payload :=
  [("repo", .str l.repo), ("issue_number", l.issueNumber), ("ref", .str l.finalRef),
    ("prompt", .str l.prompt), ("system_context", l.systemContext), ("claude_md", l.claudeMd),
    ("memory_index", l.memoryIndex), ("github_token", .str l.githubToken),
    ("user", .str l.user), ("workflow_name", .str l.workflowName),
    ("user_query", .str l.userQuery), ("event_data", .obj l.eventData),
    ("parent_span_id", l.parentSpanId), ("context_profile", l.contextProfile),
    ("session_mode", .str l.sessionMode), ("session_id", l.sessionId),
    ("thread_type", .str l.threadType), ("thread_id", .str l.threadId),
    ("conversation_config", .obj l.conversationConfig),
    ("conversation_summary", l.conversationSummary),
    ("streaming_enabled", .bool l.streamingEnabled), ("session_token", l.sessionToken)]

/-- `int(s) if s.isdigit() else 0`, on ASCII digits. -/
def digitsOrZero (s : String) : Int :=
  if s.toList ≠ [] ∧ s.toList.all Char.isDigit then
    s.toList.foldl (fun n c ↦ 10 * n + (c.toNat - 48 : Nat)) 0
  else 0

/-- `_build_job_data` of the session proxy, on the hash of a session
(`session_proxy/main.py:120-152`). -/
def buildJobData (session : List (String × String)) (content : String)
    (conversationConfig : Payload) (token : String) : Payload :=
  let get (field default : String) := (session.lookup field).getD default
  let issueNumber := digitsOrZero (get "issue_number" "0")
  let sessionId := get "session_id" ""
  [("repo", .str (get "repo" "")), ("issue_number", .int issueNumber),
    ("prompt", .str content), ("user", .str (get "user" "remote-control")),
    ("workflow_name", .str (get "workflow" "generic")), ("ref", .str (get "ref" "main")),
    ("session_mode", .str (if sessionId ≠ "" then "resume" else "new")),
    ("session_id", if sessionId ≠ "" then .str sessionId else .null),
    ("session_token", .str token), ("streaming_enabled", .bool true),
    ("installation_id", .str (get "installation_id" "")),
    ("thread_type", .str (get "thread_type" "issue")),
    ("thread_id", .str (toString issueNumber)),
    ("conversation_config", .obj conversationConfig), ("user_query", .str content),
    ("event_data", .obj [("event_type", .str "remote_control")])]

/-- The token renewal of `_setup_worktree`; `auth` answers with the token for an installation,
or raises (`processor.py:128-146`). -/
def renewToken (auth : Json → Option String) (jobData : Payload) : Payload :=
  let installation := jobData.value "installation_id"
  if installation.truthy then
    match auth installation with
    | some token => jobData.update [("github_token", .str token)]
    | none => jobData
  else jobData

/-- `job_data["github_token"]` after the setup, in `_configure_git` and `_execute_sdk_loop`;
`none` is the `KeyError` (`processor.py:334, 474, 496`). -/
def readToken (auth : Json → Option String) (jobData : Payload) : Option Json :=
  (renewToken auth jobData).lookup "github_token"

/-- A processor that pulls this text finds a token. -/
def authenticated (auth : Json → Option String) (text : JsonText) : Bool :=
  match text.loads with
  | some (.obj jobData) => (readToken auth jobData).isSome
  | _ => false

/-! ### The system of the services -/

/-- The producers' calls, and the other actions of the queue. -/
inductive ServiceAction (C J : Type) where
  | execute (c : C) (j : J) (l : ExecuteLocals)
  | resume (c : C) (j : J) (session : List (String × String)) (content : String)
      (conversationConfig : Payload) (token : String)
  | queue (a : Action C J)

/-- The value names an installation for which a token is issued. -/
def Installed (auth : Json → Option String) (installation : Json) : Prop :=
  installation.truthy = true ∧ (auth installation).isSome = true

instance (auth : Json → Option String) (installation : Json) :
    Decidable (Installed auth installation) := inferInstanceAs (Decidable (_ ∧ _))

section System

variable {C J : Type} [DecidableEq C] [DecidableEq J]

/-- The queue, whose jobs are those of events and sessions with an installation. -/
def services (auth : Json → Option String) (cfg : Config C J) :
    System (State C J) (ServiceAction C J) where
  init s := s = initial
  step s
    | .execute c j l =>
      if Installed auth (l.eventData.value "installation_id") then
        step cfg s (.call c (.create j (.obj l.jobData)))
      else none
    | .resume c j session content conversationConfig token =>
      if Installed auth (.str ((session.lookup "installation_id").getD "")) then
        step cfg s (.call c (.create j (.obj
          (buildJobData session content conversationConfig token))))
      else none
    | .queue (.call _ (.create _ _)) => none
    | .queue a => step cfg s a

/-- The text has the field that the processor issues a token from. -/
def carriesInstallation (text : JsonText) : Bool :=
  match text.loads with
  | some (.obj jobData) => (Payload.value jobData "installation_id").truthy
  | _ => false

/-- A reclaimer restores only jobs with an installation of their own. -/
def restoresInstallation (s : State C J) : ServiceAction C J → Bool
  | .queue (.command c) =>
    match (s.clients c).pc with
    | .reclaim _ j .backup => (readText s.redis.backup s.now j).all carriesInstallation
    | _ => true
  | _ => true

end System

/-! ### The texts on their way -/

section Locals

variable {J : Type}

/-- The text in the locals of `get_next_job`. -/
def NextPc.text : NextPc J → Option JsonText
  | .add _ text | .status _ text | .backup _ text | .started _ text => some text
  | .pop | .data _ | .expired _ | .corrupt _ => none

/-- The texts in the locals of a client that may come to a processor. -/
def Pc.texts : Pc J → List JsonText
  | .create _ (.data jobData) => [.dumps jobData]
  | .next p => p.text.toList
  | .reclaim _ _ (.restore text) => [text]
  | _ => []

theorem nextTurn_texts (f : Frame J) : (nextTurn f).texts = [] := by
  unfold nextTurn
  split <;> rfl

/-- The text `get_next_job` returns is the one in its locals. -/
theorem pulledJob_texts {pc : Pc J} {job : J × JsonText} (h : job ∈ pulledJob pc) :
    job.2 ∈ pc.texts := by
  cases pc with
  | next p =>
    cases p with
    | started i text =>
      rw [List.mem_singleton.mp h]
      exact List.mem_singleton_self _
    | pop | data | expired | corrupt | add | status | backup => cases h
  | idle | create | complete | members | reclaim => cases h

end Locals

section Command

variable {J : Type} [DecidableEq J] {valid : J → Bool} {ttl now : Nat} {r : Redis J} {pc : Pc J}
  {o : Outcome J} {j : J}

theorem cell_setex {V : Type} {m : Keys J V} {i : J} {seconds : Nat} {v : V} {cell : Cell V}
    (h : m.setex now i seconds v j = some cell) : m j = some cell ∨ cell.value = v := by
  by_cases hij : j = i
  · subst hij
    rw [Keys.setex, Function.update_self] at h
    cases h
    exact .inr rfl
  · rw [Keys.setex, Function.update_of_ne hij] at h
    exact .inl h

theorem cell_del {V : Type} {m : Keys J V} {i : J} {cell : Cell V} (h : m.del i j = some cell) :
    m j = some cell := by
  by_cases hij : j = i
  · subst hij
    rw [Keys.del, Function.update_self] at h
    cases h
  · rw [Keys.del, Function.update_of_ne hij] at h
    exact h

/-- A text comes to the data key from the locals of a client. -/
theorem command_data_text {cell : Cell JsonText} (h : command valid ttl now r pc = some o)
    (hcell : o.redis.data j = some cell) : r.data j = some cell ∨ cell.value ∈ pc.texts := by
  cases pc with
  | idle | members => cases h
  | create i p =>
    cases h
    cases p with
    | data jobData =>
      rcases cell_setex hcell with hold | hnew
      · exact .inl hold
      · exact .inr (List.mem_singleton.mpr hnew)
    | status | push => exact .inl hcell
  | complete i label p =>
    cases h
    cases p <;> exact .inl hcell
  | next p =>
    cases h
    cases p with
    | pop =>
      simp only [getNextJob] at hcell
      split at hcell <;> exact .inl hcell
    | data | expired | corrupt | add | status | backup | started => exact .inl hcell
  | reclaim f i p =>
    cases h
    cases p with
    | restore text =>
      rcases cell_setex hcell with hold | hnew
      · exact .inl hold
      · exact .inr (List.mem_singleton.mpr hnew)
    | «exists» | backup | status | push | remove | dropBackup | dropStarted | zombie =>
      exact .inl hcell

/-- A text comes to a backup key from the locals of a client. -/
theorem command_backup_text {cell : Cell JsonText} (h : command valid ttl now r pc = some o)
    (hcell : o.redis.backup j = some cell) : r.backup j = some cell ∨ cell.value ∈ pc.texts := by
  cases pc with
  | idle | members => cases h
  | create i p =>
    cases h
    cases p <;> exact .inl hcell
  | complete i label p =>
    cases h
    cases p with
    | backup => exact .inl (cell_del hcell)
    | result | status | remove | started => exact .inl hcell
  | next p =>
    cases h
    cases p with
    | pop =>
      simp only [getNextJob] at hcell
      split at hcell <;> exact .inl hcell
    | backup i text =>
      rcases cell_setex hcell with hold | hnew
      · exact .inl hold
      · exact .inr (List.mem_singleton.mpr hnew)
    | data | expired | corrupt | add | status | started => exact .inl hcell
  | reclaim f i p =>
    cases h
    cases p with
    | dropBackup => exact .inl (cell_del hcell)
    | «exists» | backup | restore | status | push | remove | dropStarted | zombie =>
      exact .inl hcell

/-- A text comes into the locals of a client from the data key, or as a backup without its
token. -/
theorem command_texts {text : JsonText} (h : command valid ttl now r pc = some o)
    (htext : text ∈ o.pc.texts) :
    text ∈ pc.texts ∨ (∃ j, readText r.data now j = some text) ∨
      ∃ f j backup, pc = .reclaim f j .backup ∧ readText r.backup now j = some backup ∧
        text = restoredText backup := by
  cases pc with
  | idle | members => cases h
  | create i p =>
    cases h
    cases p <;> cases htext
  | complete i label p =>
    cases h
    cases p <;> cases htext
  | next p =>
    cases h
    cases p with
    | pop =>
      simp only [getNextJob] at htext
      split at htext
      · cases htext
      · dsimp only at htext
        split at htext <;> cases htext
    | data i =>
      simp only [getNextJob] at htext
      split at htext
      · cases htext
      · next found hfound =>
        split at htext
        · cases htext
        · rw [List.mem_singleton.mp htext]
          exact .inr (.inl ⟨i, hfound⟩)
    | add | status | backup => exact .inl htext
    | expired | corrupt | started => cases htext
  | reclaim f i p =>
    cases h
    cases p with
    | «exists» =>
      simp only [reclaimStaleJob] at htext
      split at htext
      · rw [nextTurn_texts] at htext
        cases htext
      · cases htext
    | backup =>
      simp only [reclaimStaleJob] at htext
      split at htext
      · next found hfound => exact .inr (.inr ⟨f, i, found, rfl, hfound, List.mem_singleton.mp htext⟩)
      · cases htext
    | dropStarted | zombie =>
      simp only [reclaimStaleJob, nextTurn_texts] at htext
      cases htext
    | restore | status | push | remove | dropBackup => cases htext

end Command

/-! ### What every text carries -/

section Tokens

variable {C J : Type} [DecidableEq C] [DecidableEq J] {auth : Json → Option String}
  {cfg : Config C J} {s s' : State C J}

/-- The text is a dict that has a token or an installation, and every installation it has is
one for which a token is issued. -/
def Carries (auth : Json → Option String) (text : JsonText) : Prop :=
  ∃ jobData : Payload, text.loads = some (.obj jobData) ∧
    ((jobData.lookup "github_token").isSome ∨
      (jobData.value "installation_id").truthy = true) ∧
    ((jobData.value "installation_id").truthy = true →
      (auth (jobData.value "installation_id")).isSome = true)

omit [DecidableEq C] [DecidableEq J] in
/-- What a text carries is enough for a token. -/
theorem Carries.hasToken {text : JsonText} (h : Carries auth text) :
    authenticated auth text = true := by
  obtain ⟨jobData, hloads, hsource, hissued⟩ := h
  unfold authenticated
  rw [hloads]
  show (readToken auth jobData).isSome = true
  unfold readToken renewToken
  by_cases htruthy : (jobData.value "installation_id").truthy = true
  · obtain ⟨token, htoken⟩ := Option.isSome_iff_exists.mp (hissued htruthy)
    simp only [htruthy, if_true, htoken, Payload.lookup_update]
    rfl
  · simp only [htruthy]
    exact hsource.resolve_right htruthy

/-- The job data of an event carry a token. -/
theorem carries_jobData (l : ExecuteLocals) : Carries auth (.dumps (.obj l.jobData)) := by
  refine ⟨l.jobData, rfl, .inl rfl, ?_⟩
  intro htruthy
  cases htruthy

/-- The job data of a session carry its installation. -/
theorem carries_buildJobData {session : List (String × String)}
    (h : Installed auth (.str ((session.lookup "installation_id").getD ""))) (content : String)
    (conversationConfig : Payload) (token : String) :
    Carries auth (.dumps (.obj (buildJobData session content conversationConfig token))) :=
  ⟨buildJobData session content conversationConfig token, rfl, .inr h.1, fun _ ↦ h.2⟩

/-- Deleting a field leaves the other fields. -/
theorem lookup_erase {k other : String} (h : other ≠ k) (fields : Payload) :
    (Json.erase k fields).lookup other = fields.lookup other := by
  induction fields with
  | nil => rfl
  | cons field rest ih =>
    obtain ⟨name, v⟩ := field
    unfold Json.erase at ih ⊢
    by_cases hname : name = k
    · have hbeq : (other == k) = false := by simpa using h
      rw [List.filter_cons_of_neg (by simp [hname]), ih, List.lookup_cons, hname, hbeq]
    · rw [List.filter_cons_of_pos (by simp [hname]), List.lookup_cons, List.lookup_cons, ih]

/-- A restored job still carries its installation. -/
theorem Carries.restored {backup : JsonText} (h : Carries auth backup)
    (hinstallation : carriesInstallation backup = true) : Carries auth (restoredText backup) := by
  obtain ⟨jobData, hloads, _, hissued⟩ := h
  have hfield : (Json.erase "github_token" jobData).lookup "installation_id" =
      jobData.lookup "installation_id" := lookup_erase (by decide) jobData
  have hvalue : Payload.value (Json.erase "github_token" jobData) "installation_id" =
      jobData.value "installation_id" := by
    rw [Payload.value, hfield]
    rfl
  have htruthy : (jobData.value "installation_id").truthy = true := by
    unfold carriesInstallation at hinstallation
    rw [hloads] at hinstallation
    exact hinstallation
  refine ⟨Json.erase "github_token" jobData, ?_, .inr ?_, ?_⟩
  · unfold restoredText
    rw [hloads]
    rfl
  · rw [hvalue]
    exact htruthy
  · rw [hvalue]
    exact hissued

/-- Every text on its way to a processor carries enough for a token. -/
structure Texts (auth : Json → Option String) (s : State C J) : Prop where
  data : ∀ j cell, s.redis.data j = some cell → Carries auth cell.value
  backup : ∀ j cell, s.redis.backup j = some cell → Carries auth cell.value
  locals : ∀ c, ∀ text ∈ (s.clients c).pc.texts, Carries auth text
  jobs : ∀ c, ∀ job ∈ (s.clients c).jobs, Carries auth job.2

omit [DecidableEq J] in
/-- A client that holds no new text. -/
theorem Texts.setClient (h : Texts auth s) {c : C} {cl : Client J} {log : List (Event J)}
    (hlocals : ∀ text ∈ cl.pc.texts, Carries auth text)
    (hjobs : cl.jobs ⊆ (s.clients c).jobs) :
    Texts auth { s.setClient c cl with log := log } := by
  refine ⟨h.data, h.backup, ?_, ?_⟩
  · intro x text hx
    by_cases hxc : x = c
    · subst hxc
      exact hlocals text (by simpa [State.setClient] using hx)
    · exact h.locals x text (by simpa [State.setClient, hxc] using hx)
  · intro x job hx
    by_cases hxc : x = c
    · subst hxc
      exact h.jobs x job (hjobs (by simpa [State.setClient] using hx))
    · exact h.jobs x job (by simpa [State.setClient, hxc] using hx)

omit [DecidableEq C] [DecidableEq J] in
/-- What a read of a key returns is stored under it. -/
theorem exists_cell_of_readText {m : Keys J JsonText} {now : Nat} {j : J} {text : JsonText}
    (h : readText m now j = some text) : ∃ cell, m j = some cell ∧ cell.value = text := by
  obtain ⟨hget, _⟩ := Option.filter_eq_some_iff.mp h
  obtain ⟨deadline, hcell, _⟩ := Keys.get_eq_some.mp hget
  exact ⟨_, hcell, rfl⟩

/-- A command that restores only a job with an installation keeps what the texts carry. -/
theorem Texts.command (h : Texts auth s) {c : C} {o : Outcome J}
    (hok : restoresInstallation s (.queue (.command c)) = true)
    (runs : command cfg.validateJobId (cfg.jobTtl c) s.now s.redis (s.clients c).pc = some o) :
    Texts auth (s.after c o) := by
  refine ⟨?_, ?_, ?_, ?_⟩
  · intro j cell hcell
    rcases command_data_text runs hcell with hold | hnew
    · exact h.data j cell hold
    · exact h.locals c _ hnew
  · intro j cell hcell
    rcases command_backup_text runs hcell with hold | hnew
    · exact h.backup j cell hold
    · exact h.locals c _ hnew
  · intro x text hx
    by_cases hxc : x = c
    · subst hxc
      rcases command_texts runs (by simpa [State.after] using hx) with
        hold | ⟨j, hread⟩ | ⟨f, j, backup, hpc, hread, rfl⟩
      · exact h.locals x text hold
      · obtain ⟨cell, hcell, rfl⟩ := exists_cell_of_readText hread
        exact h.data j cell hcell
      · obtain ⟨cell, hcell, rfl⟩ := exists_cell_of_readText hread
        simp only [restoresInstallation, hpc, hread, Option.all_some] at hok
        exact (h.backup j cell hcell).restored hok
    · exact h.locals x text (by simpa [State.after, hxc] using hx)
  · intro x job hx
    by_cases hxc : x = c
    · subst hxc
      have hmem : job ∈ pulledJob (s.clients x).pc ++ (s.clients x).jobs := by
        simpa [State.after] using hx
      rcases List.mem_append.mp hmem with hpulled | hold
      · exact h.locals x _ (pulledJob_texts hpulled)
      · exact h.jobs x job hold
    · exact h.jobs x job (by simpa [State.after, hxc] using hx)

/-- A created job comes from one of the two services. -/
theorem Texts.create (h : Texts auth s) {c : C} {j : J} {jobData : Json}
    (hcarries : Carries auth (.dumps jobData))
    (hs : step cfg s (.call c (.create j jobData)) = some s') : Texts auth s' := by
  cases step_cases hs with
  | create alive idle fresh valid =>
    refine h.setClient ?_ (List.Subset.refl _)
    intro text htext
    rw [List.mem_singleton.mp htext]
    exact hcarries

/-- The services take the other steps of the queue as they are. -/
theorem services_queue {a : Action C J} (h : (services auth cfg).step s (.queue a) = some s') :
    Stepped cfg s a s' ∧ ∀ c j jobData, a ≠ .call c (.create j jobData) := by
  have hother : ∀ c j jobData, a ≠ .call c (.create j jobData) := by
    rintro c j jobData rfl
    cases h
  have hstep : step cfg s a = some s' := by
    cases a with
    | call c op =>
      cases op with
      | create j jobData => exact absurd rfl (hother c j jobData)
      | next | complete | reclaim => exact h
    | command | scan | error | crash | tick => exact h
  exact ⟨step_cases hstep, hother⟩

/-- No step of the services breaks what the texts carry while reclaimers restore only jobs with
an installation. -/
theorem Texts.step (h : Texts auth s) {a : ServiceAction C J}
    (hok : restoresInstallation s a = true) (hs : (services auth cfg).step s a = some s') :
    Texts auth s' := by
  have hnone {cl : Client J} (hpc : cl.pc.texts = []) :
      ∀ text ∈ cl.pc.texts, Carries auth text := by
    intro text htext
    rw [hpc] at htext
    cases htext
  cases a with
  | execute c j l =>
    simp only [services] at hs
    split at hs
    · exact h.create (carries_jobData l) hs
    · cases hs
  | resume c j session content conversationConfig token =>
    simp only [services] at hs
    split at hs
    · next hinstalled => exact h.create (carries_buildJobData hinstalled _ _ _) hs
    · cases hs
  | queue a =>
    obtain ⟨hstep, hother⟩ := services_queue hs
    cases hstep with
    | create => exact absurd rfl (hother _ _ _)
    | next | reclaim => exact h.setClient (hnone rfl) (List.Subset.refl _)
    | complete => exact h.setClient (hnone rfl) (fun _ hx ↦ List.mem_of_mem_filter hx)
    | command alive runs => exact h.command hok runs
    | scan => exact h.setClient (hnone (nextTurn_texts _)) (List.Subset.refl _)
    | error alive raises =>
      refine h.setClient (hnone ?_) (List.Subset.refl _)
      rcases afterError_cases raises with rfl | ⟨f, j, p, _, rfl⟩
      · rfl
      · exact nextTurn_texts f
    | @crash c alive => exact h.setClient (h.locals c) (List.Subset.refl _)
    | tick => exact ⟨h.data, h.backup, h.locals, h.jobs⟩

/-- While reclaimers restore only jobs with an installation of their own, every processor that
pulls a job finds a token. -/
theorem authenticated_of_restoresInstallation
    (h : (services auth cfg).ReachWhen (fun s a ↦ restoresInstallation s a = true) s) {c : C}
    {job : J × JsonText} (hjob : job ∈ (s.clients c).jobs) : authenticated auth job.2 = true := by
  have htexts : Texts auth s := by
    refine h.invariant ?_ ?_
    · rintro _ rfl
      refine ⟨?_, ?_, ?_, ?_⟩
      · intro j cell hcell
        cases hcell
      · intro j cell hcell
        cases hcell
      · intro c text htext
        cases htext
      · intro c job hjob
        cases hjob
    · intro t a t' ht hok hs
      exact ht.step hok hs
  exact (htexts.jobs c job hjob).hasToken

end Tokens

/-! ### Two reclaimed jobs -/

/-- A token for every installation. -/
def issueToken (_ : Json) : Option String := some "token"

/-- From the creation of job 7 on: it is pulled, its processor crashes, the data expire, and a
second worker reclaims and pulls it. -/
def reclaimedOnce : List (ServiceAction (Fin 2) Nat) :=
  List.map .queue
    ([.command 0, .command 0, .command 0, .call 0 .next] ++ List.replicate 6 (.command 0) ++
      [.crash 0, .tick 3600000, .call 1 .reclaim, .scan 1 [7]] ++ List.replicate 8 (.command 1) ++
      [.call 1 .next] ++ List.replicate 6 (.command 1))

/-- The locals of `_execute` for an event of installation 12. -/
def locals12 : ExecuteLocals where
  repo := "octo/repo"
  issueNumber := .int 7
  finalRef := "main"
  prompt := ""
  systemContext := .null
  claudeMd := .null
  memoryIndex := .null
  githubToken := "first"
  user := "octo"
  workflowName := "triage"
  userQuery := ""
  eventData := [("event_type", .str "issues"), ("installation_id", .str "12")]
  parentSpanId := .null
  contextProfile := .null
  sessionMode := "new"
  sessionId := .null
  threadType := "issue"
  threadId := "7"
  conversationConfig := []
  conversationSummary := .null
  streamingEnabled := false
  sessionToken := .null

/-- A job of the session proxy is reclaimed and pulled again. -/
theorem authenticated_of_restoresInstallation_resume :
    ∃ s : State (Fin 2) Nat, ∃ job ∈ (s.clients 1).jobs, authenticated issueToken job.2 = true := by
  obtain ⟨s, hs, hjobs⟩ := System.exists_reachWhen
    (services issueToken (⟨fun _ ↦ 3600, fun _ ↦ true⟩ : Config (Fin 2) Nat))
    (fun s a ↦ restoresInstallation s a = true) (fun s ↦ (s.clients 1).jobs.isEmpty = false)
    (.resume 0 7 [("installation_id", "12")] "" [] "" :: reclaimedOnce) rfl (by decide)
  obtain ⟨job, hjob⟩ := List.exists_mem_of_ne_nil (s.clients 1).jobs (by
    intro hnil
    rw [hnil] at hjobs
    cases hjobs)
  exact ⟨s, job, hjob, authenticated_of_restoresInstallation hs hjob⟩

/-- A job of the agent worker that is reclaimed and pulled again has no token. -/
theorem not_authenticated :
    ¬ ∀ (s : State (Fin 2) Nat) c job,
      (services issueToken ⟨fun _ ↦ 3600, fun _ ↦ true⟩).Reach s → job ∈ (s.clients c).jobs →
      authenticated issueToken job.2 = true := by
  intro hall
  obtain ⟨s, hs, hjobs⟩ := System.exists_reachWhen
    (services issueToken (⟨fun _ ↦ 3600, fun _ ↦ true⟩ : Config (Fin 2) Nat)) System.always
    (fun s ↦ (s.clients 1).jobs.any (fun job ↦ !authenticated issueToken job.2) = true)
    (.execute 0 7 locals12 :: reclaimedOnce) rfl (by decide)
  obtain ⟨job, hjob, hnot⟩ := List.any_eq_true.mp hjobs
  rw [hall s 1 job hs hjob] at hnot
  cases hnot

end GithubAgent.Queue
