import GithubAgent.Session.Complete
import Mathlib

/-!
# Closed threads

When a thread is closed, the sandbox worker cuts the expiry of its sessions to
`CLOSED_SESSION_TTL_HOURS`. The expiry is written again by a job that ends, by an invocation that
reuses the streaming session, by a message that continues or resumes it, and all of them but the
end of a job know nothing of the thread's state; the job knows the one of the event that made it.
-/

namespace GithubAgent.Session.Threads

open GithubAgent.Base GithubAgent.Shared Records

/-- `CLOSED_SESSION_TTL_HOURS` (`constants.py:26`). -/
def closedSessionTtlHours : Nat := 72

/-- A thread of a repository, and the configured `DEFAULT_SESSION_TTL_HOURS`, which is also
`REVIVED_SESSION_TTL_HOURS` and `FALLBACK_CONVERSATION_TTL_HOURS` (`constants.py:22-33`). -/
structure Thread where
  repo : String
  threadType : ThreadType
  number : Nat
  defaultSessionTtlHours : Nat

/-- The key of the thread's conversation in a workflow. -/
def Thread.key (thread : Thread) (workflow : String) : WorktreeKey :=
  ⟨thread.repo, thread.threadType, toString thread.number, workflow⟩

/-- What a job keeps: the workflow, the token of the streaming session, the state of the thread at
the event, and the `ttl_hours` and `persist` of its conversation config. -/
structure ThreadJob where
  workflow : String
  sessionToken : Option String
  issueState : String
  ttlHours : Option Nat
  persist : Bool

/-- A cleanup message that is being processed: the workflows of the sessions that were listed and
are still to be treated, and, of an `expire_thread`, whether a later `revive_thread` has come. -/
structure Cleaning where
  revive : Bool
  remaining : List String
  overtaken : Bool

/-- The records; the thread's state at GitHub; queued events with workflow and captured state;
queued cleanup messages, `true` for `revive_thread`; those in process; the jobs so far, the tokens
that they have had and the workflows of the sessions they have saved; and whether the last cleanup
message processed was an `expire_thread`. -/
structure ThreadState where
  records : Records
  now : Nat
  isOpen : Bool
  events : List (String × String)
  cleanups : List Bool
  cleaning : List Cleaning
  jobs : List ThreadJob
  tokens : List String
  saved : List String
  closed : Bool

/-- What the webhook, the workers, the browsers and the clock do. -/
inductive ThreadAction where
  | trigger (workflow : String) (carriesState : Bool)
  | close
  | reopen
  | start (i : Nat) (ttlHours : Nat) (persist streaming : Bool) (newToken : String)
  | autoContinue (i : Nat)
  | setCompleted (i : Nat) (isError : Bool) (sessionId : Option String)
  | saveSession (i : Nat) (sessionId : String) (numTurns : Int) (worktreePath ref time : String)
  | updateSessionId (i : Nat) (sessionId : String)
  | updateTranscriptPath (i : Nat) (path : String)
  | resume (token : String) (ttlHours : Option Nat) (persist : Bool)
  | rehydrate (workflow : String) (ttlHours : Option Nat) (persist : Bool) (newToken : String)
  | rehydrated (i : Nat)
  | popCleanup
  | cleanNext (i : Nat)
  | cleaned (i : Nat)
  | tick (milliseconds : Nat)

namespace ThreadState

variable (thread : Thread) (s : ThreadState)

/-- A new token (`uuid4`). -/
def fresh (token : String) : Bool := token ≠ "" ∧ token ∉ s.tokens

/-- A new job, after writes. -/
def withJob (records : Records) (job : ThreadJob) : ThreadState :=
  { s with
    records := records
    jobs := s.jobs ++ [job]
    tokens := job.sessionToken.toList ++ s.tokens }

/-- A step of a job on its streaming session, if it has one. -/
def onToken (i : Nat) (f : String → Records) : Option ThreadState :=
  (s.jobs[i]?.bind (·.sessionToken)).map fun token ↦ { s with records := f token }

/-- `RequestProcessor._execute`, from the streaming session to the job
(`request_processor.py:350-479`). -/
def start (workflow issueState : String) (ttlHours : Nat) (persist streaming : Bool)
    (newToken : String) : Option ThreadState :=
  let job token : ThreadJob := ⟨workflow, token, issueState, some ttlHours, persist⟩
  let ttlSeconds := ttlHours * 3600
  if streaming then
    match s.records.findSession s.now (thread.key workflow) with
    | (some token, records) =>
      some (s.withJob (records.setRunning s.now token ttlSeconds) (job (some token)))
    | (none, records) =>
      if s.fresh newToken then
        some (s.withJob
          (records.createSession s.now newToken (thread.key workflow) { ttlSeconds := ttlSeconds })
          (job (some newToken)))
      else none
  else some (s.withJob s.records (job none))

/-- The hours for which a job saves its session (`processor.py:783-792`). -/
def savedTtlHours (job : ThreadJob) : Nat :=
  if job.issueState = "closed" then closedSessionTtlHours
  else job.ttlHours.getD thread.defaultSessionTtlHours

/-- The first part of `_save_session` (`processor.py:775-817`). -/
def saveSession (job : ThreadJob) (sessionId : String) (numTurns : Int)
    (worktreePath ref time : String) : ThreadState :=
  if sessionId ≠ "" ∧ job.persist then
    { s with
      records := s.records.saveSession s.now (thread.key job.workflow)
        { sessionId := sessionId
          worktreePath := worktreePath
          ref := ref
          turnCount := numTurns
          summary := none
          ttlHours := savedTtlHours thread job
          streamingToken := job.sessionToken } time
      saved := job.workflow :: s.saved }
  else s

/-- The job that `_build_job_data` makes of a streaming session of the thread; its event data has
no `issue_state` (`session_proxy/main.py:120-153`). -/
def resumeJob (session : Hash) (token : String) (ttlHours : Option Nat) (persist : Bool) :
    Option ThreadJob :=
  if session "repo" = some thread.repo ∧ session "issue_number" = some (toString thread.number) ∧
      session "thread_type" = some thread.threadType.value then
    some ⟨(session "workflow").getD "generic", some token, "open", ttlHours, persist⟩
  else none

/-- `_handle_resume_message`, after a message to a session that is not running
(`session_proxy/main.py:189-249`). -/
def resume (token : String) (ttlHours : Option Nat) (persist : Bool) : Option ThreadState :=
  (s.records.streams.get s.now token).bind fun session ↦
    if session "status" = some "completed" ∨ session "status" = some "error" then
      let ttlSeconds := ttlHours.getD thread.defaultSessionTtlHours * 3600
      let records := (s.records.setRunning s.now token ttlSeconds).incrementRunCount s.now token
      match resumeJob thread session token ttlHours persist with
      | some job => some (s.withJob records job)
      | none => some { s with records := records }
    else none

/-- `_rehydrate_transcript_session`, up to the job (`session_proxy/main.py:733-762`). -/
def rehydrate (workflow : String) (ttlHours : Option Nat) (persist : Bool) (newToken : String) :
    Option ThreadState :=
  if s.fresh newToken then
    some (s.withJob
      (s.records.createSession s.now newToken (thread.key workflow)
        { ttlSeconds := thread.defaultSessionTtlHours * 3600 })
      ⟨workflow, some newToken, "open", ttlHours, persist⟩)
  else none

/-- The workflows of the sessions of the thread that `list_sessions` finds. -/
def listSessions : List String :=
  s.saved.filter fun workflow ↦ (s.records.getSession s.now (thread.key workflow)).isSome

/-- A worker takes a cleanup message and lists the sessions (`sandbox_worker.py:64-70, 101-131`). -/
def popCleanup : Option ThreadState :=
  match s.cleanups with
  | [] => none
  | false :: rest =>
    some { s with
      cleanups := rest
      cleaning := s.cleaning ++ [⟨false, s.listSessions thread, false⟩] }
  | true :: rest =>
    some { s with
      cleanups := rest
      cleaning := s.cleaning.map (fun p ↦ { p with overtaken := true }) ++
        [⟨true, s.listSessions thread, false⟩]
      closed := false }

/-- The hours a cleanup message gives to a session. -/
def cleaningTtlHours (revive : Bool) : Nat :=
  if revive then thread.defaultSessionTtlHours else closedSessionTtlHours

/-- The next session of a cleanup message (`sandbox_worker.py:111-118`, `:132-139`). -/
def cleanNext (i : Nat) : Option ThreadState :=
  s.cleaning[i]?.bind fun p ↦
    match p.remaining with
    | [] => none
    | workflow :: rest =>
      some { s with
        records := s.records.expireSession s.now (thread.key workflow)
          (cleaningTtlHours thread p.revive)
        cleaning := s.cleaning.set i { p with remaining := rest } }

/-- The end of a cleanup message. -/
def cleaned (i : Nat) : Option ThreadState :=
  s.cleaning[i]?.bind fun p ↦
    if p.remaining = [] then
      some { s with
        cleaning := s.cleaning.eraseIdx i
        closed := s.closed || !p.revive && !p.overtaken }
    else none

end ThreadState

open ThreadState

/-- The thread. Closing and reopening a discussion queues no cleanup message
(`webhook/main.py:106`); an event whose payload has no thread counts as of an open one. -/
def lifecycle (thread : Thread) : System ThreadState ThreadAction where
  init s := s.records = .empty ∧ s.cleaning = [] ∧ s.jobs = [] ∧ s.tokens = [] ∧ s.saved = [] ∧
    s.closed = false
  step s
    | .trigger workflow carriesState =>
      let issueState := if carriesState && !s.isOpen then "closed" else "open"
      some { s with events := s.events ++ [(workflow, issueState)] }
    | .close =>
      some { s with
        isOpen := false
        cleanups := if thread.threadType = .discussion then s.cleanups else s.cleanups ++ [false] }
    | .reopen =>
      some { s with
        isOpen := true
        cleanups := if thread.threadType = .discussion then s.cleanups else s.cleanups ++ [true] }
    | .start i ttlHours persist streaming newToken =>
      s.events[i]?.bind fun event ↦
        { s with events := s.events.eraseIdx i }.start thread event.1 event.2 ttlHours persist
          streaming newToken
    | .autoContinue i =>
      s.onToken i fun token ↦
        s.records.setRunning s.now token (thread.defaultSessionTtlHours * 3600)
    | .setCompleted i isError sessionId =>
      s.onToken i fun token ↦ s.records.setCompleted s.now token isError sessionId
    | .saveSession i sessionId numTurns worktreePath ref time =>
      s.jobs[i]?.map fun job ↦ s.saveSession thread job sessionId numTurns worktreePath ref time
    | .updateSessionId i sessionId =>
      s.onToken i fun token ↦ s.records.updateSessionId s.now token sessionId
    | .updateTranscriptPath i path =>
      s.onToken i fun token ↦ s.records.updateTranscriptPath s.now token path
    | .resume token ttlHours persist => s.resume thread token ttlHours persist
    | .rehydrate workflow ttlHours persist newToken =>
      s.rehydrate thread workflow ttlHours persist newToken
    | .rehydrated i =>
      s.onToken i fun token ↦
        (s.records.setRunning s.now token (thread.defaultSessionTtlHours * 3600)).incrementRunCount
          s.now token
    | .popCleanup => s.popCleanup thread
    | .cleanNext i => s.cleanNext thread i
    | .cleaned i => s.cleaned i
    | .tick milliseconds => some { s with now := s.now + milliseconds }

/-! ### The law -/

/-- The remaining time of a key that exists is at most `CLOSED_SESSION_TTL_HOURS`. -/
def Within {V : Type} (m : Keys String V) (now : Nat) (k : String) : Prop :=
  ∀ cell, m k = some cell → cell.live now = true →
    ∃ d, cell.deadline = some d ∧ d ≤ now + 1000 * (closedSessionTtlHours * 3600)

/-- The session record of a conversation, and the streaming session it names, end soon. -/
structure EndsSoon (r : Records) (now : Nat) (key : WorktreeKey) : Prop where
  session : Within r.sessions now (sessionKeyOf key)
  stream : ∀ t, r.streamingTokenOf now key = some t → Within r.streams now t

/-- After an `expire_thread` has been processed, and until a later `revive_thread` is, everything
of the thread ends soon. -/
def StaysClosed (thread : Thread) (s : ThreadState) : Prop :=
  s.closed = true → ∀ workflow, EndsSoon s.records s.now (thread.key workflow)

/-- An `expire_thread` without a later `revive_thread` has treated the workflow. -/
def InForce (s : ThreadState) (workflow : String) : Prop :=
  s.closed = true ∨ ∃ p ∈ s.cleaning, p.revive = false ∧ p.overtaken = false ∧
    workflow ∉ p.remaining

/-- A session record that has been treated names the token. -/
def Named (thread : Thread) (s : ThreadState) (token : String) : Prop :=
  ∃ workflow, InForce s workflow ∧
    s.records.streamingTokenOf s.now (thread.key workflow) = some token

/-- The token of a job. -/
def ThreadState.tokenOf (s : ThreadState) (i : Nat) : Option String :=
  s.jobs[i]?.bind (·.sessionToken)

/-- No one gives more hours than those of a closed thread to what an `expire_thread` has treated:
an end of a job writes few hours and names a streaming session that ends soon; a streaming session
that is named is continued, resumed or reused for few hours, and updated only while it exists; and
no `revive_thread` that came before the `expire_thread` goes on after it. -/
def LeavesClosed (thread : Thread) (s : ThreadState) : ThreadAction → Prop
  | .start i ttlHours _ streaming _ => ∀ event token, s.events[i]? = some event →
      streaming = true → (s.records.findSession s.now (thread.key event.1)).1 = some token →
      Named thread s token → ttlHours ≤ closedSessionTtlHours
  | .autoContinue i => ∀ token, s.tokenOf i = some token → Named thread s token →
      thread.defaultSessionTtlHours ≤ closedSessionTtlHours
  | .rehydrated i => ∀ token, s.tokenOf i = some token → Named thread s token →
      0 < thread.defaultSessionTtlHours ∧ thread.defaultSessionTtlHours ≤ closedSessionTtlHours
  | .resume token ttlHours _ => Named thread s token →
      0 < ttlHours.getD thread.defaultSessionTtlHours ∧
        ttlHours.getD thread.defaultSessionTtlHours ≤ closedSessionTtlHours
  | .setCompleted i _ _ | .updateSessionId i _ | .updateTranscriptPath i _ =>
      ∀ token, s.tokenOf i = some token → Named thread s token →
        s.records.streams.has s.now token = true
  | .saveSession i sessionId _ _ _ _ => ∀ job, s.jobs[i]? = some job → sessionId ≠ "" →
      job.persist = true → InForce s job.workflow →
      savedTtlHours thread job ≤ closedSessionTtlHours ∧
        ∀ token, job.sessionToken = some token → Within s.records.streams s.now token
  | .cleanNext i => ∀ p workflow rest, s.cleaning[i]? = some p → p.remaining = workflow :: rest →
      p.revive = true → (InForce s workflow ∨ ∃ token,
        s.records.streamingTokenOf s.now (thread.key workflow) = some token ∧
          Named thread s token) → thread.defaultSessionTtlHours ≤ closedSessionTtlHours
  | _ => True

/-! ### Expiry times -/

section Within

variable {V : Type} {m : Keys String V} {now : Nat} {k : String}

theorem within_of_get_eq_none (h : m.get now k = none) : Within m now k := by
  intro cell hcell hlive
  rw [Keys.get_eq_some.mpr ⟨cell.deadline, hcell, hlive⟩] at h
  cases h

theorem Within.congr {m' : Keys String V} (h : Within m now k) (heq : m' k = m k) :
    Within m' now k :=
  fun cell hcell ↦ h cell (heq ▸ hcell)

theorem Within.later {later : Nat} (h : Within m now k) (hle : now ≤ later) :
    Within m later k := by
  intro cell hcell hlive
  obtain ⟨d, hd, hbound⟩ := h cell hcell (Cell.live_of_le hle hlive)
  exact ⟨d, hd, hbound.trans (Nat.add_le_add_right hle _)⟩

theorem within_setex {ttlHours : Nat} (h : ttlHours ≤ closedSessionTtlHours) (v : V) :
    Within (m.setex now k (ttlHours * 3600) v) now k := by
  intro cell hcell _
  rw [Keys.setex_apply_self, Option.some.injEq] at hcell
  subst hcell
  exact ⟨_, rfl, Nat.add_le_add_left (Nat.mul_le_mul_left 1000 (Nat.mul_le_mul_right 3600 h)) now⟩

theorem within_expire {ttlHours : Nat} (h : ttlHours ≤ closedSessionTtlHours) :
    Within (m.expire now k (ttlHours * 3600)) now k := by
  cases hget : m.get now k with
  | none =>
    rw [Keys.expire_of_none hget]
    exact within_of_get_eq_none hget
  | some v =>
    rw [Keys.expire_of_some hget]
    exact within_setex h v

/-- A write into a key that exists keeps its expiry. -/
theorem Within.modify (h : Within m now k) (hhas : m.has now k = true) (f : Option V → V) :
    Within (m.modify now k f) now k := by
  intro cell hcell _
  obtain ⟨v, hv⟩ := Option.isSome_iff_exists.mp hhas
  obtain ⟨d, hk, hlive⟩ := Keys.get_eq_some.mp hv
  rw [Keys.modify_apply_self, hhas, hk, if_pos rfl, Option.some.injEq] at hcell
  subst hcell
  have hwithin := h _ hk hlive
  exact hwithin

end Within

/-! ### Session records -/

section Sessions

variable {thread : Thread} {r : Records} {now : Nat} {w : String} {h : Hash}

theorem sessionKeyOf_injective (thread : Thread) :
    Function.Injective fun workflow ↦ sessionKeyOf (thread.key workflow) := by
  intro w w' heq
  exact (String.append_right_inj _).mp heq

theorem sessionKeyOf_ne {w w' : String} (hne : w ≠ w') :
    sessionKeyOf (thread.key w) ≠ sessionKeyOf (thread.key w') :=
  fun heq ↦ hne (sessionKeyOf_injective thread heq)

/-- A record as `save_session` leaves it. -/
structure Sound (thread : Thread) (h : Hash) : Prop where
  whole : Hash.Whole sessionFields h
  threadType : h "thread_type" = some thread.threadType.value
  status : h "status" = some "active"
  turns : ∀ text, h "turn_count" = some text → ∃ n : Int, text = toString n

/-- Such a record can be read, with the token that it holds. -/
theorem Sound.validate (hsound : Sound thread h) :
    ∃ info, Records.validate h = some info ∧ info.streamingToken = h "streaming_token" := by
  have hfield (field : String) (hmem : field ∈ sessionFields) : ∃ text, h field = some text :=
    Option.isSome_iff_exists.mp (hsound.whole field hmem)
  obtain ⟨sessionId, hsessionId⟩ := hfield "session_id" (by decide)
  obtain ⟨repo, hrepo⟩ := hfield "repo" (by decide)
  obtain ⟨threadId, hthreadId⟩ := hfield "thread_id" (by decide)
  obtain ⟨workflow, hworkflow⟩ := hfield "workflow_name" (by decide)
  obtain ⟨ref, href⟩ := hfield "ref" (by decide)
  obtain ⟨worktreePath, hworktreePath⟩ := hfield "worktree_path" (by decide)
  obtain ⟨createdAt, hcreatedAt⟩ := hfield "created_at" (by decide)
  obtain ⟨lastRun, hlastRun⟩ := hfield "last_run" (by decide)
  have hturns : h "turn_count" = none ∨ ∃ n : Int, h "turn_count" = some n.repr := by
    cases hcount : h "turn_count" with
    | none => exact .inl rfl
    | some text =>
      obtain ⟨n, rfl⟩ := hsound.turns text hcount
      exact .inr ⟨n, rfl⟩
  unfold Records.validate
  rcases hturns with hturns | ⟨n, hturns⟩ <;> cases htype : thread.threadType <;>
    simp [hsessionId, hrepo, hthreadId, hworkflow, href, hworktreePath, hcreatedAt, hlastRun,
      hturns, hsound.status, hsound.threadType, htype, ThreadType.value, Int.toInt?_repr]

theorem streamingTokenOf_eq_some {key : WorktreeKey} {t : String}
    (htoken : r.streamingTokenOf now key = some t) :
    ∃ h, r.sessions.get now (sessionKeyOf key) = some h ∧ (Records.validate h).isSome := by
  unfold streamingTokenOf getSession at htoken
  cases hget : r.sessions.get now (sessionKeyOf key) with
  | none => simp [hget] at htoken
  | some h =>
    cases hvalid : Records.validate h with
    | none => simp [hget, hvalid] at htoken
    | some info => exact ⟨h, rfl, by simp [hvalid]⟩

/-- The token of a record that can be read. -/
theorem Sound.streamingTokenOf (hsound : Sound thread h) {key : WorktreeKey}
    (hget : r.sessions.get now (sessionKeyOf key) = some h) :
    r.streamingTokenOf now key = (h "streaming_token").filter (· ≠ "") := by
  obtain ⟨info, hinfo, htoken⟩ := hsound.validate
  simp [Records.streamingTokenOf, getSession, hget, hinfo, htoken]

end Sessions

/-! ### The end of a job -/

section Save

variable {thread : Thread} {w : String}

theorem hsetGiven_of_ne {h : Hash} {field other : String} (hne : other ≠ field)
    (value : Option String) : h.hsetGiven field value other = h other := by
  cases value with
  | none => rfl
  | some value => exact Function.update_of_ne hne _ _

theorem hsetGiven_self (h : Hash) (field : String) (value : Option String) :
    h.hsetGiven field value field = value.or (h field) := by
  cases value with
  | none => rfl
  | some value => exact Function.update_self _ _ _

theorem savedFields_threadType (thread : Thread) (w : String) (saved : SavedSession)
    (time : String) (stored : Hash) :
    savedFields (thread.key w) saved time stored "thread_type" =
      some thread.threadType.value := by
  unfold savedFields Hash.hsetnx
  split <;> simp [Hash.hsetAll, Hash.hset, Thread.key]

theorem savedFields_status (thread : Thread) (w : String) (saved : SavedSession)
    (time : String) (stored : Hash) :
    savedFields (thread.key w) saved time stored "status" = some "active" := by
  unfold savedFields Hash.hsetnx
  split <;> simp [Hash.hsetAll, Hash.hset]

/-- The counter of a sound record, or of none, can be read. -/
theorem integer_turnCount {h : Hash}
    (hturns : ∀ text, h "turn_count" = some text → ∃ n : Int, text = toString n) :
    ∃ n, h.integer "turn_count" = some n := by
  unfold Hash.integer
  cases hcount : h "turn_count" with
  | none => exact ⟨0, rfl⟩
  | some text =>
    obtain ⟨n, rfl⟩ := hturns text hcount
    exact ⟨n, by simp⟩

/-- What `save_session` leaves of nothing, or of a sound record, is sound, and names the token
that it was given or else the one that the record named. -/
theorem savedRest_sound {stored : Option Hash} (hstored : ∀ h, stored = some h → Sound thread h)
    (saved : SavedSession) (time : String) :
    ∃ h, savedRest saved (savedFields (thread.key w) saved time (stored.getD .empty)) = some h ∧
      Sound thread h ∧
      h "streaming_token" = saved.streamingToken.or (stored.bind (· "streaming_token")) := by
  have hwhole := savedFields_whole (thread.key w) saved time (stored.getD .empty)
  have htype := savedFields_threadType thread w saved time (stored.getD .empty)
  have hstatus := savedFields_status thread w saved time (stored.getD .empty)
  have hother {field : String} (hfield : field ∉ sessionFields) :=
    savedFields_apply_of_not_mem hfield (thread.key w) saved time (stored.getD .empty)
  have hturns := hother (by decide : "turn_count" ∉ sessionFields)
  have htoken := hother (by decide : "streaming_token" ∉ sessionFields)
  generalize savedFields (thread.key w) saved time (stored.getD .empty) = fields at *
  have hcanonical : ∀ text, fields "turn_count" = some text → ∃ n : Int, text = toString n := by
    intro text htext
    rw [hturns] at htext
    cases stored with
    | none => simp [Hash.empty] at htext
    | some h => exact (hstored h rfl).turns text htext
  have hcounted : ∃ counted,
      (if saved.turnCount = 0 then some fields else fields.hincrby "turn_count" saved.turnCount) =
        some counted ∧ Hash.Grows fields counted ∧
      (∀ field ≠ "turn_count", counted field = fields field) ∧
      ∀ text, counted "turn_count" = some text → ∃ n : Int, text = toString n := by
    split
    · exact ⟨fields, rfl, .refl fields, fun _ _ ↦ rfl, hcanonical⟩
    · obtain ⟨n, hn⟩ := integer_turnCount hcanonical
      refine ⟨_, by rw [Hash.hincrby, hn]; rfl, Hash.grows_hset _ _ _,
        fun field hne ↦ Function.update_of_ne hne _ _, ?_⟩
      intro text htext
      rw [Hash.hset, Function.update_self, Option.some.injEq] at htext
      exact ⟨_, htext.symm⟩
  obtain ⟨counted, hcounted, hgrows, hsame, hcount⟩ := hcounted
  have hplain {field : String} (hsummary : field ≠ "summary") (htoken : field ≠ "streaming_token") :
      (counted.hsetGiven "summary" saved.summary).hsetGiven "streaming_token"
        saved.streamingToken field = counted field := by
    rw [hsetGiven_of_ne htoken, hsetGiven_of_ne hsummary]
  refine ⟨(counted.hsetGiven "summary" saved.summary).hsetGiven "streaming_token"
    saved.streamingToken, by rw [savedRest, hcounted]; rfl, ⟨?_, ?_, ?_, ?_⟩, ?_⟩
  · exact ((hgrows.trans (Hash.grows_hsetGiven _ _ _)).trans (Hash.grows_hsetGiven _ _ _)).whole hwhole
  · rw [hplain (by decide) (by decide), hsame _ (by decide), htype]
  · rw [hplain (by decide) (by decide), hsame _ (by decide), hstatus]
  · intro text htext
    rw [hplain (by decide) (by decide)] at htext
    exact hcount text htext
  · rw [hsetGiven_self, hsetGiven_of_ne (by decide), hsame _ (by decide), htoken]
    cases stored <;> rfl

end Save

/-! ### The invariant -/

/-- What has been treated ends soon; and every record of the thread is sound, is found by the next
cleanup message, and names a token that was created for the thread. -/
structure Held (thread : Thread) (s : ThreadState) : Prop where
  endsSoon : ∀ w, InForce s w → EndsSoon s.records s.now (thread.key w)
  sound : ∀ w h, s.records.sessions.get s.now (sessionKeyOf (thread.key w)) = some h →
    Sound thread h
  listed : ∀ w, s.records.sessions.has s.now (sessionKeyOf (thread.key w)) = true → w ∈ s.saved
  issued : ∀ job ∈ s.jobs, ∀ t, job.sessionToken = some t → t ∈ s.tokens
  named : ∀ w t, s.records.streamingTokenOf s.now (thread.key w) = some t → t ∈ s.tokens

section Step

variable {thread : Thread} {s s' : ThreadState} {r r' : Records} {now : Nat} {t : String}

/-- A token that is read later, or after records have gone, was read before. -/
theorem streamingTokenOf_mono {later : Nat} {key : WorktreeKey}
    (hsessions : ∀ h, r'.sessions.get later (sessionKeyOf key) = some h →
      r.sessions.get now (sessionKeyOf key) = some h)
    (htoken : r'.streamingTokenOf later key = some t) : r.streamingTokenOf now key = some t := by
  obtain ⟨h, hget, -⟩ := streamingTokenOf_eq_some htoken
  unfold streamingTokenOf getSession at htoken ⊢
  rwa [hget, ← hsessions h hget] at htoken

theorem streamingTokenOf_congr {key : WorktreeKey} (hsessions : r'.sessions = r.sessions) :
    r'.streamingTokenOf now key = r.streamingTokenOf now key := by
  simp only [streamingTokenOf, getSession, hsessions]

/-- A step that writes no session record. -/
theorem Held.step_of_le (h : Held thread s) (hsaved : s'.saved = s.saved)
    (htokens : ∀ t ∈ s.tokens, t ∈ s'.tokens)
    (hissued : ∀ job ∈ s'.jobs, ∀ t, job.sessionToken = some t → t ∈ s'.tokens)
    (hsessions : ∀ w value, s'.records.sessions.get s'.now (sessionKeyOf (thread.key w)) =
      some value → s.records.sessions.get s.now (sessionKeyOf (thread.key w)) = some value)
    (hends : ∀ w, InForce s' w → EndsSoon s'.records s'.now (thread.key w)) : Held thread s' where
  endsSoon := hends
  sound w value hget := h.sound w value (hsessions w value hget)
  listed w hhas := by
    obtain ⟨value, hvalue⟩ := Option.isSome_iff_exists.mp hhas
    rw [hsaved]
    exact h.listed w (by simp [Keys.has, hsessions w value hvalue])
  issued := hissued
  named w t htoken := htokens t (h.named w t (streamingTokenOf_mono (hsessions w) htoken))

/-- A step that writes only streaming sessions. -/
theorem Held.step_streams (h : Held thread s) (hnow : s'.now = s.now) (hsaved : s'.saved = s.saved)
    (htokens : ∀ t ∈ s.tokens, t ∈ s'.tokens)
    (hissued : ∀ job ∈ s'.jobs, ∀ t, job.sessionToken = some t → t ∈ s'.tokens)
    (hforce : ∀ w, InForce s' w → InForce s w)
    (hsessions : s'.records.sessions = s.records.sessions)
    (hstreams : ∀ t, Named thread s t → Within s'.records.streams s.now t) : Held thread s' := by
  refine h.step_of_le hsaved htokens hissued (fun w value hget ↦ by rwa [hsessions, hnow] at hget) ?_
  intro w hw
  rw [hnow]
  refine ⟨((h.endsSoon w (hforce w hw)).session).congr (by rw [hsessions]), fun t htoken ↦ ?_⟩
  rw [streamingTokenOf_congr hsessions] at htoken
  exact hstreams t ⟨w, hforce w hw, htoken⟩

theorem Held.within (h : Held thread s) (hnamed : Named thread s t) :
    Within s.records.streams s.now t := by
  obtain ⟨w, hw, htoken⟩ := hnamed
  exact (h.endsSoon w hw).stream t htoken

/-- A step that leaves the records alone. -/
theorem Held.step_same (h : Held thread s) (hrecords : s'.records = s.records)
    (hnow : s'.now = s.now) (hsaved : s'.saved = s.saved) (htokens : s'.tokens = s.tokens)
    (hissued : ∀ job ∈ s'.jobs, ∀ t, job.sessionToken = some t → t ∈ s.tokens)
    (hforce : ∀ w, InForce s' w → InForce s w) : Held thread s' := by
  refine h.step_streams hnow hsaved (fun t ht ↦ htokens ▸ ht)
    (fun job hjob t ht ↦ htokens ▸ hissued job hjob t ht) hforce (by rw [hrecords]) ?_
  intro t hnamed
  rw [hrecords]
  exact h.within hnamed

/-- Writes of one streaming session. -/
theorem Held.within_of_other (h : Held thread s) (token : String)
    (hother : ∀ u ≠ token, r.streams u = s.records.streams u)
    (hself : Named thread s token → Within r.streams s.now token) :
    ∀ u, Named thread s u → Within r.streams s.now u := by
  intro u hnamed
  by_cases hu : u = token
  · subst hu
    exact hself hnamed
  · exact (h.within hnamed).congr (hother u hu)

/-- `set_running`, for few hours. -/
theorem setRunning_within (r : Records) (now : Nat) (token : String) {ttlHours : Nat}
    (h : ttlHours ≤ closedSessionTtlHours) :
    Within (r.setRunning now token (ttlHours * 3600)).streams now token := by
  simp only [Records.setRunning, Records.updateStream, Keys.expire_modify]
  exact within_setex h _

theorem incrementRunCount_within {token : String} (h : Within r.streams now token)
    (hhas : r.streams.has now token = true) :
    Within (r.incrementRunCount now token).streams now token := by
  unfold Records.incrementRunCount
  split
  · exact h
  · simp only [Records.updateStream]
    exact h.modify hhas _

/-- `set_running` and the count of the run, for few hours. -/
theorem resume_within (r : Records) (now : Nat) (token : String) {ttlHours : Nat}
    (hpos : 0 < ttlHours) (h : ttlHours ≤ closedSessionTtlHours) :
    Within ((r.setRunning now token (ttlHours * 3600)).incrementRunCount now token).streams now
      token := by
  refine incrementRunCount_within (setRunning_within r now token h) ?_
  simp only [Records.setRunning, Records.updateStream, Keys.expire_modify]
  exact Keys.has_setex_self _ _ _ _ (by omega)

/-- A step that makes a job. -/
theorem Held.withJob (h : Held thread s) (job : ThreadJob)
    (hsessions : r.sessions = s.records.sessions)
    (hstreams : ∀ t, Named thread s t → Within r.streams s.now t) :
    Held thread (s.withJob r job) := by
  have htokens : ∀ t ∈ s.tokens, t ∈ job.sessionToken.toList ++ s.tokens :=
    fun t ht ↦ List.mem_append_right _ ht
  refine h.step_streams rfl rfl htokens ?_ (fun _ ↦ id) hsessions hstreams
  intro job' hjob t ht
  rcases List.mem_append.mp hjob with hjob | hjob
  · exact htokens t (h.issued job' hjob t ht)
  · rw [List.mem_singleton.mp hjob] at ht
    exact List.mem_append_left _ (by simp [ht])

/-- A new token is named by no record. -/
theorem Held.not_named_of_fresh (h : Held thread s) (hfresh : s.fresh t = true) :
    ¬ Named thread s t := by
  rintro ⟨w, -, htoken⟩
  simp only [fresh, decide_eq_true_eq] at hfresh
  exact hfresh.2 (h.named w t htoken)

theorem Held.start (h : Held thread s) {workflow issueState newToken : String} {ttlHours : Nat}
    {persist streaming : Bool}
    (hfew : ∀ token, streaming = true →
      (s.records.findSession s.now (thread.key workflow)).1 = some token →
      Named thread s token → ttlHours ≤ closedSessionTtlHours)
    (hstep : s.start thread workflow issueState ttlHours persist streaming newToken = some s') :
    Held thread s' := by
  obtain ⟨hsessions, hstreams⟩ := findSession_streams s.records s.now (thread.key workflow)
  simp only [ThreadState.start] at hstep
  split at hstep
  · next hstreaming =>
    split at hstep
    · next token records hfound =>
      rw [hfound] at hsessions hstreams
      obtain rfl := Option.some.inj hstep
      refine h.withJob _ hsessions (h.within_of_other token ?_ ?_)
      · intro u hu
        rw [setRunning_of_ne _ _ hu, hstreams]
      · intro hnamed
        exact setRunning_within _ _ _ (hfew token hstreaming (by rw [hfound]) hnamed)
    · next records hfound =>
      rw [hfound] at hsessions hstreams
      obtain ⟨hfresh, rfl⟩ := System.guarded_eq_some hstep
      refine h.withJob _ hsessions (h.within_of_other newToken ?_ ?_)
      · intro u hu
        rw [createSession_of_ne _ _ hu, hstreams]
      · exact fun hnamed ↦ absurd hnamed (h.not_named_of_fresh hfresh)
  · obtain rfl := Option.some.inj hstep
    exact h.withJob _ rfl fun t ↦ h.within

theorem Held.rehydrate (h : Held thread s) {workflow newToken : String} {ttlHours : Option Nat}
    {persist : Bool}
    (hstep : s.rehydrate thread workflow ttlHours persist newToken = some s') :
    Held thread s' := by
  obtain ⟨hfresh, rfl⟩ := System.guarded_eq_some hstep
  refine h.withJob _ rfl (h.within_of_other newToken ?_ ?_)
  · exact fun u hu ↦ createSession_of_ne _ _ hu _ _
  · exact fun hnamed ↦ absurd hnamed (h.not_named_of_fresh hfresh)

theorem Held.resume (h : Held thread s) {token : String} {ttlHours : Option Nat} {persist : Bool}
    (hfew : Named thread s token → 0 < ttlHours.getD thread.defaultSessionTtlHours ∧
      ttlHours.getD thread.defaultSessionTtlHours ≤ closedSessionTtlHours)
    (hstep : s.resume thread token ttlHours persist = some s') : Held thread s' := by
  obtain ⟨session, -, hstep⟩ := Option.bind_eq_some_iff.mp hstep
  have hsessions := incrementRunCount_sessions (s.records.setRunning s.now token
    (ttlHours.getD thread.defaultSessionTtlHours * 3600)) s.now token
  have hstreams := h.within_of_other token (r := (s.records.setRunning s.now token
      (ttlHours.getD thread.defaultSessionTtlHours * 3600)).incrementRunCount s.now token)
    (fun u hu ↦ (incrementRunCount_of_ne _ _ hu).trans (setRunning_of_ne _ _ hu _))
    (fun hnamed ↦ resume_within _ _ _ (hfew hnamed).1 (hfew hnamed).2)
  simp only at hstep
  split at hstep
  · split at hstep
    · obtain rfl := Option.some.inj hstep
      exact h.withJob _ hsessions hstreams
    · obtain rfl := Option.some.inj hstep
      exact h.step_streams rfl rfl (fun _ ↦ id) h.issued (fun _ ↦ id) hsessions hstreams
  · cases hstep

/-- A step of a job on its streaming session. -/
theorem Held.onToken (h : Held thread s) {i : Nat} {f : String → Records}
    (hstep : s.onToken i f = some s') (hsessions : ∀ token, (f token).sessions = s.records.sessions)
    (hother : ∀ token u, u ≠ token → (f token).streams u = s.records.streams u)
    (hself : ∀ token, s.tokenOf i = some token → Named thread s token →
      Within (f token).streams s.now token) : Held thread s' := by
  obtain ⟨token, htoken, rfl⟩ := Option.map_eq_some_iff.mp hstep
  exact h.step_streams rfl rfl (fun _ ↦ id) h.issued (fun _ ↦ id) (hsessions token)
    (h.within_of_other token (hother token) (hself token htoken))

/-- An update of the streaming session of a job. -/
theorem Held.update (h : Held thread s) {i : Nat} {f : Hash → Hash}
    (hstep : s.onToken i (fun token ↦ s.records.updateStream s.now token f) = some s')
    (hhas : ∀ token, s.tokenOf i = some token → Named thread s token →
      s.records.streams.has s.now token = true) : Held thread s' := by
  refine h.onToken hstep (fun _ ↦ rfl) (fun token u hu ↦ updateStream_of_ne _ _ hu _) ?_
  intro token htoken hnamed
  simp only [Records.updateStream]
  exact (h.within hnamed).modify (hhas token htoken hnamed) _

/-- The write of a session record is a `SETEX` of a sound one. -/
theorem exists_saved {w : String}
    (hstored : ∀ h, r.sessions.get now (sessionKeyOf (thread.key w)) = some h → Sound thread h)
    (saved : SavedSession) (time : String) :
    ∃ value, Sound thread value ∧
      value "streaming_token" = saved.streamingToken.or
        ((r.sessions.get now (sessionKeyOf (thread.key w))).bind (· "streaming_token")) ∧
      (r.saveSession now (thread.key w) saved time).sessions =
        r.sessions.setex now (sessionKeyOf (thread.key w)) (saved.ttlHours * 3600) value := by
  obtain ⟨value, hvalue, hsound, htoken⟩ := savedRest_sound (w := w) hstored saved time
  refine ⟨value, hsound, htoken, ?_⟩
  simp only [Records.saveSession, hvalue, Keys.expire_modify]

section Saved

variable {w : String} {value : Hash} {ttlSeconds : Nat}
  (hsessions : r'.sessions =
    r.sessions.setex now (sessionKeyOf (thread.key w)) ttlSeconds value)

include hsessions

/-- What is found after the write was written, or belongs to another workflow. -/
theorem get_of_saved {w' : String} {found : Hash}
    (hfound : r'.sessions.get now (sessionKeyOf (thread.key w')) = some found) :
    w' = w ∧ found = value ∨
      w' ≠ w ∧ r.sessions.get now (sessionKeyOf (thread.key w')) = some found := by
  by_cases hw : w' = w
  · subst hw
    rw [hsessions, Keys.get_setex_self, Option.ite_none_right_eq_some, Option.some.injEq] at hfound
    exact .inl ⟨rfl, hfound.2.symm⟩
  · rw [hsessions, Keys.get_setex_of_ne _ _ _ (sessionKeyOf_ne hw)] at hfound
    exact .inr ⟨hw, hfound⟩

/-- A token that is named now was named before, or is the one that was written. -/
theorem streamingTokenOf_of_saved {token : Option String} (hsound : Sound thread value)
    (hstored : ∀ h, r.sessions.get now (sessionKeyOf (thread.key w)) = some h → Sound thread h)
    (htoken : value "streaming_token" = token.or
      ((r.sessions.get now (sessionKeyOf (thread.key w))).bind (· "streaming_token")))
    {w' : String} (hnames : r'.streamingTokenOf now (thread.key w') = some t) :
    r.streamingTokenOf now (thread.key w') = some t ∨ w' = w ∧ token = some t := by
  obtain ⟨found, hfound, -⟩ := streamingTokenOf_eq_some hnames
  rcases get_of_saved hsessions hfound with ⟨rfl, rfl⟩ | ⟨hw, hbefore⟩
  · rw [hsound.streamingTokenOf hfound, htoken] at hnames
    obtain ⟨hnames, hne⟩ := Option.filter_eq_some_iff.mp hnames
    cases token with
    | some u => exact .inr ⟨rfl, hnames⟩
    | none =>
      rw [Option.none_or] at hnames
      obtain ⟨stored, hget, hnames⟩ := Option.bind_eq_some_iff.mp hnames
      refine .inl ?_
      rw [(hstored stored hget).streamingTokenOf hget, hnames]
      exact Option.filter_eq_some_iff.mpr ⟨rfl, hne⟩
  · refine .inl (streamingTokenOf_mono (fun found' hfound' ↦ ?_) hnames)
    rw [hfound] at hfound'
    exact hfound' ▸ hbefore

end Saved

/-- A job that ends writes one session record. -/
theorem Held.saveSession (h : Held thread s) {job : ThreadJob} (hjob : job ∈ s.jobs)
    {sessionId worktreePath ref time : String} {numTurns : Int}
    (hfew : sessionId ≠ "" → job.persist = true → InForce s job.workflow →
      savedTtlHours thread job ≤ closedSessionTtlHours ∧
        ∀ token, job.sessionToken = some token → Within s.records.streams s.now token) :
    Held thread (s.saveSession thread job sessionId numTurns worktreePath ref time) := by
  unfold ThreadState.saveSession
  split
  · next hsaves =>
    obtain ⟨value, hsound, htoken, hsessions⟩ := exists_saved (h.sound job.workflow)
      ⟨sessionId, worktreePath, ref, numTurns, none, savedTtlHours thread job, job.sessionToken⟩
      time
    generalize hrecords : s.records.saveSession s.now (thread.key job.workflow) _ time = records
    rw [hrecords] at hsessions
    have hstreams : records.streams = s.records.streams := hrecords ▸ rfl
    have hnamed {w t : String} (hnames : records.streamingTokenOf s.now (thread.key w) = some t) :=
      streamingTokenOf_of_saved hsessions hsound (h.sound job.workflow) htoken hnames
    constructor
    · intro w hw
      refine ⟨?_, fun t hnames ↦ ?_⟩
      · by_cases heq : w = job.workflow
        · subst heq
          rw [hsessions]
          exact within_setex (hfew hsaves.1 hsaves.2 hw).1 value
        · refine (h.endsSoon w hw).session.congr ?_
          rw [hsessions, Keys.setex_apply_of_ne _ _ (sessionKeyOf_ne heq)]
      · rw [hstreams]
        rcases hnamed hnames with hbefore | ⟨rfl, hjobToken⟩
        · exact (h.endsSoon w hw).stream t hbefore
        · exact (hfew hsaves.1 hsaves.2 hw).2 t hjobToken
    · intro w found hfound
      rcases get_of_saved hsessions hfound with ⟨rfl, rfl⟩ | ⟨-, hbefore⟩
      · exact hsound
      · exact h.sound w found hbefore
    · intro w hhas
      obtain ⟨found, hfound⟩ := Option.isSome_iff_exists.mp hhas
      rcases get_of_saved hsessions hfound with ⟨rfl, -⟩ | ⟨-, hbefore⟩
      · exact List.mem_cons_self
      · exact List.mem_cons_of_mem _ (h.listed w (by simp [Keys.has, hbefore]))
    · exact h.issued
    · intro w t hnames
      rcases hnamed hnames with hbefore | ⟨-, hjobToken⟩
      · exact h.named w t hbefore
      · exact h.issued job hjob t hjobToken
  · exact h

theorem Held.tick (h : Held thread s) (milliseconds : Nat) :
    Held thread { s with now := s.now + milliseconds } := by
  have hle : s.now ≤ s.now + milliseconds := Nat.le_add_right _ _
  refine h.step_of_le rfl (fun _ ↦ id) h.issued
    (fun w value hget ↦ Keys.get_eq_some_of_le hle hget) ?_
  intro w hw
  refine ⟨(h.endsSoon w hw).session.later hle, fun t htoken ↦ ?_⟩
  refine ((h.endsSoon w hw).stream t ?_).later hle
  exact streamingTokenOf_mono (fun value hget ↦ Keys.get_eq_some_of_le hle hget) htoken

/-- What is not listed has no record. -/
theorem Held.endsSoon_of_not_listed (h : Held thread s) {w : String}
    (hw : w ∉ s.listSessions thread) : EndsSoon s.records s.now (thread.key w) := by
  have hnone : s.records.sessions.get s.now (sessionKeyOf (thread.key w)) = none := by
    cases hget : s.records.sessions.get s.now (sessionKeyOf (thread.key w)) with
    | none => rfl
    | some value =>
      obtain ⟨info, hinfo, -⟩ := (h.sound w value hget).validate
      refine absurd (List.mem_filter.mpr ⟨h.listed w (by simp [Keys.has, hget]), ?_⟩) hw
      simp [getSession, hget, hinfo]
  refine ⟨within_of_get_eq_none hnone, fun t htoken ↦ ?_⟩
  obtain ⟨value, hvalue, -⟩ := streamingTokenOf_eq_some htoken
  rw [hnone] at hvalue
  cases hvalue

theorem Held.popCleanup (h : Held thread s) (hstep : s.popCleanup thread = some s') :
    Held thread s' := by
  unfold ThreadState.popCleanup at hstep
  split at hstep
  · cases hstep
  · cases hstep
    refine h.step_of_le rfl (fun _ ↦ id) h.issued (fun _ _ ↦ id) ?_
    intro w hw
    rcases hw with hclosed | ⟨p, hp, hrevive, hovertaken, hremaining⟩
    · exact h.endsSoon w (.inl hclosed)
    · rcases List.mem_append.mp hp with hp | hp
      · exact h.endsSoon w (.inr ⟨p, hp, hrevive, hovertaken, hremaining⟩)
      · rw [List.mem_singleton.mp hp] at hremaining
        exact h.endsSoon_of_not_listed hremaining
  · cases hstep
    refine h.step_of_le rfl (fun _ ↦ id) h.issued (fun _ _ ↦ id) ?_
    rintro w (hclosed | ⟨p, hp, hrevive, hovertaken, -⟩)
    · cases hclosed
    · rcases List.mem_append.mp hp with hp | hp
      · obtain ⟨q, -, rfl⟩ := List.mem_map.mp hp
        cases hovertaken
      · rw [List.mem_singleton.mp hp] at hrevive
        cases hrevive

theorem Held.cleaned (h : Held thread s) {i : Nat} (hstep : s.cleaned i = some s') :
    Held thread s' := by
  obtain ⟨p, hp, hstep⟩ := Option.bind_eq_some_iff.mp hstep
  obtain ⟨hdone, rfl⟩ := System.guarded_eq_some hstep
  refine h.step_same rfl rfl rfl rfl h.issued ?_
  rintro w (hclosed | ⟨q, hq, hrest⟩)
  · simp only [Bool.or_eq_true, Bool.and_eq_true, Bool.not_eq_true'] at hclosed
    rcases hclosed with hclosed | ⟨hrevive, hovertaken⟩
    · exact .inl hclosed
    · exact .inr ⟨p, List.mem_of_getElem? hp, hrevive, hovertaken, by simp [hdone]⟩
  · exact .inr ⟨q, List.mem_of_mem_eraseIdx hq, hrest⟩

/-- `expire_session` writes the expiry of one session record and, if that still names one, of one
streaming session. -/
theorem expireSession_cases (r : Records) (now : Nat) (key : WorktreeKey) (ttlHours : Nat) :
    (r.expireSession now key ttlHours).sessions =
        r.sessions.expire now (sessionKeyOf key) (ttlHours * 3600) ∧
      match (r.expireSession now key ttlHours).streamingTokenOf now key with
      | some t => (r.expireSession now key ttlHours).streams =
          r.streams.expire now t (ttlHours * 3600)
      | none => (r.expireSession now key ttlHours).streams = r.streams := by
  unfold expireSession
  split
  · simp only
    cases htoken : ({ r with
        sessions := r.sessions.expire now (sessionKeyOf key) (ttlHours * 3600) } :
          Records).streamingTokenOf now key with
    | none =>
      refine ⟨rfl, ?_⟩
      simp only [htoken]
    | some t =>
      refine ⟨rfl, ?_⟩
      have hafter : (({ r with
          sessions := r.sessions.expire now (sessionKeyOf key) (ttlHours * 3600) } :
            Records).propagateStreamingTtl now t key ttlHours).streamingTokenOf now key = some t :=
        htoken
      simp only [hafter]
      rfl
  · next hhas =>
    have hnone : r.sessions.get now (sessionKeyOf key) = none := by
      simpa [Keys.has] using hhas
    have htoken : r.streamingTokenOf now key = none := by
      simp [streamingTokenOf, getSession, hnone]
    rw [Keys.expire_of_none hnone, htoken]
    exact ⟨rfl, rfl⟩

/-- What is found after an expiry was written, was found before. -/
theorem get_of_expired {workflow w : String} {ttlSeconds : Nat} {value : Hash}
    (hsessions : r'.sessions =
      r.sessions.expire now (sessionKeyOf (thread.key workflow)) ttlSeconds)
    (hvalue : r'.sessions.get now (sessionKeyOf (thread.key w)) = some value) :
    r.sessions.get now (sessionKeyOf (thread.key w)) = some value := by
  rw [hsessions] at hvalue
  by_cases hw : w = workflow
  · subst hw
    rw [Keys.get_expire_self _ (Nat.le_refl _), Option.ite_none_right_eq_some] at hvalue
    exact hvalue.2
  · rwa [Keys.get_expire_of_ne _ _ _ (sessionKeyOf_ne hw)] at hvalue

/-- Only the workflow that is treated is newly in force. -/
theorem inForce_of_cleaned {i : Nat} {p : Cleaning} {workflow w : String} {rest : List String}
    (hp : s.cleaning[i]? = some p) (hremaining : p.remaining = workflow :: rest)
    (hw : InForce { s with
      records := r, cleaning := s.cleaning.set i { p with remaining := rest } } w) :
    InForce s w ∨ w = workflow ∧ p.revive = false := by
  rcases hw with hclosed | ⟨q, hq, hrevive, hovertaken, hnot⟩
  · exact .inl (.inl hclosed)
  · rcases List.mem_or_eq_of_mem_set hq with hq | rfl
    · exact .inl (.inr ⟨q, hq, hrevive, hovertaken, hnot⟩)
    · by_cases hw : w = workflow
      · exact .inr ⟨hw, hrevive⟩
      · refine .inl (.inr ⟨p, List.mem_of_getElem? hp, hrevive, hovertaken, ?_⟩)
        rw [hremaining, List.mem_cons, not_or]
        exact ⟨hw, hnot⟩

theorem Held.cleanNext (h : Held thread s) {i : Nat}
    (hfew : LeavesClosed thread s (.cleanNext i)) (hstep : s.cleanNext thread i = some s') :
    Held thread s' := by
  obtain ⟨p, hp, hstep⟩ := Option.bind_eq_some_iff.mp hstep
  split at hstep
  · cases hstep
  next workflow rest hremaining =>
  obtain rfl := Option.some.inj hstep
  have hfew := hfew p workflow rest hp hremaining
  obtain ⟨hsessions, hstreams⟩ := expireSession_cases s.records s.now (thread.key workflow)
    (cleaningTtlHours thread p.revive)
  generalize s.records.expireSession s.now (thread.key workflow)
    (cleaningTtlHours thread p.revive) = records at *
  have hbefore {w t : String} (htoken : records.streamingTokenOf s.now (thread.key w) = some t) :
      s.records.streamingTokenOf s.now (thread.key w) = some t :=
    streamingTokenOf_mono (fun _ ↦ get_of_expired hsessions) htoken
  have hforce {w : String} (hw : InForce { s with
      records := records, cleaning := s.cleaning.set i { p with remaining := rest } } w) :=
    inForce_of_cleaned hp hremaining hw
  have hhours (hcase : p.revive = true → InForce s workflow ∨ ∃ token,
      s.records.streamingTokenOf s.now (thread.key workflow) = some token ∧
        Named thread s token) :
      cleaningTtlHours thread p.revive ≤ closedSessionTtlHours := by
    cases hrevive : p.revive with
    | false => exact Nat.le_refl _
    | true => exact hfew hrevive (hcase hrevive)
  refine h.step_of_le rfl (fun _ ↦ id) h.issued (fun _ _ ↦ get_of_expired hsessions) ?_
  intro w hw
  by_cases heq : w = workflow
  · subst heq
    have hfewHours := hhours fun hrevive ↦ (hforce hw).resolve_right
      (fun hnew ↦ by rw [hrevive] at hnew; cases hnew.2) |> .inl
    refine ⟨?_, fun t htoken ↦ ?_⟩
    · rw [hsessions]
      exact within_expire hfewHours
    · rw [htoken] at hstreams
      rw [hstreams]
      exact within_expire hfewHours
  · have hold := (hforce hw).resolve_right fun hnew ↦ heq hnew.1
    refine ⟨(h.endsSoon w hold).session.congr ?_, fun t htoken ↦ ?_⟩
    · rw [hsessions, Keys.expire_apply_of_ne _ _ (sessionKeyOf_ne heq)]
    · have hnamed : Named thread s t := ⟨w, hold, hbefore htoken⟩
      cases htreated : records.streamingTokenOf s.now (thread.key workflow) with
      | none =>
        rw [htreated] at hstreams
        rw [hstreams]
        exact h.within hnamed
      | some u =>
        rw [htreated] at hstreams
        rw [hstreams]
        by_cases htu : t = u
        · subst htu
          exact within_expire (hhours fun _ ↦ .inr ⟨t, hbefore htreated, hnamed⟩)
        · exact (h.within hnamed).congr (Keys.expire_apply_of_ne _ _ htu _)

/-- One step. -/
theorem Held.step (h : Held thread s) {a : ThreadAction} (hleaves : LeavesClosed thread s a)
    (hstep : (lifecycle thread).step s a = some s') : Held thread s' := by
  cases a with
  | trigger workflow carriesState =>
    cases hstep
    exact h.step_same rfl rfl rfl rfl h.issued fun _ ↦ id
  | close =>
    cases hstep
    exact h.step_same rfl rfl rfl rfl h.issued fun _ ↦ id
  | reopen =>
    cases hstep
    exact h.step_same rfl rfl rfl rfl h.issued fun _ ↦ id
  | start i ttlHours persist streaming newToken =>
    obtain ⟨event, hevent, hstep⟩ := Option.bind_eq_some_iff.mp hstep
    have herased : Held thread { s with events := s.events.eraseIdx i } :=
      h.step_same rfl rfl rfl rfl h.issued fun _ ↦ id
    exact herased.start (hleaves event · hevent) hstep
  | autoContinue i =>
    refine h.onToken hstep (fun _ ↦ rfl) (fun token u hu ↦ setRunning_of_ne _ _ hu _) ?_
    exact fun token htoken hnamed ↦ setRunning_within _ _ _ (hleaves token htoken hnamed)
  | setCompleted i isError sessionId =>
    simp only [lifecycle, Records.setCompleted] at hstep
    exact h.update hstep hleaves
  | saveSession i sessionId numTurns worktreePath ref time =>
    obtain ⟨job, hjob, rfl⟩ := Option.map_eq_some_iff.mp hstep
    exact h.saveSession (List.mem_of_getElem? hjob) (hleaves job hjob)
  | updateSessionId i sessionId =>
    simp only [lifecycle, Records.updateSessionId] at hstep
    exact h.update hstep hleaves
  | updateTranscriptPath i path =>
    simp only [lifecycle, Records.updateTranscriptPath] at hstep
    exact h.update hstep hleaves
  | resume token ttlHours persist => exact h.resume hleaves hstep
  | rehydrate workflow ttlHours persist newToken => exact h.rehydrate hstep
  | rehydrated i =>
    refine h.onToken hstep (fun _ ↦ incrementRunCount_sessions _ _ _) (fun token u hu ↦ ?_) ?_
    · rw [incrementRunCount_of_ne _ _ hu, setRunning_of_ne _ _ hu]
    · intro token htoken hnamed
      obtain ⟨hpos, hfew⟩ := hleaves token htoken hnamed
      exact resume_within _ _ _ hpos hfew
  | popCleanup => exact h.popCleanup hstep
  | cleanNext i => exact h.cleanNext hleaves hstep
  | cleaned i => exact h.cleaned hstep
  | tick milliseconds =>
    cases hstep
    exact h.tick milliseconds

end Step

/-- In the runs whose steps leave what was closed, a closed thread stays closed. -/
theorem staysClosed_of_leavesClosed (thread : Thread) {s : ThreadState}
    (h : (lifecycle thread).ReachWhen (LeavesClosed thread) s) : StaysClosed thread s := by
  have hheld : Held thread s := by
    refine h.invariant (P := Held thread) ?_ ?_
    · rintro t ⟨hrecords, hcleaning, hjobs, htokens, hsaved, hclosed⟩
      have hnone (w : String) : t.records.sessions.get t.now (sessionKeyOf (thread.key w)) =
          none := by
        rw [hrecords]
        rfl
      constructor
      · rintro w (hforce | ⟨p, hp, -⟩)
        · rw [hclosed] at hforce
          cases hforce
        · rw [hcleaning] at hp
          cases hp
      · intro w value hvalue
        rw [hnone w] at hvalue
        cases hvalue
      · intro w hhas
        simp [Keys.has, hnone w] at hhas
      · intro job hjob
        rw [hjobs] at hjob
        cases hjob
      · intro w u htoken
        simp [streamingTokenOf, getSession, hnone w] at htoken
    · exact fun t a t' ht hleaves hstep ↦ ht.step hleaves hstep
  exact fun hclosed w ↦ hheld.endsSoon w (.inl hclosed)

/-- Issue 3 of a repository, with sessions of thirty days. -/
def issueThread : Thread := ⟨"o/r", .issue, 3, 720⟩

/-- The thread before anything happens. -/
def quiet : ThreadState := ⟨.empty, 0, true, [], [], [], [], [], [], false⟩

/-- A command on the closed issue, whose job ends after the sessions have been cut. -/
theorem staysClosed_late :
    ∃ s, (lifecycle issueThread).ReachWhen (LeavesClosed issueThread) s ∧ s.closed = true ∧
      s.saved = ["triage"] ∧ StaysClosed issueThread s := by
  have hinit : (lifecycle issueThread).ReachWhen (LeavesClosed issueThread) quiet :=
    .init ⟨rfl, rfl, rfl, rfl, rfl, rfl⟩
  have hjob := ((hinit.step ThreadAction.close trivial rfl).step
    (ThreadAction.trigger "triage" true) trivial rfl).step
    (ThreadAction.start 0 720 true false "") (fun _ _ _ hstreaming ↦ by cases hstreaming) rfl
  have hclosed := (hjob.step ThreadAction.popCleanup trivial rfl).step (ThreadAction.cleaned 0)
    trivial rfl
  have hsave := hclosed.step (ThreadAction.saveSession 0 "s0" 5 "/work" "main" "t0") ?_ rfl
  · exact ⟨_, hsave, rfl, rfl, staysClosed_of_leavesClosed issueThread hsave⟩
  · rintro job hjob - - -
    cases hjob
    exact ⟨Nat.le_refl _, fun _ htoken ↦ by cases htoken⟩

/-- The job was made while the issue was open: it ends after the sessions have been cut, and saves
its session for thirty days. -/
theorem not_staysClosed :
    ¬ ∀ (thread : Thread) (s : ThreadState), (lifecycle thread).Reach s →
      StaysClosed thread s := by
  intro h
  have hinit : (lifecycle issueThread).Reach quiet := .init ⟨rfl, rfl, rfl, rfl, rfl, rfl⟩
  have hjob := (hinit.step (ThreadAction.trigger "triage" true) trivial rfl).step
    (ThreadAction.start 0 720 true false "") trivial rfl
  have hclosed := ((hjob.step ThreadAction.close trivial rfl).step ThreadAction.popCleanup trivial
    rfl).step (ThreadAction.cleaned 0) trivial rfl
  have hsave := hclosed.step (ThreadAction.saveSession 0 "s0" 5 "/work" "main" "t0") trivial rfl
  have hends := (h _ _ hsave rfl "triage").session
  have hnothing : ∀ h, (none : Option Hash) = some h → Sound issueThread h := by
    intro _ hnone
    cases hnone
  obtain ⟨value, hvalue, -⟩ := savedRest_sound (w := "triage") hnothing
    ⟨"s0", "/work", "main", 5, none, 720, none⟩ "t0"
  have hsessions : (Records.empty.saveSession 0 (issueThread.key "triage")
      ⟨"s0", "/work", "main", 5, none, 720, none⟩ "t0").sessions =
      Keys.empty.setex 0 (sessionKeyOf (issueThread.key "triage")) (720 * 3600) value := by
    simp only [Records.saveSession, Records.empty, Keys.get_empty, hvalue, Keys.expire_modify]
  obtain ⟨d, hdeadline, hbound⟩ := hends ⟨value, some (0 + 1000 * (720 * 3600))⟩
    ((congrFun hsessions _).trans (Keys.setex_apply_self _ _ _ _ _)) rfl
  cases hdeadline
  exact absurd hbound (by decide)

end GithubAgent.Session.Threads
