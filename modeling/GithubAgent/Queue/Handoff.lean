import GithubAgent.Base.Simulation
import GithubAgent.Queue.Loss
import GithubAgent.Queue.Origin
import GithubAgent.Queue.Requests
import GithubAgent.Queue.Terminal

/-!
# From requests to jobs

The agent workers take requests off the request queue and put jobs into the job queue, from which
the sandbox workers pull them. Here both queues run together: while a worker processes a request, it
is a client of the job queue that calls `create_job` at most once.
-/

namespace GithubAgent.Queue.Handoff

open GithubAgent.Base
open GithubAgent.Queue.Requests (Codec Processed Request readRequest)

/-- What `create_job` was called with, and the number of the request that was being processed, if
the call was for one. -/
structure Creation where
  request : Option Nat
  jobData : Json

/-- The two queues with their clients, of which the agent workers are those of both. For each
worker, the job that `create_job` was called for during the request in its hand; for the record,
what every job was created with. -/
structure State (W C : Type) where
  requests : Requests.State W := {}
  jobs : Queue.State (W ⊕ C) String := initial
  asked : W → Option String := fun _ ↦ none
  made : String → Option Creation := fun _ ↦ none

/-- A step on the request queue; a step on the job queue; `create_job` is called by another service,
or by a worker for the request in its hand; a call of `processor.process` ends; a worker is
killed. -/
inductive Action (W C : Type) where
  | request (a : Requests.Action W)
  | job (a : Queue.Action (W ⊕ C) String)
  | createElsewhere (c : C) (j : String) (jobData : Json)
  | create (w : W) (j : String) (found : ExecuteLocals)
  | finish (w : W) (result : Processed)
  | kill (w : W) (replyLost : Bool)

/-- The locals of `_execute`: its arguments, and what it finds out
(`request_processor.py:166-479`). -/
def executeLocals (request : Request) (found : ExecuteLocals) : ExecuteLocals :=
  { found with
    repo := request.repository
    issueNumber := request.issueNumber
    user := request.user
    workflowName := request.workflowName
    userQuery := request.userQuery
    eventData := request.eventData }

/-- The step concerns the request queue only. -/
def isRequestStep {W : Type} : Requests.Action W → Bool
  | .finish _ _ | .kill _ _ => false
  | _ => true

/-- The step is no call of `create_job`, and agent workers call and crash in no other way than the
other actions say. -/
def isJobStep {W C : Type} : Queue.Action (W ⊕ C) String → Bool
  | .call (.inl _) _ | .call (.inr _) (.create _ _) | .crash (.inl _) => false
  | _ => true

def isIdle : Pc String → Bool
  | .idle => true
  | _ => false

section System

variable {W C : Type} [DecidableEq W] [DecidableEq C]

omit [DecidableEq W] [DecidableEq C] in
/-- `processor.process` can end so: `create_job` has returned this id; it was not called; or
something raised while it was not running. -/
def State.canEnd (s : State W C) (w : W) : Processed → Bool
  | .jobId id =>
    s.asked w = some id && Event.created id ∈ s.jobs.log && isIdle (s.jobs.clients (.inl w)).pc
  | .ignored => s.asked w = none
  | .raised => isIdle (s.jobs.clients (.inl w)).pc

variable (codec : Codec) (cfg : Config (W ⊕ C) String)

/-- `create_job` is called. -/
def State.create (s : State W C) (c : W ⊕ C) (j : String) (creation : Creation) :
    Option (State W C) :=
  (Queue.step cfg s.jobs (.call c (.create j creation.jobData))).map fun jobs ↦
    { s with jobs := jobs, made := Function.update s.made j (some creation) }

def step (s : State W C) : Action W C → Option (State W C)
  | .request a =>
    if isRequestStep a then
      (Requests.step codec s.requests a).map fun requests ↦ { s with requests := requests }
    else none
  | .job a =>
    if isJobStep a then (Queue.step cfg s.jobs a).map fun jobs ↦ { s with jobs := jobs } else none
  | .createElsewhere c j jobData => s.create cfg (.inr c) j ⟨none, jobData⟩
  | .create w j found =>
    match s.requests.stages w, s.asked w with
    | .processing n request, none =>
      (s.create cfg (.inl w) j ⟨some n, .obj (executeLocals request found).jobData⟩).map fun s ↦
        { s with asked := Function.update s.asked w (some j) }
    | _, _ => none
  | .finish w result =>
    if s.canEnd w result then
      (Requests.step codec s.requests (.finish w result)).map fun requests ↦
        { s with requests := requests, asked := Function.update s.asked w none }
    else none
  | .kill w replyLost =>
    match Requests.step codec s.requests (.kill w replyLost),
      Queue.step cfg s.jobs (.crash (.inl w)) with
    | some requests, some jobs =>
      some { s with
        requests := requests
        jobs := jobs
        asked := Function.update s.asked w none }
    | _, _ => none

/-- Both queues with their clients, from their start. -/
def handoff : System (State W C) (Action W C) where
  init s := s = {}
  step := step codec cfg

/-! ### What the sandbox workers get -/

/-- The job was created for this request: number `n` of those pushed, by the worker that took it,
and with its repository, issue, user, workflow, query and event. -/
structure AskedFor (r : Requests.State W) (n : Nat) (w : W) (text : String) (request : Request)
    (jobData : Json) : Prop where
  taken : r.ledger.taken[n]? = some (w, text)
  read : ∃ message, codec.loads text = .value message ∧ readRequest message = some request
  executed : ∃ found, jobData = .obj (executeLocals request found).jobData

/-- What is pulled for a job is what it was created with, apart from the token. A job of an agent
worker was asked for by one request, which was pushed, and no request has two jobs; it has ended as
queued with this job, has failed or was killed, or is still being processed. A request that ended as
queued has its job, which has a result or is on its way. -/
structure HandedOver (s : State W C) : Prop where
  pulled : ∀ c, ∀ job ∈ (s.jobs.clients c).jobs,
    ∃ m, s.made job.1 = some m ∧ IsDataOf m.jobData job.2
  asked : ∀ j m n, s.made j = some m → m.request = some n →
    ∃ w text request, AskedFor codec s.requests n w text request m.jobData ∧
      s.requests.pushed[n]? = some text
  once : ∀ j j' m m' n, s.made j = some m → s.made j' = some m' → m.request = some n →
    m'.request = some n → j = j'
  ended : ∀ j m n, s.made j = some m → m.request = some n →
    s.requests.ledger.ended n = some (.queued j) ∨ s.requests.ledger.ended n = some .failed ∨
      s.requests.ledger.ended n = some .killed ∨
      ∃ w request, s.requests.stages w = .processing n request ∧ s.asked w = some j
  queued : ∀ n j, s.requests.ledger.ended n = some (.queued j) →
    (∃ m, s.made j = some m ∧ m.request = some n) ∧ (.stored j ∈ s.jobs.log ∨ Tracked s.jobs j)

/-- The steps on the job queue keep its jobs. -/
def Keeps (s : State W C) : Action W C → Prop
  | .job a => KeepsJobs s.jobs a
  | _ => True

variable {codec} {cfg}

/-! ### What a step on the request queue leaves -/

section Requests

variable {r r' r'' : Requests.State W} {w : W} {n : Nat}

def isProcessing : Requests.Stage → Bool
  | .processing _ _ => true
  | _ => false

def isQueued : Requests.Fate → Bool
  | .queued _ => true
  | _ => false

omit [DecidableEq W] in
theorem ne_processing {stage : Requests.Stage} (hstage : r.stages w = stage)
    (hnot : isProcessing stage = false) (m : Nat) (request : Request) :
    r.stages w ≠ .processing m request := by
  intro hprocessing
  rw [hstage] at hprocessing
  rw [hprocessing] at hnot
  cases hnot

/-- The message has not ended, and no worker is processing it. -/
def Spare (r : Requests.State W) (n : Nat) : Prop :=
  r.ledger.ended n = none ∧ ∀ x request, r.stages x ≠ .processing n request

/-- Messages that were taken stay so, workers go on with what they process, and only messages end
that are not processed, and not as queued. -/
structure Quiet (r r' : Requests.State W) : Prop where
  taken : ∀ (n : Nat) entry, r.ledger.taken[n]? = some entry → r'.ledger.taken[n]? = some entry
  stages : ∀ x n request, r.stages x = .processing n request → r'.stages x = .processing n request
  ended : ∀ n, r'.ledger.ended n = r.ledger.ended n ∨
    (Spare r n ∧ ∀ j, r'.ledger.ended n ≠ some (.queued j))

omit [DecidableEq W] in
theorem quiet_of_eq (htaken : r'.ledger.taken = r.ledger.taken)
    (hended : r'.ledger.ended = r.ledger.ended) (hstages : r'.stages = r.stages) : Quiet r r' where
  taken n entry hn := by rwa [htaken]
  stages x n request hx := by rwa [hstages]
  ended n := .inl (by rw [hended])

omit [DecidableEq W] in
theorem Quiet.spare (h : Quiet r r') (hspare : Spare r' n) : Spare r n := by
  rcases h.ended n with hsame | ⟨hold, -⟩
  · refine ⟨hsame.symm.trans hspare.1, fun x request hx ↦ ?_⟩
    exact hspare.2 x request (h.stages x n request hx)
  · exact hold

omit [DecidableEq W] in
theorem Quiet.trans (h : Quiet r r') (h' : Quiet r' r'') : Quiet r r'' where
  taken n entry hn := h'.taken n entry (h.taken n entry hn)
  stages x n request hx := h'.stages x n request (h.stages x n request hx)
  ended n := by
    rcases h'.ended n with hsame | ⟨hspare, hnot⟩
    · rw [hsame]
      exact h.ended n
    · exact .inr ⟨h.spare hspare, hnot⟩

/-- A worker that is not processing anything goes on. -/
theorem quiet_setStage (hfree : ∀ n request, r.stages w ≠ .processing n request)
    (stage : Requests.Stage) : Quiet r (r.setStage w stage) where
  taken _ _ := id
  stages x n request hx := by
    have hxw : x ≠ w := by
      rintro rfl
      exact hfree n request hx
    show Function.update r.stages w stage x = _
    rw [Function.update_of_ne hxw]
    exact hx
  ended _ := .inl rfl

theorem quiet_pop (hfree : ∀ n request, r.stages w ≠ .processing n request)
    (hpop : r.pop w = some r') : Quiet r r' := by
  obtain ⟨text, ledger, htake, rfl⟩ := Requests.pop_eq_some hpop
  obtain ⟨hledger, -⟩ := Ledger.take_eq_some htake
  constructor
  · intro n entry hn
    show ledger.taken[n]? = _
    rw [hledger]
    exact (Ledger.getElem?_taken_of_lt (Ledger.lt_of_taken hn)).trans hn
  · exact (quiet_setStage hfree _).stages
  · intro n
    refine .inl ?_
    show ledger.ended n = _
    rw [hledger]

/-- A message ends in the hand of a worker that is not processing it. -/
theorem quiet_finish (hkept : Requests.Kept codec r) (hnumber : (r.stages w).number? = some n)
    (hfree : ∀ n request, r.stages w ≠ .processing n request) {fate : Requests.Fate}
    {next : Requests.Stage} (hfate : isQueued fate = false) : Quiet r (r.finish w n fate next) where
  taken _ _ := id
  stages := (quiet_setStage hfree next).stages
  ended m := by
    by_cases hm : m = n
    · rw [hm]
      refine .inr ⟨⟨hkept.sound.ended_of_held hnumber, fun x request hx ↦ ?_⟩, fun j hj ↦ ?_⟩
      · have hheld : (r.stages x).number? = some n := by rw [hx]; rfl
        rw [hkept.sound.holder_unique hheld hnumber] at hx
        exact hfree n request hx
      · have hupdated : Function.update r.ledger.ended n (some fate) n = some (.queued j) := hj
        rw [Function.update_self] at hupdated
        cases hupdated
        cases hfate
    · exact .inl (Function.update_of_ne hm _ _)

/-- What a worker loses that has just taken a message is in nobody's hand. -/
theorem quiet_popFinish (hkept : Requests.Kept codec r) (hwaiting : r.stages w = .waiting)
    (hpop : r.pop w = some r') {fate : Requests.Fate} {next : Requests.Stage}
    (hfate : isQueued fate = false) :
    Quiet r (r'.finish w r.ledger.taken.length fate next) := by
  have hstage : ∃ text, r'.stages w = .popped r.ledger.taken.length text := by
    obtain ⟨text, ledger, -, rfl⟩ := Requests.pop_eq_some hpop
    exact ⟨text, Function.update_self _ _ _⟩
  obtain ⟨text, hstage⟩ := hstage
  apply (quiet_pop (ne_processing hwaiting rfl) hpop).trans
  apply quiet_finish (hkept.pop hwaiting hpop)
  · rw [hstage]; rfl
  · exact ne_processing hstage rfl
  · exact hfate

theorem quiet_step (hkept : Requests.Kept codec r) {a : Requests.Action W}
    (ha : isRequestStep a = true) (hs : Requests.step codec r a = some r') : Quiet r r' := by
  cases Requests.step_cases hs with
  | unsent | pushed | published | stopped | shutdown => exact quiet_of_eq rfl rfl rfl
  | pop waiting pops => exact quiet_pop (ne_processing waiting rfl) pops
  | popLost waiting pops => exact quiet_popFinish hkept waiting pops rfl
  | popFails waiting => exact quiet_setStage (ne_processing waiting rfl) _
  | decoded popped => exact quiet_setStage (ne_processing popped rfl) _
  | undecodable popped =>
    exact quiet_finish hkept (by rw [popped]; rfl) (ne_processing popped rfl) rfl
  | unreadable popped =>
    exact quiet_finish hkept (by rw [popped]; rfl) (ne_processing popped rfl) rfl
  | processing called => exact quiet_setStage (ne_processing called rfl) _
  | skipped called =>
    exact quiet_finish hkept (by rw [called]; rfl) (ne_processing called rfl) rfl
  | rejected called =>
    exact quiet_finish hkept (by rw [called]; rfl) (ne_processing called rfl) rfl
  | wake sleeping => exact quiet_setStage (ne_processing sleeping rfl) _
  | finish | killPopped | killFree | killHeld => cases ha

/-- A worker is killed while it processes a message, or while it does not. -/
theorem kill_cases (hkept : Requests.Kept codec r) {replyLost : Bool}
    (hs : Requests.step codec r (.kill w replyLost) = some r') :
    (∃ n request, r.stages w = .processing n request ∧ r' = r.finish w n .killed .dead) ∨
      (Quiet r r' ∧ ∀ n request, r.stages w ≠ .processing n request) := by
  cases Requests.step_cases hs with
  | killPopped waiting pops =>
    exact .inr ⟨quiet_popFinish hkept waiting pops rfl, ne_processing waiting rfl⟩
  | killFree free =>
    have hfree (n : Nat) (request : Request) : r.stages w ≠ .processing n request := by
      rcases free with hstage | hstage
      · exact ne_processing hstage rfl n request
      · exact ne_processing hstage rfl n request
    exact .inr ⟨quiet_setStage hfree _, hfree⟩
  | @killHeld w n replyLost held =>
    cases hstage : r.stages w with
    | processing m request =>
      rw [hstage] at held
      cases held
      exact .inl ⟨n, request, rfl, rfl⟩
    | popped m text =>
      have hfree := ne_processing hstage rfl
      exact .inr ⟨quiet_finish hkept held hfree rfl, by rw [← hstage]; exact hfree⟩
    | called m message =>
      have hfree := ne_processing hstage rfl
      exact .inr ⟨quiet_finish hkept held hfree rfl, by rw [← hstage]; exact hfree⟩
    | waiting | sleeping | dead =>
      rw [hstage] at held
      cases held

end Requests

/-! ### Inversion of a step -/

variable (codec) (cfg) in
/-- What a step can do, with the conditions under which it does it. -/
inductive Stepped (s : State W C) : Action W C → State W C → Prop where
  | request {a : Requests.Action W} {r : Requests.State W} (only : isRequestStep a = true)
      (runs : Requests.step codec s.requests a = some r) :
      Stepped s (.request a) { s with requests := r }
  | job {a : Queue.Action (W ⊕ C) String} {jobs : Queue.State (W ⊕ C) String}
      (only : isJobStep a = true) (runs : Queue.step cfg s.jobs a = some jobs) :
      Stepped s (.job a) { s with jobs := jobs }
  | createElsewhere {c : C} {j : String} {jobData : Json} {jobs : Queue.State (W ⊕ C) String}
      (runs : Queue.step cfg s.jobs (.call (.inr c) (.create j jobData)) = some jobs) :
      Stepped s (.createElsewhere c j jobData)
        { s with jobs := jobs, made := Function.update s.made j (some ⟨none, jobData⟩) }
  | create {w : W} {j : String} {found : ExecuteLocals} {n : Nat} {request : Request}
      {jobs : Queue.State (W ⊕ C) String}
      (processing : s.requests.stages w = .processing n request) (first : s.asked w = none)
      (runs : Queue.step cfg s.jobs
        (.call (.inl w) (.create j (.obj (executeLocals request found).jobData))) = some jobs) :
      Stepped s (.create w j found)
        { s with
          jobs := jobs
          asked := Function.update s.asked w (some j)
          made := Function.update s.made j
            (some ⟨some n, .obj (executeLocals request found).jobData⟩) }
  | finish {w : W} {result : Processed} {n : Nat} {request : Request}
      (ends : s.canEnd w result = true)
      (processing : s.requests.stages w = .processing n request) :
      Stepped s (.finish w result)
        { s with
          requests := s.requests.finish w n result.fate .waiting
          asked := Function.update s.asked w none }
  | kill {w : W} {replyLost : Bool} {r : Requests.State W} {jobs : Queue.State (W ⊕ C) String}
      (kills : Requests.step codec s.requests (.kill w replyLost) = some r)
      (crashes : Queue.step cfg s.jobs (.crash (.inl w)) = some jobs) :
      Stepped s (.kill w replyLost)
        { s with requests := r, jobs := jobs, asked := Function.update s.asked w none }

/-- Every step is one of those listed. -/
theorem step_cases {s s' : State W C} {a : Action W C}
    (hs : Handoff.step codec cfg s a = some s') : Stepped codec cfg s a s' := by
  cases a with
  | request a =>
    simp only [Handoff.step] at hs
    split at hs
    · next honly =>
      obtain ⟨r, hr, rfl⟩ := Option.map_eq_some_iff.mp hs
      exact .request honly hr
    · cases hs
  | job a =>
    simp only [Handoff.step] at hs
    split at hs
    · next honly =>
      obtain ⟨jobs, hjobs, rfl⟩ := Option.map_eq_some_iff.mp hs
      exact .job honly hjobs
    · cases hs
  | createElsewhere c j jobData =>
    obtain ⟨jobs, hjobs, rfl⟩ := Option.map_eq_some_iff.mp hs
    exact .createElsewhere hjobs
  | create w j found =>
    simp only [Handoff.step] at hs
    split at hs
    · next n request hstage hfree =>
      obtain ⟨t, ht, rfl⟩ := Option.map_eq_some_iff.mp hs
      obtain ⟨jobs, hjobs, rfl⟩ := Option.map_eq_some_iff.mp ht
      exact .create hstage hfree hjobs
    · cases hs
  | finish w result =>
    simp only [Handoff.step] at hs
    split at hs
    · next hends =>
      obtain ⟨r, hr, rfl⟩ := Option.map_eq_some_iff.mp hs
      cases Requests.step_cases hr with
      | finish processing => exact .finish hends processing
    · cases hs
  | kill w replyLost =>
    simp only [Handoff.step] at hs
    split at hs
    · next r jobs hr hjobs =>
      cases hs
      exact .kill hr hjobs
    · cases hs

/-! ### The invariant -/

/-- A client of the job queue that is in no call but `create_job`. -/
def CreatesOnly (pc : Pc String) : Prop := pc = .idle ∨ ∃ j p, pc = .create j p

variable (codec) in
structure Kept (s : State W C) : Prop where
  agents : ∀ w, CreatesOnly (s.jobs.clients (.inl w)).pc
  issued : ∀ j m, s.made j = some m → .issued j ∈ s.jobs.log
  asked : ∀ j m n, s.made j = some m → m.request = some n →
    ∃ w text request, AskedFor codec s.requests n w text request m.jobData
  once : ∀ j j' m m' n, s.made j = some m → s.made j' = some m' → m.request = some n →
    m'.request = some n → j = j'
  ended : ∀ j m n, s.made j = some m → m.request = some n →
    s.requests.ledger.ended n = some (.queued j) ∨ s.requests.ledger.ended n = some .failed ∨
      s.requests.ledger.ended n = some .killed ∨
      ∃ w request, s.requests.stages w = .processing n request ∧ s.asked w = some j
  inHand : ∀ w j, s.asked w = some j → ∃ n request m,
    s.requests.stages w = .processing n request ∧ s.made j = some m ∧ m.request = some n
  queued : ∀ n j, s.requests.ledger.ended n = some (.queued j) →
    .created j ∈ s.jobs.log ∧ ∃ m, s.made j = some m ∧ m.request = some n
  texts : TextsOf (fun j text ↦ ∃ m, s.made j = some m ∧ IsDataOf m.jobData text) s.jobs

variable {s s' : State W C} {w : W} {n : Nat}

omit [DecidableEq W] [DecidableEq C] in
theorem kept_initial : Kept codec ({} : State W C) where
  agents _ := .inl rfl
  issued _ _ h := nomatch h
  asked _ _ _ h := nomatch h
  once _ _ _ _ _ h := nomatch h
  ended _ _ _ h := nomatch h
  inHand _ _ h := nomatch h
  queued _ _ h := nomatch h
  texts := textsOf_initial

omit [DecidableEq W] in
theorem AskedFor.mono {r r' : Requests.State W} {text : String} {request : Request} {jobData : Json}
    (h : AskedFor codec r n w text request jobData)
    (htaken : ∀ (m : Nat) entry, r.ledger.taken[m]? = some entry →
      r'.ledger.taken[m]? = some entry) : AskedFor codec r' n w text request jobData :=
  ⟨htaken _ _ h.taken, h.read, h.executed⟩

omit [DecidableEq W] [DecidableEq C] in
theorem Kept.onRequests (h : Kept codec s) {r : Requests.State W} (hquiet : Quiet s.requests r) :
    Kept codec { s with requests := r } where
  agents := h.agents
  issued := h.issued
  asked j m n hj hm := by
    obtain ⟨w, text, request, hasked⟩ := h.asked j m n hj hm
    exact ⟨w, text, request, hasked.mono hquiet.taken⟩
  once := h.once
  ended j m n hj hm := by
    show r.ledger.ended n = _ ∨ _
    have hsame (hne : s.requests.ledger.ended n ≠ none) :
        r.ledger.ended n = s.requests.ledger.ended n := by
      rcases hquiet.ended n with hsame | ⟨hspare, -⟩
      · exact hsame
      · exact absurd hspare.1 hne
    rcases h.ended j m n hj hm with heq | heq | heq | ⟨w, request, hstage, hw⟩
    · exact .inl ((hsame (by rw [heq]; exact Option.some_ne_none _)).trans heq)
    · exact .inr (.inl ((hsame (by rw [heq]; exact Option.some_ne_none _)).trans heq))
    · exact .inr (.inr (.inl ((hsame (by rw [heq]; exact Option.some_ne_none _)).trans heq)))
    · exact .inr (.inr (.inr ⟨w, request, hquiet.stages w n request hstage, hw⟩))
  inHand w j hw := by
    obtain ⟨n, request, m, hstage, hrest⟩ := h.inHand w j hw
    exact ⟨n, request, m, hquiet.stages w n request hstage, hrest⟩
  queued n j hn := by
    rcases hquiet.ended n with hsame | ⟨-, hnot⟩
    · exact h.queued n j (hsame.symm.trans hn)
    · exact absurd hn (hnot j)
  texts := h.texts

omit [DecidableEq W] [DecidableEq C] in
theorem Kept.onJobs (h : Kept codec s) {jobs : Queue.State (W ⊕ C) String}
    (hagents : ∀ w, CreatesOnly (jobs.clients (.inl w)).pc) (hlog : s.jobs.log ⊆ jobs.log)
    (htexts : TextsOf (fun j text ↦ ∃ m, s.made j = some m ∧ IsDataOf m.jobData text) jobs) :
    Kept codec { s with jobs := jobs } where
  agents := hagents
  issued j m hj := hlog (h.issued j m hj)
  asked := h.asked
  once := h.once
  ended := h.ended
  inHand := h.inHand
  queued n j hn := ⟨hlog (h.queued n j hn).1, (h.queued n j hn).2⟩
  texts := htexts

omit [DecidableEq C] in
/-- A request in the hand of a worker has a job only if that worker called `create_job` for it. -/
theorem Kept.asked_of_processing (h : Kept codec s) (hkept : Requests.Kept codec s.requests)
    {request : Request} (hstage : s.requests.stages w = .processing n request) {j : String}
    {m : Creation} (hj : s.made j = some m) (hm : m.request = some n) : s.asked w = some j := by
  have hnumber : (s.requests.stages w).number? = some n := by rw [hstage]; rfl
  have hnone := hkept.sound.ended_of_held hnumber
  rcases h.ended j m n hj hm with heq | heq | heq | ⟨x, request', hx, hxj⟩
  · rw [hnone] at heq
    cases heq
  · rw [hnone] at heq
    cases heq
  · rw [hnone] at heq
    cases heq
  · have hheld : (s.requests.stages x).number? = some n := by rw [hx]; rfl
    rw [hkept.sound.holder_unique hheld hnumber] at hxj
    exact hxj

omit [DecidableEq C] in
/-- The processing of a request ends. -/
theorem Kept.finish (h : Kept codec s) (hkept : Requests.Kept codec s.requests) {request : Request}
    (hstage : s.requests.stages w = .processing n request) {fate : Requests.Fate}
    {next : Requests.Stage}
    (hqueued : ∀ j, fate = .queued j → s.asked w = some j ∧ .created j ∈ s.jobs.log)
    (hasked : ∀ j, s.asked w = some j → fate = .queued j ∨ fate = .failed ∨ fate = .killed) :
    Kept codec { s with
      requests := s.requests.finish w n fate next
      asked := Function.update s.asked w none } := by
  have hother {x : W} (hx : x ≠ w) :
      (s.requests.finish w n fate next).stages x = s.requests.stages x :=
    Function.update_of_ne hx _ _
  have hthis : (s.requests.finish w n fate next).ledger.ended n = some fate :=
    Function.update_self _ _ _
  have hrest {m : Nat} (hm : m ≠ n) :
      (s.requests.finish w n fate next).ledger.ended m = s.requests.ledger.ended m :=
    Function.update_of_ne hm _ _
  constructor
  · exact h.agents
  · exact h.issued
  · intro j m k hj hm
    obtain ⟨x, t, request', hasked⟩ := h.asked j m k hj hm
    exact ⟨x, t, request', hasked.mono fun _ _ ↦ id⟩
  · exact h.once
  · intro j m k hj hm
    show (s.requests.finish w n fate next).ledger.ended k = _ ∨ _
    by_cases hk : k = n
    · rw [hk] at hm
      rw [hk, hthis]
      rcases hasked j (h.asked_of_processing hkept hstage hj hm) with hfate | hfate | hfate
      · exact .inl (congrArg some hfate)
      · exact .inr (.inl (congrArg some hfate))
      · exact .inr (.inr (.inl (congrArg some hfate)))
    · rw [hrest hk]
      rcases h.ended j m k hj hm with heq | heq | heq | ⟨x, request', hx, hxj⟩
      · exact .inl heq
      · exact .inr (.inl heq)
      · exact .inr (.inr (.inl heq))
      · have hxw : x ≠ w := by
          rintro rfl
          rw [hstage] at hx
          cases hx
          exact hk rfl
        refine .inr (.inr (.inr ⟨x, request', (hother hxw).trans hx, ?_⟩))
        exact (Function.update_of_ne hxw _ _).trans hxj
  · intro x j hx
    have hupdated : Function.update s.asked w none x = some j := hx
    have hxw : x ≠ w := by
      rintro rfl
      rw [Function.update_self] at hupdated
      cases hupdated
    rw [Function.update_of_ne hxw] at hupdated
    obtain ⟨k, request', m, hk, hm⟩ := h.inHand x j hupdated
    exact ⟨k, request', m, (hother hxw).trans hk, hm⟩
  · intro k j hk
    have hended : (s.requests.finish w n fate next).ledger.ended k = some (.queued j) := hk
    by_cases hkn : k = n
    · rw [hkn, hthis] at hended
      obtain ⟨hw, hcreated⟩ := hqueued j (Option.some.inj hended)
      obtain ⟨k', request', m, hk', hm⟩ := h.inHand w j hw
      rw [hstage] at hk'
      cases hk'
      rw [hkn]
      exact ⟨hcreated, m, hm⟩
    · rw [hrest hkn] at hended
      exact h.queued k j hended
  · exact h.texts

/-- A client goes on in `create_job`, or is another one. -/
theorem createsOnly_step {a : Queue.Action (W ⊕ C) String} {jobs jobs' : Queue.State (W ⊕ C) String}
    (h : ∀ w, CreatesOnly (jobs.clients (.inl w)).pc)
    (ha : ∀ w op, a = .call (.inl w) op → ∃ j jobData, op = .create j jobData)
    (hs : Queue.step cfg jobs a = some jobs') (w : W) :
    CreatesOnly (jobs'.clients (.inl w)).pc := by
  have hset {c : W ⊕ C} {cl : Client String} (hc : c = .inl w → CreatesOnly cl.pc) :
      CreatesOnly (Function.update jobs.clients c cl (.inl w)).pc := by
    by_cases hcw : Sum.inl w = c
    · rw [hcw, Function.update_self]
      exact hc hcw.symm
    · rw [Function.update_of_ne hcw]
      exact h w
  cases Queue.step_cases hs with
  | @create c j jobData => exact hset fun _ ↦ .inr ⟨j, _, rfl⟩
  | next | reclaim | complete =>
    refine hset fun hc ↦ ?_
    obtain ⟨j, jobData, hop⟩ := ha w _ (by rw [hc])
    cases hop
  | @command c o alive runs =>
    refine hset fun hc ↦ ?_
    rw [hc] at runs
    rcases h w with hidle | ⟨j, p, hcreate⟩
    · rw [hidle] at runs
      cases runs
    · rw [hcreate] at runs
      cases runs
      cases p with
      | data | status => exact .inr ⟨j, _, rfl⟩
      | push => exact .inl rfl
  | @scan c jobIds alive atScan =>
    refine hset fun hc ↦ ?_
    rw [hc] at atScan
    rcases h w with hidle | ⟨j, p, hcreate⟩
    · rw [hidle] at atScan
      cases atScan
    · rw [hcreate] at atScan
      cases atScan
  | @error c pc alive raises =>
    refine hset fun hc ↦ ?_
    rcases afterError_cases raises with rfl | ⟨f, j, p, hpc, rfl⟩
    · exact .inl rfl
    · rw [hc] at hpc
      rcases h w with hidle | ⟨j', p', hcreate⟩
      · rw [hidle] at hpc
        cases hpc
      · rw [hcreate] at hpc
        cases hpc
  | @crash c alive =>
    refine hset fun hc ↦ ?_
    rw [hc]
    exact h w
  | tick => exact h w

/-- A step on the job queue that creates no job. -/
theorem Kept.jobStep (h : Kept codec s) {a : Queue.Action (W ⊕ C) String}
    (hcall : ∀ w op, a ≠ .call (.inl w) op)
    (hcreate : ∀ c j jobData, a ≠ .call c (.create j jobData))
    {jobs : Queue.State (W ⊕ C) String} (hs : Queue.step cfg s.jobs a = some jobs) :
    Kept codec { s with jobs := jobs } := by
  apply h.onJobs
  · exact createsOnly_step h.agents (fun w op hop ↦ absurd hop (hcall w op)) hs
  · exact log_subset hs
  · refine h.texts.step (fun j text ↦ ?_) (fun c j jobData hop ↦ ?_) hs
    · rintro ⟨m, hm, hdata⟩
      exact ⟨m, hm, hdata.restored⟩
    · exact absurd hop (hcreate c j jobData)

omit [DecidableEq W] [DecidableEq C] in
theorem isJobStep_spec {a : Queue.Action (W ⊕ C) String} (h : isJobStep a = true) :
    (∀ w op, a ≠ .call (.inl w) op) ∧ ∀ c j jobData, a ≠ .call c (.create j jobData) := by
  refine ⟨?_, ?_⟩
  · rintro w op rfl
    cases h
  · rintro (w | c) j jobData rfl <;> cases h

/-- Who calls `create_job`: another service, or a worker for the request in its hand. -/
inductive CalledBy (s : State W C) (j : String) (creation : Creation) (asked : W → Option String) :
    Prop where
  | elsewhere (request : creation.request = none) (same : asked = s.asked)
  | worker (w : W) (n : Nat) (request : Request) (found : ExecuteLocals)
    (made : creation.request = some n) (processing : s.requests.stages w = .processing n request)
    (first : s.asked w = none)
    (data : creation.jobData = .obj (executeLocals request found).jobData)
    (now : asked = Function.update s.asked w (some j))

section Create

variable {c : W ⊕ C} {i j : String} {creation m : Creation} {asked : W → Option String}

theorem Kept.made_eq_none (h : Kept codec s) {jobData : Json} {jobs : Queue.State (W ⊕ C) String}
    (hjobs : Queue.step cfg s.jobs (.call c (.create j jobData)) = some jobs) :
    s.made j = none := by
  cases hmade : s.made j with
  | none => rfl
  | some m =>
    cases Queue.step_cases hjobs with
    | create alive idle fresh => exact absurd (h.issued j m hmade) fresh

omit [DecidableEq W] [DecidableEq C] in
theorem made_of_update (hi : Function.update s.made j (some creation) i = some m) :
    (i = j ∧ m = creation) ∨ (i ≠ j ∧ s.made i = some m) := by
  by_cases hij : i = j
  · rw [hij, Function.update_self] at hi
    exact .inl ⟨hij, (Option.some.inj hi).symm⟩
  · rw [Function.update_of_ne hij] at hi
    exact .inr ⟨hij, hi⟩

omit [DecidableEq W] [DecidableEq C] in
theorem update_of_made (hfresh : s.made j = none) (hi : s.made i = some m) :
    Function.update s.made j (some creation) i = some m := by
  have hij : i ≠ j := by
    rintro rfl
    rw [hfresh] at hi
    cases hi
  rw [Function.update_of_ne hij]
  exact hi

omit [DecidableEq C] in
/-- The request of the new job has no other job. -/
theorem Kept.fresh_request (h : Kept codec s) (hkept : Requests.Kept codec s.requests)
    (hcalled : CalledBy s j creation asked) (hi : s.made i = some m) (hm : m.request = some n) :
    creation.request ≠ some n := by
  intro hn
  cases hcalled with
  | elsewhere hnone =>
    rw [hnone] at hn
    cases hn
  | worker w k request found hk hstage hfree =>
    rw [hk] at hn
    cases hn
    have hasked := h.asked_of_processing hkept hstage hi hm
    rw [hfree] at hasked
    cases hasked

omit [DecidableEq C] in
/-- What the workers have asked for stays so. -/
theorem CalledBy.asked_eq (hcalled : CalledBy s j creation asked) (hi : s.asked w = some i) :
    asked w = some i := by
  cases hcalled with
  | elsewhere _ hasked =>
    rw [hasked]
    exact hi
  | worker x k request found hk hstage hfree hdata hasked =>
    have hwx : w ≠ x := by
      rintro rfl
      rw [hfree] at hi
      cases hi
    rw [hasked, Function.update_of_ne hwx]
    exact hi

/-- `create_job` is called. -/
theorem Kept.create (h : Kept codec s) (hkept : Requests.Kept codec s.requests)
    (hcalled : CalledBy s j creation asked) {jobs : Queue.State (W ⊕ C) String}
    (hjobs : Queue.step cfg s.jobs (.call c (.create j creation.jobData)) = some jobs) :
    Kept codec { s with
      jobs := jobs
      asked := asked
      made := Function.update s.made j (some creation) } := by
  have hfresh := h.made_eq_none hjobs
  constructor
  · refine createsOnly_step h.agents (fun w op hop ↦ ?_) hjobs
    cases hop
    exact ⟨j, _, rfl⟩
  · intro i m hi
    rcases made_of_update hi with ⟨rfl, -⟩ | ⟨-, hi⟩
    · cases Queue.step_cases hjobs with
      | create => exact List.mem_cons_self
    · exact log_subset hjobs (h.issued i m hi)
  · intro i m n hi hm
    rcases made_of_update hi with ⟨-, rfl⟩ | ⟨-, hi⟩
    · cases hcalled with
      | elsewhere hnone =>
        rw [hnone] at hm
        cases hm
      | worker w k request found hk hstage _ hdata =>
        rw [hk] at hm
        cases hm
        have hfits := hkept.stages w
        rw [hstage] at hfits
        obtain ⟨text, message, htext, hloads, hread, -⟩ := hfits
        exact ⟨w, text, request, htext, ⟨message, hloads, hread⟩, found, hdata⟩
    · exact h.asked i m n hi hm
  · intro i i' m m' n hi hi' hm hm'
    rcases made_of_update hi with ⟨hij, rfl⟩ | ⟨-, hold⟩
    · rcases made_of_update hi' with ⟨hij', -⟩ | ⟨-, hold'⟩
      · rw [hij, hij']
      · exact absurd hm (h.fresh_request hkept hcalled hold' hm')
    · rcases made_of_update hi' with ⟨-, rfl⟩ | ⟨-, hold'⟩
      · exact absurd hm' (h.fresh_request hkept hcalled hold hm)
      · exact h.once i i' m m' n hold hold' hm hm'
  · intro i m n hi hm
    rcases made_of_update hi with ⟨rfl, rfl⟩ | ⟨-, hi⟩
    · cases hcalled with
      | elsewhere hnone =>
        rw [hnone] at hm
        cases hm
      | worker w k request found hk hstage _ _ hasked =>
        rw [hk] at hm
        cases hm
        refine .inr (.inr (.inr ⟨w, request, hstage, ?_⟩))
        show asked w = _
        rw [hasked, Function.update_self]
    · rcases h.ended i m n hi hm with heq | heq | heq | ⟨x, request', hx, hxi⟩
      · exact .inl heq
      · exact .inr (.inl heq)
      · exact .inr (.inr (.inl heq))
      · exact .inr (.inr (.inr ⟨x, request', hx, hcalled.asked_eq hxi⟩))
  · intro x i hx
    have hxi : asked x = some i := hx
    have hold (hx : s.asked x = some i) : ∃ n request m,
        s.requests.stages x = .processing n request ∧
          Function.update s.made j (some creation) i = some m ∧ m.request = some n := by
      obtain ⟨n, request, m, hstage, hi, hm⟩ := h.inHand x i hx
      exact ⟨n, request, m, hstage, update_of_made hfresh hi, hm⟩
    cases hcalled with
    | elsewhere _ hasked =>
      rw [hasked] at hxi
      exact hold hxi
    | worker w k request found hk hstage _ _ hasked =>
      by_cases hxw : x = w
      · rw [hasked, hxw, Function.update_self] at hxi
        cases hxi
        refine ⟨k, request, creation, ?_, Function.update_self _ _ _, hk⟩
        rw [hxw]
        exact hstage
      · rw [hasked, Function.update_of_ne hxw] at hxi
        exact hold hxi
  · intro n i hn
    obtain ⟨hcreated, m, hi, hm⟩ := h.queued n i hn
    exact ⟨log_subset hjobs hcreated, m, update_of_made hfresh hi, hm⟩
  · have hmono := h.texts.mono (Q := fun i text ↦
      ∃ m, Function.update s.made j (some creation) i = some m ∧ IsDataOf m.jobData text)
      fun i text ⟨m, hm, hdata⟩ ↦ ⟨m, update_of_made hfresh hm, hdata⟩
    refine hmono.step (fun i text ↦ ?_) (fun c' i jobData hop ↦ ?_) hjobs
    · rintro ⟨m, hm, hdata⟩
      exact ⟨m, hm, hdata.restored⟩
    · cases hop
      exact ⟨creation, Function.update_self _ _ _, .inl rfl⟩

end Create

theorem Kept.step (h : Kept codec s) (hkept : Requests.Kept codec s.requests) {a : Action W C}
    (hs : Handoff.step codec cfg s a = some s') : Kept codec s' := by
  cases step_cases hs with
  | request only runs => exact h.onRequests (quiet_step hkept only runs)
  | job only runs => exact h.jobStep (isJobStep_spec only).1 (isJobStep_spec only).2 runs
  | createElsewhere runs => exact h.create hkept (.elsewhere rfl rfl) runs
  | @create w j found n request jobs processing first runs =>
    exact h.create hkept (.worker w n request found rfl processing first rfl rfl) runs
  | @finish w result n request ends processing =>
    apply h.finish hkept processing
    · intro j hj
      cases result with
      | jobId id =>
        cases hj
        simp only [State.canEnd, Bool.and_eq_true, decide_eq_true_eq] at ends
        exact ⟨ends.1.1, ends.1.2⟩
      | ignored | raised => cases hj
    · intro j hj
      cases result with
      | jobId id =>
        simp only [State.canEnd, Bool.and_eq_true, decide_eq_true_eq] at ends
        have hsame := hj.symm.trans ends.1.1
        cases hsame
        exact .inl rfl
      | ignored =>
        simp only [State.canEnd, decide_eq_true_eq] at ends
        rw [ends] at hj
        cases hj
      | raised => exact .inr (.inl rfl)
  | @kill w replyLost r jobs kills crashes =>
    have hcrash : Kept codec { s with jobs := jobs } :=
      h.jobStep (fun _ _ hop ↦ by cases hop) (fun _ _ _ hop ↦ by cases hop) crashes
    rcases kill_cases hkept kills with ⟨n, request, hstage, rfl⟩ | ⟨hquiet, hfree⟩
    · exact hcrash.finish hkept hstage (fun _ hj ↦ by cases hj) fun _ _ ↦ .inr (.inr rfl)
    · have hasked : Function.update s.asked w none = s.asked := by
        apply Function.update_eq_self_iff.mpr
        cases hw : s.asked w with
        | none => rfl
        | some j =>
          obtain ⟨n, request, m, hstage, -⟩ := h.inHand w j hw
          exact absurd hstage (hfree n request)
      rw [hasked]
      exact hcrash.onRequests hquiet

/-! ### The two parts -/

theorem step_requests {a : Action W C} (hs : Handoff.step codec cfg s a = some s') :
    System.Seen (Requests.requests codec) System.always s.requests s'.requests := by
  cases step_cases hs with
  | @request a r only runs => exact .step a trivial runs
  | job | createElsewhere | create => exact .same rfl
  | @finish w result n request ends processing =>
    refine .step (.finish w result) trivial ?_
    show Requests.step codec s.requests (.finish w result) = _
    simp only [Requests.step, processing]
  | @kill w replyLost r jobs kills crashes => exact .step (.kill w replyLost) trivial kills

omit [DecidableEq W] [DecidableEq C] in
/-- An agent worker has no job in its hand that it could lose. -/
theorem keepsJobs_crash (h : Kept codec s) (w : W) : KeepsJobs s.jobs (.crash (.inl w)) := by
  intro j hj
  rcases h.agents w with hidle | ⟨i, p, hcreate⟩
  · rw [hidle] at hj
    cases hj
  · rw [hcreate] at hj
    cases hj

theorem step_jobs (h : Kept codec s) {a : Action W C} (ha : Keeps s a)
    (hs : Handoff.step codec cfg s a = some s') :
    System.Seen (Queue.system cfg) KeepsJobs s.jobs s'.jobs := by
  cases step_cases hs with
  | request | finish => exact .same rfl
  | @job a jobs only runs => exact .step a ha runs
  | @createElsewhere c j jobData jobs runs =>
    exact .step (.call (.inr c) (.create j jobData)) trivial runs
  | @create w j found n request jobs processing first runs =>
    exact .step (.call (.inl w) (.create j _)) trivial runs
  | @kill w replyLost r jobs kills crashes =>
    exact .step (.crash (.inl w)) (keepsJobs_crash h w) crashes

/-- The request queue runs as it does by itself. -/
theorem contains_requests {ok : State W C → Action W C → Prop} :
    System.Contains (handoff codec cfg) ok (Requests.requests codec) System.always
      State.requests where
  init s hs := by
    rw [hs]
    rfl
  step _ _ _ _ _ hs := step_requests hs

theorem requestsKept_of_reachWhen {ok : State W C → Action W C → Prop}
    (h : (handoff codec cfg).ReachWhen ok s) : Requests.Kept codec s.requests := by
  apply (contains_requests.reachWhen h).invariant
  · rintro _ rfl
    exact Requests.kept_initial
  · exact fun t a t' ht _ hstep ↦ ht.step hstep

theorem kept_of_reachWhen {ok : State W C → Action W C → Prop}
    (h : (handoff codec cfg).ReachWhen ok s) : Kept codec s := by
  apply h.invariant_of fun t ht ↦ requestsKept_of_reachWhen ht
  · rintro _ rfl
    exact kept_initial
  · exact fun t a t' hkept ht _ hstep ↦ ht.step hkept hstep

/-- The job queue runs as it does by itself. -/
theorem contains_jobs :
    System.Contains (handoff codec cfg) Keeps (Queue.system cfg) KeepsJobs State.jobs where
  init s hs := by
    rw [hs]
    rfl
  step _ _ _ hreach hok hs := step_jobs (kept_of_reachWhen hreach) hok hs

theorem jobsKept_of_reachWhen (h : (handoff codec cfg).ReachWhen Keeps s) : Queue.Kept s.jobs := by
  refine (contains_jobs.reachWhen h).invariant_of (fun t ht ↦ sound_of_reachWhen ht) ?_ ?_
  · rintro _ rfl
    exact Queue.kept_initial
  · exact fun t a t' hsound ht hok hstep ↦ ht.step hsound hok hstep

omit [DecidableEq W] [DecidableEq C] in
/-- A message that was taken is one of those pushed. -/
theorem getElem?_pushed {r : Requests.State W} (h : r.ledger.items = r.pushed) {text : String}
    (htaken : r.ledger.taken[n]? = some (w, text)) : r.pushed[n]? = some text := by
  have hmap : (r.ledger.taken.map Prod.snd)[n]? = some text := by
    rw [List.getElem?_map, htaken]
    rfl
  rw [← h, Ledger.items, List.getElem?_append_left (List.getElem?_eq_some_iff.mp hmap).1]
  exact hmap

/-- However the services interleave, and as long as the job queue keeps its jobs, requests are
handed over. -/
theorem handedOver_of_reachWhen (h : (handoff codec cfg).ReachWhen Keeps s) :
    HandedOver codec s := by
  have hrequests := requestsKept_of_reachWhen h
  have hkept := kept_of_reachWhen h
  have hjobs := jobsKept_of_reachWhen h
  constructor
  · exact fun c job hjob ↦ hkept.texts.jobs c job hjob
  · intro j m n hj hm
    obtain ⟨w, text, request, hasked⟩ := hkept.asked j m n hj hm
    exact ⟨w, text, request, hasked, getElem?_pushed hrequests.pushed hasked.taken⟩
  · exact hkept.once
  · exact hkept.ended
  · intro n j hn
    obtain ⟨hcreated, hmade⟩ := hkept.queued n j hn
    refine ⟨hmade, ?_⟩
    by_cases hstored : .stored j ∈ s.jobs.log
    · exact .inl hstored
    · exact .inr (hjobs.tracked hcreated hstored)

end System

instance (s : State (Fin 1) (Fin 1)) : (a : Action (Fin 1) (Fin 1)) → Decidable (Keeps s a)
  | .job a => inferInstanceAs (Decidable (KeepsJobs s.jobs a))
  | .request _ | .createElsewhere _ _ _ | .create _ _ _ | .finish _ _ | .kill _ _ => .isTrue trivial

/-- A request is queued as a job, which a sandbox worker pulls. -/
theorem handedOver_of_reachWhen_pulled : ∃ s : State (Fin 1) (Fin 1),
    ((s.requests.ledger.ended 0).any (·.isActivity) ∧
      (s.jobs.clients (.inr 0)).jobs.map Prod.fst = ["j"]) ∧
      HandedOver Requests.oneRequest s := by
  obtain ⟨s, hs, hend⟩ := System.exists_reachWhen
    (handoff Requests.oneRequest (⟨fun _ ↦ 3600, fun _ ↦ true⟩ : Config (Fin 1 ⊕ Fin 1) String))
    Keeps
    (fun s ↦ (s.requests.ledger.ended 0).any (·.isActivity) ∧
      (s.jobs.clients (.inr 0)).jobs.map Prod.fst = ["j"])
    ([.request (.publish .null .done), .request (.pop 0), .request (.decode 0),
      .request (.call 0), .create 0 "j" locals12] ++
      List.replicate 3 (.job (.command (.inl 0))) ++
      [.finish 0 (.jobId "j"), .job (.call (.inr 0) .next)] ++
      List.replicate 6 (.job (.command (.inr 0))))
    rfl (by decide +kernel)
  exact ⟨s, hend, handedOver_of_reachWhen hs⟩

end GithubAgent.Queue.Handoff
