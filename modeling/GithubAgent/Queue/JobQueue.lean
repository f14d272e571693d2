import GithubAgent.Base.Json
import GithubAgent.Base.Keys
import GithubAgent.Base.Transition
import Mathlib.Data.Fintype.Basic

/-!
# The job queue and its clients

`src/shared/job_queue.py`: any number of `JobQueue` clients share one Redis. Each client runs
one of `create_job`, `get_next_job`, `complete_job` and `reclaim_stale_jobs` at a time, and
each Redis command of these is one step. A client may crash, or meet an `OSError` instead of
its next command, between any two commands; keys expire as the clock advances.

Job ids are an arbitrary type: `str(uuid.uuid4())` yields an id that was never issued before
and that `_validate_job_id` accepts.
-/

namespace GithubAgent.Queue

open GithubAgent.Base

/-- Values of the status key; `done` carries the status given to `complete_job`. -/
inductive JobStatus where
  | pending
  | processing
  | done (label : String)
  deriving DecidableEq

/-- An entry of the dead-letter list (`job_queue.py:192-196`, `:236-241`). -/
structure DeadLetter (J : Type) where
  jobId : J
  reason : String
  timestamp : Nat

/-- The keys, list and sets of `JobQueue.__init__` (`job_queue.py:48-54`). -/
structure Redis (J : Type) where
  data : Keys J JsonText
  backup : Keys J JsonText
  status : Keys J JobStatus
  started : Keys J Nat
  result : Keys J JsonText
  pending : List J
  processing : Finset J
  deadLetter : List (DeadLetter J)

/-- An empty Redis. -/
def Redis.empty {J : Type} : Redis J where
  data := .empty
  backup := .empty
  status := .empty
  started := .empty
  result := .empty
  pending := []
  processing := ∅
  deadLetter := []

/-! ### Where a client stands between two commands -/

/-- The next command of `create_job` (`job_queue.py:129-148`). -/
inductive CreatePc where
  | data (jobData : Json)
  | status
  | push

/-- The next command of `get_next_job` (`job_queue.py:170-253`). `expired` and `corrupt` are
about to write the dead letter; the later states carry `job_data_json`. -/
inductive NextPc (J : Type) where
  | pop
  | data (j : J)
  | expired (j : J)
  | corrupt (j : J)
  | add (j : J) (text : JsonText)
  | status (j : J) (text : JsonText)
  | backup (j : J) (text : JsonText)
  | started (j : J) (text : JsonText)

/-- The next command of `complete_job` (`job_queue.py:272-290`). -/
inductive CompletePc where
  | result (value : Json)
  | status
  | remove
  | backup
  | started

/-- The locals of the loop of `reclaim_stale_jobs`: the members it read, those still to
visit and the count so far. -/
structure Frame (J : Type) where
  jobIds : List J
  rest : List J
  reclaimed : Nat

/-- The next command of one turn of the loop of `reclaim_stale_jobs` (`job_queue.py:360-410`).
`restore` to `dropStarted` form the branch that re-queues the job; `zombie` is the other one. -/
inductive ReclaimPc where
  | exists
  | backup
  | restore (text : JsonText)
  | status
  | push
  | remove
  | dropBackup
  | dropStarted
  | zombie

/-- The operation a client is in, and its next command. -/
inductive Pc (J : Type) where
  | idle
  | create (j : J) (p : CreatePc)
  | next (p : NextPc J)
  | complete (j : J) (label : String) (p : CompletePc)
  | members
  | reclaim (f : Frame J) (j : J) (p : ReclaimPc)

/-- What the caller of a client, or Redis, has seen happen. -/
inductive Event (J : Type) where
  | issued (j : J)
  | created (j : J)
  | pulled (j : J)
  | stored (j : J)
  | completed (j : J)
  deriving DecidableEq

/-- One client: `jobs` are the jobs its callers pulled and have not passed to `complete_job`. -/
structure Client (J : Type) where
  alive : Bool
  pc : Pc J
  jobs : List (J × JsonText)

/-- The parameters of the clients: each one's `job_ttl`, and `_validate_job_id`. -/
structure Config (C J : Type) where
  jobTtl : C → Nat
  validateJobId : J → Bool

/-- Redis, the clients, and the history of events, latest first. -/
structure State (C J : Type) where
  now : Nat
  redis : Redis J
  clients : C → Client J
  log : List (Event J)

/-- The Redis a command leaves, where its client then stands, and the event it makes. -/
structure Outcome (J : Type) where
  redis : Redis J
  pc : Pc J
  event : Option (Event J) := none

/-! ### The commands of the four operations -/

section Commands

variable {J : Type} [DecidableEq J]

/-- A read whose reply is tested for truth, as `job_data_json` and `backup_json` are. -/
def readText (m : Keys J JsonText) (now : Nat) (j : J) : Option JsonText :=
  (m.get now j).filter JsonText.truthy

/-- `create_job` (`job_queue.py:129-148`). -/
def createJob (ttl now : Nat) (r : Redis J) (j : J) : CreatePc → Outcome J
  | .data jobData =>
    { redis := { r with data := r.data.setex now j ttl (.dumps jobData) }
      pc := .create j .status }
  | .status =>
    { redis := { r with status := r.status.setex now j ttl .pending }
      pc := .create j .push }
  | .push =>
    { redis := { r with pending := r.pending ++ [j] }
      pc := .idle
      event := some (.created j) }

/-- `get_next_job` (`job_queue.py:170-228`); a pop that times out returns `None`. -/
def getNextJob (valid : J → Bool) (ttl now : Nat) (r : Redis J) : NextPc J → Outcome J
  | .pop =>
    match r.pending with
    | [] => { redis := r, pc := .idle }
    | j :: rest =>
      { redis := { r with pending := rest }
        pc := if valid j then .next (.data j) else .idle }
  | .data j =>
    { redis := r
      pc :=
        match readText r.data now j with
        | none => .next (.expired j)
        | some text =>
          match text.loads with
          | none => .next (.corrupt j)
          | some _ => .next (.add j text) }
  | .expired j =>
    { redis := { r with deadLetter := r.deadLetter ++ [⟨j, "data_expired", now⟩] }
      pc := .idle }
  | .corrupt j =>
    { redis := { r with deadLetter := r.deadLetter ++ [⟨j, "json_decode_error", now⟩] }
      pc := .idle }
  | .add j text =>
    { redis := { r with processing := insert j r.processing }
      pc := .next (.status j text) }
  | .status j text =>
    { redis := { r with status := r.status.setex now j ttl .processing }
      pc := .next (.backup j text) }
  | .backup j text =>
    { redis := { r with backup := r.backup.setex now j (ttl * 2) text }
      pc := .next (.started j text) }
  | .started j _ =>
    { redis := { r with started := r.started.setex now j ttl now }
      pc := .idle
      event := some (.pulled j) }

/-- `complete_job` (`job_queue.py:272-290`). -/
def completeJob (ttl now : Nat) (r : Redis J) (j : J) (label : String) : CompletePc → Outcome J
  | .result value =>
    { redis := { r with result := r.result.setex now j ttl (.dumps value) }
      pc := .complete j label .status
      event := some (.stored j) }
  | .status =>
    { redis := { r with status := r.status.setex now j ttl (.done label) }
      pc := .complete j label .remove }
  | .remove =>
    { redis := { r with processing := r.processing.erase j }
      pc := .complete j label .backup }
  | .backup =>
    { redis := { r with backup := r.backup.del j }
      pc := .complete j label .started }
  | .started =>
    { redis := { r with started := r.started.del j }
      pc := .idle
      event := some (.completed j) }

/-- The next turn of the loop of `reclaim_stale_jobs`, or its return. -/
def nextTurn (f : Frame J) : Pc J :=
  match f.rest with
  | [] => .idle
  | j :: rest => .reclaim { f with rest := rest } j .exists

/-- The backup without its token, as a restored job carries it (`job_queue.py:376-381`). -/
def restoredText (backup : JsonText) : JsonText :=
  match backup.loads with
  | some (.obj fields) => .dumps (.obj (Json.erase "github_token" fields))
  | _ => backup

/-- `reclaim_stale_jobs`, one turn of its loop (`job_queue.py:360-408`). -/
def reclaimStaleJob (ttl now : Nat) (r : Redis J) (f : Frame J) (j : J) : ReclaimPc → Outcome J
  | .exists =>
    { redis := r
      pc := if r.data.has now j then nextTurn f else .reclaim f j .backup }
  | .backup =>
    { redis := r
      pc :=
        match readText r.backup now j with
        | some text => .reclaim f j (.restore (restoredText text))
        | none => .reclaim f j .zombie }
  | .restore text =>
    { redis := { r with data := r.data.setex now j ttl text }
      pc := .reclaim f j .status }
  | .status =>
    { redis := { r with status := r.status.setex now j ttl .pending }
      pc := .reclaim f j .push }
  | .push =>
    { redis := { r with pending := r.pending ++ [j] }
      pc := .reclaim f j .remove }
  | .remove =>
    { redis := { r with processing := r.processing.erase j }
      pc := .reclaim f j .dropBackup }
  | .dropBackup =>
    { redis := { r with backup := r.backup.del j }
      pc := .reclaim f j .dropStarted }
  | .dropStarted =>
    { redis := { r with started := r.started.del j }
      pc := nextTurn { f with reclaimed := f.reclaimed + 1 } }
  | .zombie =>
    { redis := { r with processing := r.processing.erase j }
      pc := nextTurn f }

/-- The next command of a client; `SMEMBERS` is the action `scan`, whose reply has no order. -/
def command (valid : J → Bool) (ttl now : Nat) (r : Redis J) : Pc J → Option (Outcome J)
  | .idle => none
  | .create j p => some (createJob ttl now r j p)
  | .next p => some (getNextJob valid ttl now r p)
  | .complete j label p => some (completeJob ttl now r j label p)
  | .members => none
  | .reclaim f j p => some (reclaimStaleJob ttl now r f j p)

/-- Where an `OSError` in place of the next command leaves a client: the loop of the
reclaimer goes on with the next job, every other operation returns or raises. -/
def afterError : Pc J → Option (Pc J)
  | .idle => none
  | .reclaim f _ _ => some (nextTurn f)
  | _ => some .idle

end Commands

/-! ### The system of clients -/

/-- A call of one of the four operations by an idle client. -/
inductive Call (J : Type) where
  | create (j : J) (jobData : Json)
  | next
  | complete (j : J) (result : Json) (label : String)
  | reclaim

/-- One step: a call, the next command of a client, the reply of its `SMEMBERS`, an `OSError`
in place of its next command, its crash, or the passing of time. -/
inductive Action (C J : Type) where
  | call (c : C) (op : Call J)
  | command (c : C)
  | scan (c : C) (jobIds : List J)
  | error (c : C)
  | crash (c : C)
  | tick (ms : Nat)

section Replies

variable {J : Type}

/-- The job a returning `get_next_job` hands to its caller. -/
def pulledJob : Pc J → List (J × JsonText)
  | .next (.started j text) => [(j, text)]
  | _ => []

/-- The client once its command has replied. -/
def Client.replied (cl : Client J) (o : Outcome J) : Client J :=
  ⟨cl.alive, o.pc, pulledJob cl.pc ++ cl.jobs⟩

@[simp] theorem Client.replied_alive (cl : Client J) (o : Outcome J) :
    (cl.replied o).alive = cl.alive := rfl

@[simp] theorem Client.replied_pc (cl : Client J) (o : Outcome J) : (cl.replied o).pc = o.pc := rfl

@[simp] theorem Client.replied_jobs (cl : Client J) (o : Outcome J) :
    (cl.replied o).jobs = pulledJob cl.pc ++ cl.jobs := rfl

end Replies

section Step

variable {C J : Type} [DecidableEq C] [DecidableEq J]

/-- The state with one client replaced. -/
def State.setClient (s : State C J) (c : C) (cl : Client J) : State C J :=
  { s with clients := Function.update s.clients c cl }

/-- The state after a command of a client has taken effect and replied. -/
def State.after (s : State C J) (c : C) (o : Outcome J) : State C J :=
  { s with
    redis := o.redis
    clients := Function.update s.clients c ((s.clients c).replied o)
    log := o.event.toList ++ s.log }

/-- A call brings an idle client before its first command. `create_job` draws an unused id,
and `complete_job` is called on an id that `create_job` made. -/
def call (cfg : Config C J) (s : State C J) (c : C) : Call J → Option (State C J)
  | .create j jobData =>
    if .issued j ∉ s.log ∧ cfg.validateJobId j then
      some { s.setClient c { s.clients c with pc := .create j (.data jobData) } with
        log := .issued j :: s.log }
    else none
  | .next => some (s.setClient c { s.clients c with pc := .next .pop })
  | .complete j result label =>
    if .created j ∈ s.log then
      some (s.setClient c
        { s.clients c with
          pc := .complete j label (.result result)
          jobs := (s.clients c).jobs.filter fun job ↦ job.1 ≠ j })
    else none
  | .reclaim => some (s.setClient c { s.clients c with pc := .members })

/-- One step of the system; a crashed client takes none. -/
def step (cfg : Config C J) (s : State C J) : Action C J → Option (State C J)
  | .call c op =>
    match (s.clients c).alive, (s.clients c).pc with
    | true, .idle => call cfg s c op
    | _, _ => none
  | .command c =>
    if (s.clients c).alive then
      (command cfg.validateJobId (cfg.jobTtl c) s.now s.redis (s.clients c).pc).map (s.after c)
    else none
  | .scan c jobIds =>
    match (s.clients c).alive, (s.clients c).pc with
    | true, .members =>
      if jobIds.Nodup ∧ jobIds.toFinset = s.redis.processing then
        some (s.setClient c { s.clients c with pc := nextTurn ⟨jobIds, jobIds, 0⟩ })
      else none
    | _, _ => none
  | .error c =>
    if (s.clients c).alive then
      (afterError (s.clients c).pc).map fun pc ↦ s.setClient c { s.clients c with pc := pc }
    else none
  | .crash c =>
    if (s.clients c).alive then some (s.setClient c { s.clients c with alive := false })
    else none
  | .tick ms => some { s with now := s.now + ms }

/-- Every client is idle before an empty Redis. -/
def initial : State C J where
  now := 0
  redis := .empty
  clients := fun _ ↦ ⟨true, .idle, []⟩
  log := []

/-- The system of all clients over one Redis. -/
def system (cfg : Config C J) : System (State C J) (Action C J) where
  init := fun s ↦ s = initial
  step := step cfg

end Step

end GithubAgent.Queue
