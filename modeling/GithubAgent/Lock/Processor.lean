import GithubAgent.Lock.WorktreeLock
import Mathlib.Algebra.BigOperators.Group.Finset.Basic

/-!
# Jobs that set up their worktree

The part of `JobProcessor._setup_worktree` that takes the worktree lock
(`src/services/sandbox_executor/processor.py:181-229`), and the `_cleanup` that gives it
back. The jobs of the system are persistent jobs of one worktree key; a job that finds the
lock taken leaves its prompt in the pending key, signals the holder, waits, and takes over
whatever prompt the pending key then holds.
-/

namespace GithubAgent.Lock

open GithubAgent.Base GithubAgent.Shared

/-- The next command of a job. `wait` is the loop of `wait_for_release`; `session` is
`SessionStore.get_session`. -/
inductive JobPc where
  | acquire
  | lockInfo
  | setPending
  | cancel
  | wait (w : Wait)
  | reacquire
  | getPending
  | session
  | running
  | release
  | ended
  deriving DecidableEq

/-- `session_mode` (`processor.py:60`). -/
inductive SessionMode where
  | new
  | resume
  | other (mode : String)
  deriving DecidableEq

/-- A job of the key: what it was created with. One job id stands for one `job_data`. -/
structure Jobs (C : Type) where
  key : WorktreeKey
  jobId : C → String
  pid : C → Nat
  prompt : C → String
  sessionMode : C → SessionMode
  sessionId : C → Option String
  sameData : ∀ c c', jobId c = jobId c' → prompt c = prompt c'

/-- One `JobProcessor`: `prompt` is `job_data["prompt"]`, and `executed` the prompt with which
`_setup_worktree` returned. -/
structure Processor where
  alive : Bool
  pc : JobPc
  prompt : String
  sessionMode : SessionMode
  sessionId : Option String
  executed : Option String

/-- Redis and the processors of all jobs. -/
structure JobState (C : Type) where
  now : Nat
  redis : Redis
  jobs : C → Processor

/-- `_setup_worktree` returns: the job goes on to execute its prompt. -/
def Processor.run (p : Processor) : Processor :=
  { p with pc := .running, executed := some p.prompt }

/-- The exception that ends `_setup_worktree`, or the end of the run: `_cleanup` releases the
lock if this job acquired it. -/
def Processor.cleanup (p : Processor) : Processor :=
  match p.pc with
  | .getPending => { p with pc := .release }
  | .session => { p with pc := .release }
  | .running => { p with pc := .release }
  | _ => { p with pc := .ended }

section Processors

variable {C : Type}

/-- The next command of a job, and where its reply leaves the job (`processor.py:191-229`). -/
def jobCommand (cfg : Jobs C) (c : C) (now : Nat) (r : Redis) (p : Processor) :
    Option (Redis × Processor) :=
  match p.pc with
  | .acquire =>
    match setLock r now cfg.key { jobId := cfg.jobId c, pid := some (cfg.pid c) } 600 with
    | (r', true) => some (r', p.run)
    | (r', false) => some (r', { p with pc := .lockInfo })
  | .lockInfo => some (r, { p with pc := .setPending })
  | .setPending =>
    some (setPendingPrompt r now cfg.key (cfg.jobId c) p.prompt, { p with pc := .cancel })
  | .cancel => some (r, { p with pc := .wait ⟨300, 0, now⟩ })
  | .wait w =>
    if now < w.wakeAt then none
    else
      match waitForRelease r now cfg.key w with
      | .inl w => some (r, { p with pc := .wait w })
      | .inr true => some (r, { p with pc := .reacquire })
      | .inr false => some (r, p.cleanup)
  | .reacquire =>
    match setLock r now cfg.key { jobId := cfg.jobId c, pid := some (cfg.pid c) } 600 with
    | (r', true) => some (r', { p with pc := .getPending })
    | (r', false) => some (r', p.cleanup)
  | .getPending =>
    match getPendingPrompt r now cfg.key with
    | (r', none) => some (r', p.run)
    | (r', some pending) => some (r', { p with pc := .session, prompt := pending.prompt })
  | .session => none
  | .running => none
  | .release => some ((releaseScript r now cfg.key (cfg.jobId c)).1, { p with pc := .ended })
  | .ended => none

/-- The reply of `get_session` decides between resuming and starting fresh
(`processor.py:218-229`). -/
def Processor.resume (p : Processor) (existing : Option String) : Processor :=
  match existing with
  | some sessionId => { p with sessionMode := .resume, sessionId := some sessionId }.run
  | none => { p with sessionMode := .new }.run

/-- One step: the next command of a job, the reply of its `get_session`, the end of its run,
an exception in its setup, its crash, or the passing of time. -/
inductive JobAction (C : Type) where
  | command (c : C)
  | session (c : C) (existing : Option String)
  | finish (c : C)
  | error (c : C)
  | crash (c : C)
  | tick (ms : Nat)

variable [DecidableEq C]

/-- The state with one processor replaced. -/
def JobState.setJob (s : JobState C) (c : C) (p : Processor) : JobState C :=
  { s with jobs := Function.update s.jobs c p }

/-- One step of the system; a crashed worker takes none. -/
def jobStep (cfg : Jobs C) (s : JobState C) : JobAction C → Option (JobState C)
  | .command c =>
    if (s.jobs c).alive then
      (jobCommand cfg c s.now s.redis (s.jobs c)).map fun (r, p) ↦ { s.setJob c p with redis := r }
    else none
  | .session c existing =>
    if (s.jobs c).alive ∧ (s.jobs c).pc = .session then
      some (s.setJob c ((s.jobs c).resume existing))
    else none
  | .finish c =>
    if (s.jobs c).alive ∧ (s.jobs c).pc = .running then some (s.setJob c (s.jobs c).cleanup)
    else none
  | .error c =>
    if (s.jobs c).alive then some (s.setJob c (s.jobs c).cleanup) else none
  | .crash c =>
    if (s.jobs c).alive then some (s.setJob c { s.jobs c with alive := false }) else none
  | .tick ms => some { s with now := s.now + ms }

/-- Every job stands before its first `acquire`. -/
def jobInitial (cfg : Jobs C) : JobState C where
  now := 0
  redis := .empty
  jobs := fun c ↦ ⟨true, .acquire, cfg.prompt c, cfg.sessionMode c, cfg.sessionId c, none⟩

/-- The system of all jobs of one worktree key. -/
def jobSystem (cfg : Jobs C) : System (JobState C) (JobAction C) where
  init := fun s ↦ s = jobInitial cfg
  step := jobStep cfg

end Processors

end GithubAgent.Lock
