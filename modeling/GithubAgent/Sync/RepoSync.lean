import GithubAgent.Base.Keys
import GithubAgent.Base.Transition
import Mathlib.Data.Fintype.Basic

/-!
# Waiting for a repository sync

`wait_for_repo_sync` (`src/shared/queue.py:262-340`) and the repo-sync worker's
`process_sync_request` (`src/services/repo_sync/sync_worker.py:35-167`). Any number of
callers and workers share the completion keys, the lock of each repository, the request
queue and the event channel. A published event reaches exactly the callers subscribed at
that time.
-/

namespace GithubAgent.Sync

open GithubAgent.Base

/-- A message of the request queue. The worker drops messages without a repository. -/
structure Request where
  repo : String
  ref : String
  named : repo ≠ ""
  deriving DecidableEq

/-- The `status` of an event, with the text of its `error`. -/
inductive SyncStatus where
  | complete
  | error (message : String)
  deriving DecidableEq

/-- A message of the channel `agent:sync:events`. -/
structure Event where
  request : Request
  status : SyncStatus
  deriving DecidableEq

/-- Where a caller of `wait_for_repo_sync` stands: its next command, or the messages not yet
read from its subscription. -/
inductive CallerPc where
  | idle
  | complete (q : Request)
  | lock (q : Request)
  | request (q : Request)
  | subscribe (q : Request)
  | listen (q : Request) (startTime : Nat) (inbox : List Event)
  deriving DecidableEq

/-- One caller, with the value it returned or the message it raised last. -/
structure Caller where
  pc : CallerPc
  result : Option (Except String String)

/-- Where a worker stands in `process_sync_request`; `acquire` carries the locals of the
blocking acquisition of the lock. -/
inductive WorkerPc where
  | idle
  | token (q : Request)
  | acquire (q : Request) (stopAt wakeAt : Nat)
  | git (q : Request)
  | mark (q : Request)
  | publish (q : Request) (status : SyncStatus)
  | release (q : Request)

/-- The timeouts: each caller's, and `REPO_SYNC_LOCK_TIMEOUT`, in seconds. -/
structure Config (C : Type) where
  timeout : C → Nat
  lockTimeout : Nat

/-- Redis, the bare clones on disk, the callers and the workers. -/
structure State (C W : Type) where
  now : Nat
  complete : Keys (String × String) Unit
  locks : Keys String W
  queue : List Request
  cloned : String → Bool
  callers : C → Caller
  workers : W → WorkerPc

/-- `repo_dir` (`queue.py:282`). -/
def repoDir (repo : String) : String := "/var/cache/repos/" ++ repo ++ ".git"

/-- The text of a sync timeout (`queue.py:313-316`). -/
def timeoutError (repo timeout : String) : String :=
  "Sync timeout for " ++ repo ++ " after " ++ timeout ++ "s - repo sync worker may be down"

/-- The text of a failed sync (`queue.py:326-329`). -/
def syncError (repo message : String) : String :=
  "Repo sync failed for " ++ repo ++ ": " ++ message

section Caller

variable {C W : Type}

/-- The next command of a caller, and where its reply leaves the caller and the queue; `none`
while it is idle or blocked (`queue.py:284-332`). -/
def callerCommand (cfg : Config C) (c : C) (s : State C W) : Option (List Request × Caller) :=
  let caller := s.callers c
  match caller.pc with
  | .idle => none
  | .complete q =>
    if s.complete.has s.now (q.repo, q.ref) ∧ s.cloned q.repo then
      some (s.queue, ⟨.idle, some (.ok (repoDir q.repo))⟩)
    else some (s.queue, { caller with pc := .lock q })
  | .lock q =>
    if s.locks.has s.now q.repo then some (s.queue, { caller with pc := .subscribe q })
    else some (s.queue, { caller with pc := .request q })
  | .request q => some (s.queue ++ [q], { caller with pc := .subscribe q })
  | .subscribe q => some (s.queue, { caller with pc := .listen q s.now [] })
  | .listen q startTime inbox =>
    match inbox with
    | [] => none
    | e :: rest =>
      if startTime + 1000 * cfg.timeout c < s.now then
        some (s.queue, ⟨.idle, some (.error (timeoutError q.repo (toString (cfg.timeout c))))⟩)
      else if e.request = q then
        match e.status with
        | .complete => some (s.queue, ⟨.idle, some (.ok (repoDir q.repo))⟩)
        | .error message => some (s.queue, ⟨.idle, some (.error (syncError q.repo message))⟩)
      else some (s.queue, { caller with pc := .listen q startTime rest })

/-- A subscribed caller receives a published event. -/
def Caller.deliver (caller : Caller) (e : Event) : Caller :=
  match caller.pc with
  | .listen q startTime inbox => { caller with pc := .listen q startTime (inbox ++ [e]) }
  | _ => caller

end Caller

/-- How the git commands of a run end (`sync_worker.py:79-141`, `:154-165`). -/
inductive GitOutcome where
  | synced
  | cloneFailed (err : String)
  | fetchFailed (err : String)
  | raised (err : String)

/-- The event of an outcome that is not a success. -/
def GitOutcome.failure : GitOutcome → Option SyncStatus
  | .synced => none
  | .cloneFailed err => some (.error ("Clone failed: " ++ err))
  | .fetchFailed err => some (.error ("Fetch failed: " ++ err))
  | .raised err => some (.error err)

section Worker

variable {C W : Type} [DecidableEq W]

/-- The worker's state replaced. -/
def State.setWorker (s : State C W) (w : W) (pc : WorkerPc) : State C W :=
  { s with workers := Function.update s.workers w pc }

/-- The next command of a worker; `none` while it is blocked or asleep. Each failed attempt to
take the lock sleeps 100 ms, unless that passes the ten seconds it may wait. -/
def workerCommand (cfg : Config C) (w : W) (s : State C W) : Option (State C W) :=
  match s.workers w with
  | .idle =>
    match s.queue with
    | [] => none
    | q :: rest => some { s.setWorker w (.token q) with queue := rest }
  | .token q => some (s.setWorker w (.acquire q (s.now + 10000) s.now))
  | .acquire q stopAt wakeAt =>
    if s.now < wakeAt then none
    else if s.locks.has s.now q.repo then
      if stopAt < s.now + 100 then some (s.setWorker w .idle)
      else some (s.setWorker w (.acquire q stopAt (s.now + 100)))
    else
      some { s.setWorker w (.git q) with
        locks := s.locks.setex s.now q.repo cfg.lockTimeout w }
  | .git _ => none
  | .mark q =>
    some { s.setWorker w (.publish q .complete) with
      complete := s.complete.setex s.now (q.repo, q.ref) 3600 () }
  | .publish q status =>
    some { s.setWorker w (.release q) with
      callers := fun c ↦ (s.callers c).deliver ⟨q, status⟩ }
  | .release q =>
    some { s.setWorker w .idle with
      locks := if s.locks.get s.now q.repo = some w then s.locks.del q.repo else s.locks }

/-- The end of a worker's git commands, which a success leaves with the clone on disk. -/
def gitEnds (s : State C W) (w : W) (outcome : GitOutcome) (cloned : Bool) : Option (State C W) :=
  match s.workers w with
  | .git q =>
    match outcome.failure with
    | none =>
      some { s.setWorker w (.mark q) with cloned := Function.update s.cloned q.repo true }
    | some status =>
      some { s.setWorker w (.publish q status) with cloned := Function.update s.cloned q.repo cloned }
  | _ => none

/-- One step: a call of `wait_for_repo_sync`, a request by another service, the next command
of a caller or of a worker, the end of a worker's git commands, or the passing of time. -/
inductive Action (C W : Type) where
  | call (c : C) (q : Request)
  | request (q : Request)
  | caller (c : C)
  | worker (w : W)
  | git (w : W) (outcome : GitOutcome) (cloned : Bool)
  | tick (ms : Nat)

variable [DecidableEq C]

/-- One step of the system. -/
def step (cfg : Config C) (s : State C W) : Action C W → Option (State C W)
  | .call c q =>
    match (s.callers c).pc with
    | .idle =>
      some { s with callers := Function.update s.callers c { s.callers c with pc := .complete q } }
    | _ => none
  | .request q => some { s with queue := s.queue ++ [q] }
  | .caller c =>
    (callerCommand cfg c s).map fun (queue, caller) ↦
      { s with queue := queue, callers := Function.update s.callers c caller }
  | .worker w => workerCommand cfg w s
  | .git w outcome cloned => gitEnds s w outcome cloned
  | .tick ms => some { s with now := s.now + ms }

/-- Nothing is requested or waited for, whichever clones are on disk. -/
def initial (cloned : String → Bool) : State C W where
  now := 0
  complete := .empty
  locks := .empty
  queue := []
  cloned := cloned
  callers := fun _ ↦ ⟨.idle, none⟩
  workers := fun _ ↦ .idle

/-- The system of all callers and workers. -/
def system (cfg : Config C) : System (State C W) (Action C W) where
  init := fun s ↦ ∃ cloned, s = initial cloned
  step := step cfg

end Worker

end GithubAgent.Sync
