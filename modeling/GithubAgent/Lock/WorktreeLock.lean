import GithubAgent.Base.Keys
import GithubAgent.Base.Transition
import GithubAgent.Shared.Keys
import Mathlib.Data.Fintype.Basic

/-!
# The worktree lock

`src/shared/worktree_lock.py`: a lock key with an expiry time, written with `SET NX EX` and
changed or deleted by Lua scripts, and a pending prompt beside it. The second half is the
system of any number of `WorktreeLock` clients, each with its own `WorktreeKey`; every Redis
command or script is one step.
-/

namespace GithubAgent.Lock

open GithubAgent.Base GithubAgent.Shared

/-- `LockInfo.status` (`worktree_lock.py:77`). -/
inductive LockStatus where
  | running
  | interrupted
  deriving DecidableEq

/-- The JSON value of the lock key (`worktree_lock.py:71-78`). -/
structure LockInfo where
  jobId : String
  sessionId : Option String := none
  status : LockStatus := .running
  pid : Option Nat := none
  deriving DecidableEq

/-- The JSON value of the pending key (`worktree_lock.py:81-87`). -/
structure PendingPrompt where
  jobId : String
  prompt : String
  timestamp : Nat
  deriving DecidableEq

/-- The field and value that `_update_lock_field` writes. -/
inductive LockUpdate where
  | sessionId (value : String)
  | status (value : LockStatus)

/-- `data[field] = value`. -/
def LockInfo.update (info : LockInfo) : LockUpdate → LockInfo
  | .sessionId value => { info with sessionId := some value }
  | .status value => { info with status := value }

/-- The keys of all worktree locks and pending prompts. -/
structure Redis where
  locks : Keys String LockInfo
  pending : Keys String PendingPrompt

/-- An empty Redis. -/
def Redis.empty : Redis := ⟨.empty, .empty⟩

/-! ### Commands and scripts -/

/-- `SET lock_key value NX EX ttl` (`worktree_lock.py:150-155`). -/
def setLock (r : Redis) (now : Nat) (key : WorktreeKey) (info : LockInfo) (ttl : Nat) :
    Redis × Bool :=
  let reply := r.locks.setnx now key.lockKey ttl info
  ({ r with locks := reply.1 }, reply.2)

/-- The script of `release` (`worktree_lock.py:183-192`). -/
def releaseScript (r : Redis) (now : Nat) (key : WorktreeKey) (jobId : String) : Redis × Bool :=
  match r.locks.get now key.lockKey with
  | none => (r, false)
  | some data =>
    if data.jobId = jobId then ({ r with locks := r.locks.del key.lockKey }, true) else (r, false)

/-- The script of `_update_lock_field` (`worktree_lock.py:218-228`). -/
def updateLockField (r : Redis) (now : Nat) (key : WorktreeKey) (field : LockUpdate) :
    Redis × Bool :=
  match r.locks.get now key.lockKey with
  | none => (r, false)
  | some data =>
    let ttl := r.locks.ttl now key.lockKey
    if ttl ≤ 0 then (r, false)
    else ({ r with locks := r.locks.setex now key.lockKey ttl.toNat (data.update field) }, true)

/-- `set_pending_prompt` (`worktree_lock.py:272-284`). -/
def setPendingPrompt (r : Redis) (now : Nat) (key : WorktreeKey) (jobId prompt : String) : Redis :=
  { r with pending := r.pending.setex now key.pendingKey 300 ⟨jobId, prompt, now⟩ }

/-- The script of `get_pending_prompt` (`worktree_lock.py:289-294`). -/
def getPendingPrompt (r : Redis) (now : Nat) (key : WorktreeKey) :
    Redis × Option PendingPrompt :=
  match r.pending.get now key.pendingKey with
  | none => (r, none)
  | some val => ({ r with pending := r.pending.del key.pendingKey }, some val)

/-- The locals of `wait_for_release`, and when its `sleep` ends. -/
structure Wait where
  timeout : Nat
  elapsed : Nat
  wakeAt : Nat
  deriving DecidableEq

/-- One turn of the loop of `wait_for_release`: sleep again, or return whether the lock was
released (`worktree_lock.py:324-332`). -/
def waitForRelease (r : Redis) (now : Nat) (key : WorktreeKey) (w : Wait) : Wait ⊕ Bool :=
  if w.elapsed < w.timeout then
    if r.locks.has now key.lockKey then
      .inl { w with elapsed := w.elapsed + 1, wakeAt := now + 1000 }
    else .inr true
  else .inr false

/-! ### The clients of the lock -/

/-- The next command of a client. `acquire` polls with `wait` and tries once more with
`retry` when it was given a timeout. -/
inductive Pc where
  | idle
  | acquire (jobId : String) (timeout ttl : Nat)
  | wait (jobId : String) (ttl : Nat) (w : Wait)
  | retry (jobId : String) (ttl : Nat)
  | setPending (jobId : String)
  | release (jobId : String)
  | update (field : LockUpdate)

/-- One `WorktreeLock` object: its locals and where it stands. -/
structure Client where
  alive : Bool
  lockAcquired : Bool
  jobId : Option String
  pc : Pc

/-- The key of each client's lock, and the process it runs in. -/
structure Config (C : Type) where
  key : C → WorktreeKey
  pid : C → Nat

/-- Redis and the clients of the lock. -/
structure State (C : Type) where
  now : Nat
  redis : Redis
  clients : C → Client

/-- A call of one of the operations by an idle client. -/
inductive Call where
  | acquire (jobId : String) (timeout ttl : Nat)
  | setSessionId (sessionId : String)
  | setInterrupted
  | release

/-- `release`, `set_session_id` and `set_interrupted` return at once without a lock; a
`release` without a job id only forgets the lock (`worktree_lock.py:180-196`, `:242-257`). -/
def Client.call (cl : Client) : Call → Client
  | .acquire jobId timeout ttl => { cl with pc := .acquire jobId timeout ttl }
  | .setSessionId sessionId =>
    if cl.lockAcquired then { cl with pc := .update (.sessionId sessionId) } else cl
  | .setInterrupted =>
    if cl.lockAcquired then { cl with pc := .update (.status .interrupted) } else cl
  | .release =>
    if cl.lockAcquired then
      match cl.jobId with
      | none => { cl with lockAcquired := false }
      | some jobId => { cl with pc := .release jobId }
    else cl

/-- The reply to `SET NX`: on success the client holds the lock. Redis refuses `EX 0`. -/
def tryLock (pid : Nat) (key : WorktreeKey) (now : Nat) (r : Redis) (cl : Client)
    (jobId : String) (ttl : Nat) (held : Pc) : Redis × Client :=
  if ttl = 0 then (r, { cl with pc := .idle })
  else
    match setLock r now key { jobId := jobId, pid := some pid } ttl with
    | (r', true) => (r', { cl with lockAcquired := true, jobId := some jobId, pc := .idle })
    | (r', false) => (r', { cl with pc := held })

/-- The next command or script of a client, and where its reply leaves the client; `none`
while the client is idle or asleep. -/
def command (pid : Nat) (key : WorktreeKey) (now : Nat) (r : Redis) (cl : Client) :
    Option (Redis × Client) :=
  match cl.pc with
  | .idle => none
  | .acquire jobId timeout ttl =>
    some (tryLock pid key now r cl jobId ttl
      (if 0 < timeout then .wait jobId ttl ⟨timeout, 0, now⟩ else .idle))
  | .wait jobId ttl w =>
    if now < w.wakeAt then none
    else
      match waitForRelease r now key w with
      | .inl w => some (r, { cl with pc := .wait jobId ttl w })
      | .inr _ => some (r, { cl with pc := .retry jobId ttl })
  | .retry jobId ttl => some (tryLock pid key now r cl jobId ttl (.setPending jobId))
  | .setPending jobId => some (setPendingPrompt r now key jobId "", { cl with pc := .idle })
  | .release jobId =>
    some ((releaseScript r now key jobId).1, { cl with lockAcquired := false, pc := .idle })
  | .update field => some ((updateLockField r now key field).1, { cl with pc := .idle })

/-- One step: a call, the next command of a client, an exception in its place, a crash, or
the passing of time. -/
inductive Action (C : Type) where
  | call (c : C) (op : Call)
  | command (c : C)
  | error (c : C)
  | crash (c : C)
  | tick (ms : Nat)

section Step

variable {C : Type} [DecidableEq C]

/-- One step of the system; a crashed client takes none. -/
def step (cfg : Config C) (s : State C) : Action C → Option (State C)
  | .call c op =>
    match (s.clients c).alive, (s.clients c).pc with
    | true, .idle =>
      some { s with clients := Function.update s.clients c ((s.clients c).call op) }
    | _, _ => none
  | .command c =>
    if (s.clients c).alive then
      (command (cfg.pid c) (cfg.key c) s.now s.redis (s.clients c)).map fun (r, cl) ↦
        { s with redis := r, clients := Function.update s.clients c cl }
    else none
  | .error c =>
    if (s.clients c).alive then
      some { s with clients := Function.update s.clients c { s.clients c with pc := .idle } }
    else none
  | .crash c =>
    if (s.clients c).alive then
      some { s with clients := Function.update s.clients c { s.clients c with alive := false } }
    else none
  | .tick ms => some { s with now := s.now + ms }

/-- No client holds a lock, and Redis is empty. -/
def initial : State C where
  now := 0
  redis := .empty
  clients := fun _ ↦ ⟨true, false, none, .idle⟩

/-- The system of all clients over one Redis. -/
def system (cfg : Config C) : System (State C) (Action C) where
  init := fun s ↦ s = initial
  step := step cfg

end Step

/-! ### Inversion of a command -/

section Command

variable {r r' : Redis} {cl cl' : Client} {pid now : Nat} {key : WorktreeKey}

/-- What a command of a client can do, with the conditions under which it does it. -/
inductive Commanded (pid : Nat) (key : WorktreeKey) (now : Nat) (r : Redis) (cl : Client) :
    Redis → Client → Prop where
  | granted {jobId : String} {ttl : Nat} (pos : 0 < ttl)
      (free : r.locks.has now key.lockKey = false) :
      Commanded pid key now r cl
        { r with
          locks := r.locks.setex now key.lockKey ttl { jobId := jobId, pid := some pid } }
        { cl with lockAcquired := true, jobId := some jobId, pc := .idle }
  | moved {pc : Pc} (other : ∀ jobId, pc ≠ .release jobId) :
      Commanded pid key now r cl r { cl with pc := pc }
  | pended {jobId : String} :
      Commanded pid key now r cl (setPendingPrompt r now key jobId "") { cl with pc := .idle }
  | released {jobId : String} (atRelease : cl.pc = .release jobId) :
      Commanded pid key now r cl (releaseScript r now key jobId).1
        { cl with lockAcquired := false, pc := .idle }
  | updated {field : LockUpdate} (atUpdate : cl.pc = .update field) :
      Commanded pid key now r cl (updateLockField r now key field).1 { cl with pc := .idle }

/-- `SET NX` either creates the key and gives the lock, or changes nothing. -/
theorem tryLock_commanded {jobId : String} {ttl : Nat} {held : Pc}
    (hheld : ∀ jobId, held ≠ .release jobId)
    (h : tryLock pid key now r cl jobId ttl held = (r', cl')) :
    Commanded pid key now r cl r' cl' := by
  unfold tryLock at h
  split at h
  · cases h
    exact .moved nofun
  · next httl =>
    cases hhas : r.locks.has now key.lockKey with
    | true =>
      simp only [setLock, Keys.setnx_of_has hhas, Prod.mk.injEq] at h
      obtain ⟨rfl, rfl⟩ := h
      exact .moved hheld
    | false =>
      simp only [setLock, Keys.setnx_of_not_has hhas, Prod.mk.injEq] at h
      obtain ⟨rfl, rfl⟩ := h
      exact .granted (Nat.pos_of_ne_zero httl) hhas

/-- Every command of a client is one of those listed. -/
theorem command_cases (h : command pid key now r cl = some (r', cl')) :
    Commanded pid key now r cl r' cl' := by
  unfold command at h
  split at h
  · cases h
  · refine tryLock_commanded ?_ (Option.some.inj h)
    intro jobId
    split <;> nofun
  · split at h
    · cases h
    · split at h <;> cases h <;> exact .moved nofun
  · refine tryLock_commanded ?_ (Option.some.inj h)
    nofun
  · cases h
    exact .pended
  · next hpc =>
    cases h
    exact .released hpc
  · next hpc =>
    cases h
    exact .updated hpc

end Command

end GithubAgent.Lock
