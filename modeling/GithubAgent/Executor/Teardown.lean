import GithubAgent.Base.Coroutine

/-!
# What a job leaves behind

`JobProcessor.process` (`src/services/sandbox_executor/processor.py:80-946`) as a coroutine over
what it must give back: the command that completes the job, the worktree lock, the control
channel and the status of the streaming session. Any await may raise, an SDK run may end in any
way, and the user and other jobs may step in between.

The normal end stops the channel and closes the session. The superseded exit returns from the
middle of the loop and does neither; the error handler closes the session through objects of its
own and leaves the channel; a streaming set-up that fails half way forgets the channel it started;
and the loop may run out with no result, in which case nothing completes the job.
-/

namespace GithubAgent.Executor

open GithubAgent.Base GithubAgent.Base.Coroutine

/-- The status with which a job is completed. -/
inductive JobStatus where
  | superseded
  | cancelled
  | success
  | error
  deriving DecidableEq

/-- `status` of a streaming session. -/
inductive StreamStatus where
  | running
  | completed
  | error
  deriving DecidableEq

/-- What the job holds: the `complete_job` commands issued, its lock, its channel, and the status
of its streaming session, if it has one. -/
structure Resources where
  issued : List JobStatus
  lock : Bool
  channel : Bool
  status : Option StreamStatus
  deriving DecidableEq

/-- The part of `job_id` and `job_data` that decides the path; `maxAutoContinues` is
`MAX_AUTO_CONTINUES`. -/
structure Job where
  validId : Bool
  persist : Bool
  streamingEnabled : Bool
  sessionToken : Bool
  maxAutoContinues : Nat

/-- `result` of `execute_sdk`. -/
structure SdkResult where
  isError : Bool
  isCancelled : Bool
  deriving DecidableEq

/-- How the wait for the SDK run ends: with its result, possibly after `handle_cancel` set
`interrupted`; with its exception; cancelled by `handle_cancel`; by the user's interrupt; or by
the cancellation of the waiting task. -/
inductive SdkEnd where
  | returned (result : Option SdkResult) (cancelHandled : Bool)
  | raised
  | cancelled
  | userInterrupt
  | taskCancelled

/-- The places that may raise, with the iteration for those in the loop. -/
inductive Site where
  | authToken | repoSync | indexing
  | acquire | lockInfo | setPending | sendCancel | waitRelease | reacquire | getPending
  | getSession | worktree
  | worktreeAdd | branchList | worktreeAddDefault
  | credentials | botIdentity | userName | userEmail
  | repoSetup | structuralContext | threadHistory | mcpJson
  | startControl | publishInit | sessionMeta | runStart
  | buildOptions (k : Nat)
  | subscribe (k : Nat)
  | setInterrupted (k : Nat)
  | sdkStopped (k : Nat)
  | unsubscribe (k : Nat)
  | completeSuperseded (k : Nat)
  | popInbox (k : Nat)
  | publishUser (k : Nat)
  | publishInitAgain (k : Nat)
  | setRunning (k : Nat)
  | setCompleted | bridgeClose | stopControl | flush
  | saveSession | updateStreaming
  deriving DecidableEq

/-- What a run meets: where it raises, the replies of the lock and of git, how each SDK run ends,
whether the user's event is set and the inbox filled by then, and whether another job of the
session is created meanwhile. -/
structure Events where
  raises : Site → Bool
  acquired : Bool
  released : Bool
  reacquired : Bool
  pending : Bool
  added : Bool
  addedDefault : Bool
  sdk : Nat → SdkEnd
  userEvent : Nat → Bool
  inbox : Nat → Bool
  resumed : Bool

variable (job : Job) (ev : Events)

/-- The await at a site. -/
def Events.await (site : Site) : Coroutine Resources PUnit := Coroutine.await (ev.raises site)

/-- `complete_job`, issued when it is called. -/
def issue (status : JobStatus) : Coroutine Resources PUnit :=
  effect fun r ↦ { r with issued := r.issued ++ [status] }

/-- `SET NX` of the lock that succeeded. -/
def takeLock : Coroutine Resources PUnit := effect fun r ↦ { r with lock := true }

/-- The status of the session, where the job has one. -/
def setStatus (status : StreamStatus) : Coroutine Resources PUnit :=
  effect fun r ↦ { r with status := r.status.map fun _ ↦ status }

/-- The lock part of `_setup_worktree` (`processor.py:189-229`). -/
def lockWorktree : Coroutine Resources PUnit := do
  ev.await .acquire
  if ev.acquired then takeLock
  else
    ev.await .lockInfo
    ev.await .setPending
    ev.await .sendCancel
    ev.await .waitRelease
    if ev.released then
      ev.await .reacquire
      if ev.reacquired then
        takeLock
        ev.await .getPending
        if ev.pending then ev.await .getSession
      else raise
    else raise

/-- The ephemeral worktree, with the default branch as a second try (`processor.py:245-320`). -/
def ephemeralWorktree : Coroutine Resources PUnit := do
  ev.await .worktreeAdd
  if ev.added then pure ⟨⟩
  else
    ev.await .branchList
    ev.await .worktreeAddDefault
    if ev.addedDefault then pure ⟨⟩ else raise

/-- `_setup_worktree` (`processor.py:123-320`); the token and the indexing are best effort. -/
def setupWorktree : Coroutine Resources PUnit := do
  swallow (ev.await .authToken)
  ev.await .repoSync
  swallow (ev.await .indexing)
  if job.persist then
    lockWorktree ev
    ev.await .worktree
  else ephemeralWorktree ev

/-- `_configure_git` (`processor.py:322-360`). -/
def configureGit : Coroutine Resources PUnit := do
  ev.await .credentials
  ev.await .botIdentity
  ev.await .userName
  ev.await .userEmail

/-- `_run_repo_setup` (`processor.py:362-396`). -/
def runRepoSetup : Coroutine Resources PUnit := swallow (ev.await .repoSetup)

/-- `_prepare_context` (`processor.py:398-505`). -/
def prepareContext : Coroutine Resources PUnit := do
  swallow (ev.await .structuralContext)
  swallow (ev.await .threadHistory)
  ev.await .mcpJson

/-- The streaming set-up (`processor.py:523-559`): whether the bridge and the channel are there
afterwards. An exception forgets both, also the channel that is listening by then. -/
def setupStreaming : Coroutine Resources Bool :=
  if job.streamingEnabled && job.sessionToken then
    (do
      ev.await .startControl
      effect fun r ↦ { r with channel := true }
      ev.await .publishInit
      ev.await .sessionMeta
      ev.await .runStart
      pure true : Coroutine Resources Bool).orElse (pure false)
  else pure false

/-- The wait for one SDK run: the result so far and `interrupted`. -/
def waitSdk (k : Nat) (result : Option SdkResult) : Coroutine Resources (Option SdkResult × Bool) :=
  match ev.sdk k with
  | .returned r cancelHandled => pure (r, cancelHandled)
  | .raised => raise
  | .cancelled => do
    ev.await (.setInterrupted k)
    pure (result, true)
  | .userInterrupt => do
    ev.await (.sdkStopped k)
    pure (result, true)
  | .taskCancelled => pure (result, true)

/-- One SDK run (`processor.py:624-685`). A job without a lock awaits `execute_sdk` itself and
hears neither the cancel signal nor the user. -/
def sdkRun (k : Nat) (result : Option SdkResult) : Coroutine Resources (Option SdkResult × Bool) :=
  if job.persist then do
    ev.await (.subscribe k)
    withExit (waitSdk ev k result) (ev.await (.unsubscribe k))
  else
    match ev.sdk k with
    | .returned r _ => pure (r, false)
    | _ => raise

/-- `user_interrupt_event.is_set()` after the run. -/
def Events.userSet (k : Nat) : Bool :=
  match ev.sdk k with
  | .userInterrupt => true
  | _ => ev.userEvent k

/-- The drain of the inbox (`processor.py:706-734`): whether the loop continues with it. -/
def autoContinue (streaming : Bool) (k : Nat) : Coroutine Resources Bool :=
  if streaming then do
    ev.await (.popInbox k)
    if ev.inbox k then
      ev.await (.publishUser k)
      ev.await (.publishInitAgain k)
      ev.await (.setRunning k)
      setStatus .running
      pure true
    else pure false
  else pure false

/-- The result made up for a run that the user stopped (`processor.py:736-744`). -/
def stoppedByUser : SdkResult := ⟨false, true⟩

/-- The `for` of `_execute_sdk_loop` (`processor.py:567-746`) from iteration `k`, with `n`
iterations left; `none` is the superseded `return None`. -/
def sdkLoop (streaming : Bool) :
    Nat → Nat → Option SdkResult → Coroutine Resources (Option (Option SdkResult))
  | 0, _, result => pure (some result)
  | n + 1, k, result => do
    ev.await (.buildOptions k)
    let (result, interrupted) ← sdkRun job ev k result
    if interrupted && !ev.userSet k then
      issue .superseded
      ev.await (.completeSuperseded k)
      pure none
    else if result.isNone && !interrupted then raise
    else
      let again ← autoContinue ev streaming k
      if again then sdkLoop streaming n (k + 1) result
      else if interrupted && ev.userSet k && result.isNone then pure (some (some stoppedByUser))
      else pure (some result)

/-- The end of `_execute_sdk_loop` (`processor.py:748-773`); a failing `stop` has told the
listener to stop before. -/
def teardown (streaming : Bool) (result : Option SdkResult) : Coroutine Resources PUnit := do
  if streaming then
    swallow (do
      ev.await .setCompleted
      setStatus (if (result.map SdkResult.isError).getD false then .error else .completed)
      ev.await .bridgeClose)
    swallow (do
      effect fun r ↦ { r with channel := false }
      ev.await .stopControl)
  ev.await .flush

/-- What follows the loop of `_execute_sdk_loop`; the superseded exit has returned already. -/
def finishLoop (streaming : Bool) :
    Option (Option SdkResult) → Coroutine Resources (Option SdkResult)
  | none => pure none
  | some result => do
    teardown ev streaming result
    pure result

/-- `_execute_sdk_loop`. -/
def executeSdkLoop : Coroutine Resources (Option SdkResult) := do
  let streaming ← setupStreaming job ev
  let result ← sdkLoop job ev streaming (job.maxAutoContinues + 1) 0 none
  finishLoop ev streaming result

/-- `_save_session` (`processor.py:775-848`): both of its parts are best effort. -/
def saveSession : Coroutine Resources PUnit := do
  swallow (ev.await .saveSession)
  swallow (ev.await .updateStreaming)

/-- `_mark_success` and `_mark_cancelled`. -/
def mark (result : SdkResult) : Coroutine Resources PUnit :=
  issue (if result.isCancelled then .cancelled else .success)

/-- `_handle_error` (`processor.py:882-941`). -/
def handleError : Coroutine Resources PUnit := do
  setStatus .error
  issue .error

/-- `_cleanup`: the release of the lock. -/
def cleanup : Coroutine Resources PUnit := effect fun r ↦ { r with lock := false }

/-- The set-up, up to the SDK loop. -/
def setup : Coroutine Resources PUnit := do
  setupWorktree job ev
  configureGit ev
  runRepoSetup ev
  prepareContext ev

/-- What `process` does with the result of the loop. -/
def report : Option SdkResult → Coroutine Resources PUnit
  | none => pure ⟨⟩
  | some result => do
    saveSession ev
    mark result

/-- The `try` of `process`. -/
def work : Coroutine Resources PUnit := do
  setup job ev
  let result ← executeSdkLoop job ev
  report ev result

/-- `process` (`processor.py:80-101`): what it leaves. `_validate_job` completes a job with a bad
id by a task of its own. -/
def process (r : Resources) : Resources :=
  if job.validId then (((work job ev).orElse handleError).andThen fun _ ↦ cleanup) r |>.2
  else (issue .error).andThen (fun _ ↦ cleanup) r |>.2

/-- What a job starts with; its session is running since the job was created. -/
def Job.start : Resources :=
  { issued := [], lock := false, channel := false
    status := if job.sessionToken then some .running else none }

/-- Everything is torn down. -/
structure TornDown (r : Resources) (resumed : Bool) : Prop where
  once : r.issued.length = 1
  released : r.lock = false
  stopped : r.channel = false
  notRunning : r.status = some .running → resumed = true

/-! ## The set-up -/

/-- Whether the lock part raises. -/
def lockRaises : Bool :=
  ev.raises .acquire || if ev.acquired then false else
    ev.raises .lockInfo || (ev.raises .setPending || (ev.raises .sendCancel ||
      (ev.raises .waitRelease || if ev.released then
        ev.raises .reacquire || if ev.reacquired then
          ev.raises .getPending || if ev.pending then ev.raises .getSession else false
        else true
      else true)))

/-- Whether the ephemeral worktree fails. -/
def ephemeralRaises : Bool :=
  ev.raises .worktreeAdd || if ev.added then false else
    ev.raises .branchList || (ev.raises .worktreeAddDefault || !ev.addedDefault)

/-- Whether the job fails before its SDK loop. -/
def setupRaises : Bool :=
  (ev.raises .repoSync ||
    if job.persist then lockRaises ev || ev.raises .worktree else ephemeralRaises ev) ||
  ((ev.raises .credentials || (ev.raises .botIdentity ||
    (ev.raises .userName || ev.raises .userEmail))) || ev.raises .mcpJson)

theorem raises_await (site : Site) : Raises (ev.await site) (ev.raises site) :=
  Raises.await _

theorem lockWorktree_raises : Raises (lockWorktree ev) (lockRaises ev) := by
  have again : Raises (do takeLock; ev.await .getPending; if ev.pending then ev.await .getSession)
      (ev.raises .getPending || if ev.pending then ev.raises .getSession else false) :=
    (Raises.effect _).bind fun _ ↦ (raises_await ev _).bind fun _ ↦
      Raises.ite _ (raises_await ev _) (Raises.pure _)
  refine (raises_await ev _).bind fun _ ↦ Raises.ite _ (Raises.effect _) ?_
  refine (raises_await ev _).bind fun _ ↦ (raises_await ev _).bind fun _ ↦
    (raises_await ev _).bind fun _ ↦ (raises_await ev _).bind fun _ ↦ ?_
  exact Raises.ite _ ((raises_await ev _).bind fun _ ↦ Raises.ite _ again Raises.raise) Raises.raise

theorem ephemeralWorktree_raises : Raises (ephemeralWorktree ev) (ephemeralRaises ev) := by
  have default : Raises (if ev.addedDefault then pure ⟨⟩ else raise : Coroutine Resources PUnit)
      (!ev.addedDefault) := by
    cases ev.addedDefault
    · exact Raises.raise
    · exact Raises.pure _
  refine (raises_await ev _).bind fun _ ↦ Raises.ite _ (Raises.pure _) ?_
  exact (raises_await ev _).bind fun _ ↦ (raises_await ev _).bind fun _ ↦ default

theorem setupWorktree_raises : Raises (setupWorktree job ev)
    (ev.raises .repoSync ||
      if job.persist then lockRaises ev || ev.raises .worktree else ephemeralRaises ev) := by
  refine (Raises.swallow _).bind fun _ ↦ (raises_await ev _).bind fun _ ↦
    (Raises.swallow _).bind fun _ ↦ ?_
  exact Raises.ite _ ((lockWorktree_raises ev).bind fun _ ↦ raises_await ev _)
    (ephemeralWorktree_raises ev)

/-- The set-up raises exactly where one of its checks does. -/
theorem setup_raises : Raises (setup job ev) (setupRaises job ev) := by
  refine (setupWorktree_raises job ev).bind fun _ ↦ ?_
  refine Raises.bind ?_ fun _ ↦ (Raises.swallow _).bind fun _ ↦ ?_
  · exact (raises_await ev _).bind fun _ ↦ (raises_await ev _).bind fun _ ↦
      (raises_await ev _).bind fun _ ↦ raises_await ev _
  · exact (Raises.swallow _).bind fun _ ↦ (Raises.swallow _).bind fun _ ↦ raises_await ev _

/-- Only the lock differs. -/
def SameButLock (r r' : Resources) : Prop := r' = { r with lock := r'.lock }

theorem SameButLock.trans (r s t : Resources) (h : SameButLock r s) (h' : SameButLock s t) :
    SameButLock r t := by
  unfold SameButLock at *
  rw [h', h]

theorem await_sameButLock (site : Site) : Within SameButLock (ev.await site) :=
  Within.await (R := SameButLock) (fun _ ↦ rfl) _

theorem takeLock_sameButLock : Within SameButLock takeLock := fun _ ↦ rfl

theorem lockWorktree_sameButLock : Within SameButLock (lockWorktree ev) := by
  have bind := @Within.bind Resources PUnit PUnit SameButLock SameButLock.trans
  have raised : Within SameButLock (raise : Coroutine Resources PUnit) := fun _ ↦ rfl
  have returned : Within SameButLock (pure ⟨⟩ : Coroutine Resources PUnit) := fun _ ↦ rfl
  have again : Within SameButLock
      (do takeLock; ev.await .getPending; if ev.pending then ev.await .getSession) :=
    bind takeLock_sameButLock fun _ ↦ bind (await_sameButLock ev _) fun _ ↦
      Within.ite _ (await_sameButLock ev _) returned
  refine bind (await_sameButLock ev _) fun _ ↦ Within.ite _ takeLock_sameButLock ?_
  refine bind (await_sameButLock ev _) fun _ ↦ bind (await_sameButLock ev _) fun _ ↦
    bind (await_sameButLock ev _) fun _ ↦ bind (await_sameButLock ev _) fun _ ↦ ?_
  exact Within.ite _ (bind (await_sameButLock ev _) fun _ ↦ Within.ite _ again raised) raised

theorem ephemeralWorktree_sameButLock : Within SameButLock (ephemeralWorktree ev) := by
  have bind := @Within.bind Resources PUnit PUnit SameButLock SameButLock.trans
  have raised : Within SameButLock (raise : Coroutine Resources PUnit) := fun _ ↦ rfl
  have returned : Within SameButLock (pure ⟨⟩ : Coroutine Resources PUnit) := fun _ ↦ rfl
  refine bind (await_sameButLock ev _) fun _ ↦ Within.ite _ returned ?_
  exact bind (await_sameButLock ev _) fun _ ↦ bind (await_sameButLock ev _) fun _ ↦
    Within.ite _ returned raised

/-- The set-up changes nothing but the lock. -/
theorem setup_sameButLock : Within SameButLock (setup job ev) := by
  have bind := @Within.bind Resources PUnit PUnit SameButLock SameButLock.trans
  have await := await_sameButLock ev
  have quiet (site : Site) : Within SameButLock (swallow (ev.await site)) := (await site).swallow
  have worktree : Within SameButLock (setupWorktree job ev) :=
    bind (quiet _) fun _ ↦ bind (await _) fun _ ↦ bind (quiet _) fun _ ↦
      Within.ite _ (bind (lockWorktree_sameButLock ev) fun _ ↦ await _)
        (ephemeralWorktree_sameButLock ev)
  have git : Within SameButLock (configureGit ev) :=
    bind (await _) fun _ ↦ bind (await _) fun _ ↦ bind (await _) fun _ ↦ await _
  have context : Within SameButLock (prepareContext ev) :=
    bind (quiet _) fun _ ↦ bind (quiet _) fun _ ↦ await _
  exact bind worktree fun _ ↦ bind git fun _ ↦ bind (quiet _) fun _ ↦ context

/-! ## The SDK loop -/

/-- Whether the channel of the job is started. -/
def channelStarted : Bool :=
  (job.streamingEnabled && job.sessionToken) && !ev.raises .startControl

/-- Whether the streaming set-up comes to its end, so that the job keeps its channel in hand. -/
def streamingOn : Bool :=
  channelStarted job ev &&
    !(ev.raises .publishInit || ev.raises .sessionMeta || ev.raises .runStart)

/-- The streaming set-up starts the channel, and keeps it if nothing raises after that. -/
theorem setupStreaming_apply (r : Resources) :
    setupStreaming job ev r =
      (some (streamingOn job ev), { r with channel := r.channel || channelStarted job ev }) := by
  unfold setupStreaming streamingOn channelStarted
  cases job.streamingEnabled && job.sessionToken
  · simp
  simp only [if_true, orElse, Events.await]
  cases ev.raises .startControl
  case true => simp
  cases ev.raises .publishInit
  case true => simp [bind_apply, await_apply]
  cases ev.raises .sessionMeta
  case true => simp [bind_apply, await_apply]
  cases ev.raises .runStart <;> simp [bind_apply, await_apply]

/-- The result so far and `interrupted` after one run; `none` where it raises. -/
def runExit (k : Nat) (result : Option SdkResult) : Option (Option SdkResult × Bool) :=
  if job.persist then
    if ev.raises (.subscribe k) || ev.raises (.unsubscribe k) then none
    else
      match ev.sdk k with
      | .returned r cancelHandled => some (r, cancelHandled)
      | .raised => none
      | .cancelled => if ev.raises (.setInterrupted k) then none else some (result, true)
      | .userInterrupt => if ev.raises (.sdkStopped k) then none else some (result, true)
      | .taskCancelled => some (result, true)
  else
    match ev.sdk k with
    | .returned r _ => some (r, false)
    | _ => none

/-- A run does nothing to the resources. -/
theorem sdkRun_apply (k : Nat) (result : Option SdkResult) (r : Resources) :
    sdkRun job ev k result r = (runExit job ev k result, r) := by
  unfold sdkRun runExit
  cases job.persist
  · cases ev.sdk k <;> rfl
  simp only [if_true, Events.await, waitSdk]
  cases ev.raises (.subscribe k)
  case true => rfl
  cases ev.raises (.unsubscribe k)
  · cases ev.sdk k with
    | cancelled => cases ev.raises (.setInterrupted k) <;> rfl
    | userInterrupt => cases ev.raises (.sdkStopped k) <;> rfl
    | _ => rfl
  · cases ev.sdk k with
    | cancelled => cases ev.raises (.setInterrupted k) <;> rfl
    | userInterrupt => cases ev.raises (.sdkStopped k) <;> rfl
    | _ => rfl

/-- Whether the drain of the inbox raises. -/
def drainRaises (streaming : Bool) (k : Nat) : Bool :=
  streaming && (ev.raises (.popInbox k) || (ev.inbox k && (ev.raises (.publishUser k) ||
    (ev.raises (.publishInitAgain k) || ev.raises (.setRunning k)))))

/-- The status of the session is the one a running session has. -/
def SessionRunning (r : Resources) : Prop := r.status.map (fun _ ↦ .running) = r.status

/-- The drain leaves a running session as it is. -/
theorem autoContinue_apply (streaming : Bool) (k : Nat) {r : Resources} (hr : SessionRunning r) :
    autoContinue ev streaming k r =
      (if drainRaises ev streaming k then none else some (streaming && ev.inbox k), r) := by
  have running : setStatus .running r = (some ⟨⟩, r) := by
    unfold setStatus
    rw [effect_apply, hr]
  unfold autoContinue drainRaises
  cases streaming
  · rfl
  simp only [if_true, Events.await, Bool.true_and]
  cases ev.raises (.popInbox k)
  case true => rfl
  cases ev.inbox k
  · rfl
  cases ev.raises (.publishUser k)
  case true => rfl
  cases ev.raises (.publishInitAgain k)
  case true => rfl
  cases ev.raises (.setRunning k)
  case true => rfl
  simp [bind_apply, await_apply, running]

/-- How the loop is left. -/
inductive LoopExit where
  | raised
  | supersededRaised
  | superseded
  | finished (result : Option SdkResult)
  deriving DecidableEq

/-- The exit that the events lead to from iteration `k`, with `n` iterations left. -/
def loopExit (streaming : Bool) : Nat → Nat → Option SdkResult → LoopExit
  | 0, _, result => .finished result
  | n + 1, k, result =>
    if ev.raises (.buildOptions k) then .raised
    else
      match runExit job ev k result with
      | none => .raised
      | some (result, interrupted) =>
        if interrupted && !ev.userSet k then
          if ev.raises (.completeSuperseded k) then .supersededRaised else .superseded
        else if result.isNone && !interrupted then .raised
        else if drainRaises ev streaming k then .raised
        else if streaming && ev.inbox k then loopExit streaming n (k + 1) result
        else if interrupted && ev.userSet k && result.isNone then .finished (some stoppedByUser)
        else .finished result

/-- What an exit of the loop returns and leaves. -/
def LoopExit.outcome (r : Resources) :
    LoopExit → Option (Option (Option SdkResult)) × Resources
  | .raised => (none, r)
  | .supersededRaised => (none, { r with issued := r.issued ++ [.superseded] })
  | .superseded => (some none, { r with issued := r.issued ++ [.superseded] })
  | .finished result => (some (some result), r)

/-- The loop takes the exit that the events lead to, by induction on the iterations left. -/
theorem sdkLoop_apply (streaming : Bool) (n k : Nat) (result : Option SdkResult) {r : Resources}
    (hr : SessionRunning r) :
    sdkLoop job ev streaming n k result r =
      (loopExit job ev streaming n k result).outcome r := by
  induction n generalizing k result with
  | zero => rfl
  | succ n ih =>
    unfold sdkLoop loopExit
    simp only [Events.await]
    cases ev.raises (.buildOptions k)
    case true => rfl
    rw [await_bind_false]
    have hrun := sdkRun_apply job ev k result r
    cases hexit : runExit job ev k result with
    | none =>
      rw [hexit] at hrun
      exact bind_of_none hrun
    | some ran =>
      obtain ⟨result, interrupted⟩ := ran
      rw [hexit] at hrun
      rw [bind_of_some hrun]
      by_cases hsup : (interrupted && !ev.userSet k) = true
      · simp only [hsup, if_true, Bool.false_eq_true, if_false]
        cases ev.raises (.completeSuperseded k) <;> rfl
      by_cases hnone : (result.isNone && !interrupted) = true
      · simp only [hsup, hnone, if_true, Bool.false_eq_true, if_false]
        rfl
      have hdrain := autoContinue_apply ev streaming k hr
      cases hraises : drainRaises ev streaming k with
      | true =>
        rw [hraises] at hdrain
        simp only [hsup, hnone, if_true, Bool.false_eq_true, if_false]
        exact bind_of_none hdrain
      | false =>
        rw [hraises] at hdrain
        simp only [hsup, hnone, Bool.false_eq_true, if_false]
        rw [bind_of_some hdrain]
        by_cases hagain : (streaming && ev.inbox k) = true
        · simpa only [hagain, if_true] using ih (k + 1) result
        by_cases hstopped : (interrupted && ev.userSet k && result.isNone) = true
        · simp only [hagain, hstopped, if_true, Bool.false_eq_true, if_false]
          rfl
        · simp only [hagain, hstopped, Bool.false_eq_true, if_false]
          rfl

/-! ## The exits of a job -/

/-- The status that the end of the loop gives the session. -/
def endStatus (result : Option SdkResult) : StreamStatus :=
  if (result.map SdkResult.isError).getD false then .error else .completed

/-- The end of the loop stops the channel that the job has in hand, and closes the session unless
`set_completed` raises. -/
theorem teardown_apply (streaming : Bool) (result : Option SdkResult) (r : Resources) :
    teardown ev streaming result r =
      (if ev.raises .flush then none else some ⟨⟩,
        { r with
          channel := r.channel && !streaming
          status := if streaming && !ev.raises .setCompleted
            then r.status.map (fun _ ↦ endStatus result) else r.status }) := by
  unfold teardown
  cases streaming
  case false =>
    simp only [Bool.false_eq_true, if_false, Bool.not_false, Bool.and_true, Bool.false_and]
    exact await_apply _
  simp only [if_true, Events.await, swallow, setStatus, endStatus]
  cases ev.raises .setCompleted <;> cases ev.raises .bridgeClose <;>
    cases ev.raises .stopControl <;> simp [bind_apply, await_apply, orElse]

/-- The status `mark` completes the job with. -/
def SdkResult.jobStatus (result : SdkResult) : JobStatus :=
  if result.isCancelled then .cancelled else .success

/-- What a job leaves that fails after the commands `issued`. -/
def failed (issued : List JobStatus) (channel : Bool) : Resources :=
  { issued := issued ++ [.error], lock := false, channel := channel
    status := job.start.status.map fun _ ↦ .error }

/-- What a job leaves whose loop is left by this exit. -/
def LoopExit.left : LoopExit → Resources
  | .raised => failed job [] (channelStarted job ev)
  | .supersededRaised => failed job [.superseded] (channelStarted job ev)
  | .superseded =>
    { job.start with issued := [.superseded], channel := channelStarted job ev }
  | .finished result =>
    let channel := channelStarted job ev && !streamingOn job ev
    if ev.raises .flush then failed job [] channel
    else
      { issued := (result.map SdkResult.jobStatus).toList, lock := false, channel := channel
        status := if streamingOn job ev && !ev.raises .setCompleted
          then job.start.status.map (fun _ ↦ endStatus result) else job.start.status }

/-- The exit of the loop of this job. -/
def exit : LoopExit :=
  loopExit job ev (streamingOn job ev) (job.maxAutoContinues + 1) 0 none

/-- The resources when the loop starts. -/
def Job.armed (lock : Bool) : Resources :=
  { job.start with lock := lock, channel := channelStarted job ev }

theorem armed_sessionRunning (lock : Bool) : SessionRunning (job.armed ev lock) := by
  unfold SessionRunning Job.armed Job.start
  cases job.sessionToken <;> rfl

/-- The loop of a job that starts with nothing but a lock. -/
theorem executeSdkLoop_apply (lock : Bool) :
    executeSdkLoop job ev { job.start with lock := lock } =
      andThen (fun r ↦ (exit job ev).outcome r) (finishLoop ev (streamingOn job ev))
        (job.armed ev lock) := by
  have hstream : setupStreaming job ev { job.start with lock := lock } =
      (some (streamingOn job ev), job.armed ev lock) := setupStreaming_apply job ev _
  have hloop := sdkLoop_apply job ev (streamingOn job ev) (job.maxAutoContinues + 1) 0 none
    (armed_sessionRunning job ev lock)
  unfold executeSdkLoop andThen
  rw [bind_of_some hstream, bind_apply, hloop]
  rfl

/-- What a job does with the lock from the start of its loop on. -/
theorem report_apply (result : Option SdkResult) (r : Resources) :
    report ev result r =
      (some ⟨⟩, { r with issued := r.issued ++ (result.map SdkResult.jobStatus).toList }) := by
  cases result with
  | none => simp [report]
  | some result => simp [report, saveSession, bind_apply, mark, issue, Events.await, SdkResult.jobStatus]

/-- The end of a job whose `try` ends in this way. -/
theorem handled_apply (x : Coroutine Resources PUnit) (r : Resources) :
    ((x.orElse handleError).andThen fun _ ↦ cleanup) r =
      (some ⟨⟩, match x r with
        | (some _, r') => { r' with lock := false }
        | (none, r') =>
          { r' with issued := r'.issued ++ [.error], lock := false,
                    status := r'.status.map fun _ ↦ .error }) := by
  unfold andThen orElse
  match hx : x r with
  | (some _, r') => rfl
  | (none, r') => rfl

/-- A job whose set-up returns leaves what the exit of its loop leaves. -/
theorem work_of_setup (lock : Bool)
    (hsetup : setup job ev job.start = (some ⟨⟩, { job.start with lock := lock })) :
    (((work job ev).orElse handleError).andThen fun _ ↦ cleanup) job.start =
      (some ⟨⟩, (exit job ev).left job ev) := by
  have hloop := executeSdkLoop_apply job ev lock
  have hwork : work job ev job.start =
      (executeSdkLoop job ev >>= report ev) { job.start with lock := lock } := bind_of_some hsetup
  rw [handled_apply, hwork]
  cases hexit : exit job ev with
  | raised =>
    rw [hexit] at hloop
    rw [bind_of_none hloop]
    rfl
  | supersededRaised =>
    rw [hexit] at hloop
    rw [bind_of_none hloop]
    rfl
  | superseded =>
    rw [hexit] at hloop
    rw [bind_of_some hloop]
    rfl
  | finished result =>
    have hteardown := teardown_apply ev (streamingOn job ev) result (job.armed ev lock)
    have hfinish : executeSdkLoop job ev { job.start with lock := lock } =
        (do teardown ev (streamingOn job ev) result; pure result) (job.armed ev lock) := by
      rw [hloop, hexit]
      rfl
    cases hflush : ev.raises .flush with
    | true =>
      rw [hflush] at hteardown
      rw [bind_of_none hteardown] at hfinish
      rw [bind_of_none hfinish]
      simp only [LoopExit.left, hflush, if_true, failed, Job.armed, Job.start]
      congr 2
      split <;> simp
    | false =>
      rw [hflush] at hteardown
      rw [bind_of_some hteardown, pure_apply] at hfinish
      rw [bind_of_some hfinish, report_apply]
      simp [LoopExit.left, hflush, Job.armed, Job.start]

/-- What a job leaves. -/
def left : Resources :=
  if job.validId then
    if setupRaises job ev then failed job [] false else (exit job ev).left job ev
  else { job.start with issued := [.error] }

/-- Every run of `process` leaves what its exit leaves. -/
theorem process_start : process job ev job.start = left job ev := by
  have hsame : SameButLock job.start (setup job ev job.start).2 := setup_sameButLock job ev _
  have hraises := setup_raises job ev
  unfold process left
  cases job.validId
  case false => rfl
  simp only [if_true]
  cases hsetup : setupRaises job ev with
  | true =>
    rw [hsetup] at hraises
    have hwork : work job ev job.start = (none, (setup job ev job.start).2) :=
      bind_of_none hraises.fails
    rw [handled_apply, hwork, hsame]
    rfl
  | false =>
    rw [hsetup] at hraises
    have hdone : setup job ev job.start =
        (some ⟨⟩, { job.start with lock := (setup job ev job.start).2.lock }) := by
      rw [← hsame]
      exact hraises.returns
    rw [work_of_setup job ev _ hdone]
    rfl

/-! ## When everything is torn down -/

/-- The session is accounted for without the job: it has none, or another job of it was created. -/
def sessionAnswered : Bool := !job.sessionToken || ev.resumed

/-- The exit of the loop tears everything down: a raising job has no channel, nor does a superseded
one, whose session is another job's by then; a finishing job has its channel in hand, a result to
report, and closes its session; or the post-processing raises, so that the error handler does the
latter two. -/
def LoopExit.tearsDown : LoopExit → Bool
  | .raised => !channelStarted job ev
  | .supersededRaised => false
  | .superseded => !channelStarted job ev && sessionAnswered job ev
  | .finished result =>
    (streamingOn job ev || !channelStarted job ev) &&
      (ev.raises .flush || (result.isSome &&
        (sessionAnswered job ev || (streamingOn job ev && !ev.raises .setCompleted))))

/-- The run tears everything down: with a bad id the session has to be accounted for, an exception
in the set-up is handled in full, and otherwise the exit of the loop decides. -/
def TearsDown : Prop :=
  if job.validId then
    if setupRaises job ev then True else (exit job ev).tearsDown job ev = true
  else sessionAnswered job ev = true

theorem tornDown_failed (channel : Bool) :
    TornDown (failed job [] channel) ev.resumed ↔ channel = false := by
  constructor
  · intro h
    exact h.stopped
  · intro h
    refine ⟨rfl, rfl, h, ?_⟩
    intro hrunning
    simp [failed] at hrunning

theorem start_running : job.start.status = some .running ↔ job.sessionToken = true := by
  unfold Job.start
  cases job.sessionToken <;> simp

/-- The session of the job is left as it was exactly for a job that has to be accounted for. -/
theorem notRunning_start :
    (job.start.status = some .running → ev.resumed = true) ↔ sessionAnswered job ev = true := by
  rw [start_running]
  unfold sessionAnswered
  cases job.sessionToken <;> simp

/-- The session of a finished job is left running only where `set_completed` was not reached. -/
theorem finished_notRunning (result : Option SdkResult) :
    ((if streamingOn job ev && !ev.raises .setCompleted
        then job.start.status.map (fun _ ↦ endStatus result) else job.start.status) = some .running →
      ev.resumed = true) ↔
    (sessionAnswered job ev || (streamingOn job ev && !ev.raises .setCompleted)) = true := by
  cases streamingOn job ev && !ev.raises .setCompleted with
  | false =>
    simp only [Bool.false_eq_true, if_false, Bool.or_false]
    exact notRunning_start job ev
  | true =>
    have hend : job.start.status.map (fun _ ↦ endStatus result) ≠ some .running := by
      unfold endStatus
      cases job.start.status <;> split <;> simp
    simp only [if_true, Bool.or_true, iff_true]
    intro h
    exact absurd h hend

/-- What an exit of the loop leaves is torn down exactly when the exit tears it down. -/
theorem tornDown_left (e : LoopExit) :
    TornDown (e.left job ev) ev.resumed ↔ e.tearsDown job ev = true := by
  cases e with
  | raised =>
    rw [LoopExit.left, tornDown_failed]
    simp [LoopExit.tearsDown]
  | supersededRaised =>
    constructor
    · intro h
      have honce := h.once
      simp [LoopExit.left, failed] at honce
    · intro h
      simp [LoopExit.tearsDown] at h
  | superseded =>
    have hsession := notRunning_start job ev
    constructor
    · intro h
      have hchannel : channelStarted job ev = false := h.stopped
      simp [LoopExit.tearsDown, hchannel, hsession.mp h.notRunning]
    · intro h
      simp only [LoopExit.tearsDown, Bool.and_eq_true, Bool.not_eq_true'] at h
      exact ⟨rfl, rfl, h.1, hsession.mpr h.2⟩
  | finished result =>
    cases hflush : ev.raises .flush with
    | true =>
      simp only [LoopExit.left, LoopExit.tearsDown, hflush, if_true]
      rw [tornDown_failed]
      cases channelStarted job ev <;> cases streamingOn job ev <;> simp
    | false =>
      have hsession := finished_notRunning job ev result
      simp only [LoopExit.left, LoopExit.tearsDown, hflush, Bool.false_eq_true, if_false,
        Bool.false_or]
      constructor
      · intro h
        have honce := h.once
        have hchannel := h.stopped
        have hanswered := hsession.mp h.notRunning
        rw [Bool.and_eq_true, Bool.and_eq_true]
        refine ⟨?_, ?_, hanswered⟩
        · cases hs : channelStarted job ev <;> simp_all
        · cases result <;> simp_all
      · intro h
        rw [Bool.and_eq_true, Bool.and_eq_true] at h
        obtain ⟨hchannel, hresult, hanswered⟩ := h
        refine ⟨?_, rfl, ?_, hsession.mpr hanswered⟩
        · cases result <;> simp_all
        · cases hs : channelStarted job ev <;> simp_all

/-- A run of `process` tears everything down exactly when its way out does: complete_job issued
once, the lock and the channel gone, the session no longer running or another job's. -/
theorem tornDown_iff :
    TornDown (process job ev job.start) ev.resumed ↔ TearsDown job ev := by
  rw [process_start]
  unfold left TearsDown
  cases job.validId
  case false =>
    simp only [Bool.false_eq_true, if_false]
    rw [← notRunning_start]
    constructor
    · intro h
      exact h.notRunning
    · intro h
      exact ⟨rfl, rfl, rfl, h⟩
  simp only [if_true]
  cases setupRaises job ev with
  | true =>
    simp only [if_true, iff_true]
    exact (tornDown_failed job ev false).mpr rfl
  | false =>
    simp only [Bool.false_eq_true, if_false]
    exact tornDown_left job ev _

/-- A streaming job in a worktree that is told to make way during its first SDK run. -/
def supersededJob : Job := ⟨true, true, true, true, 10⟩

/-- Nothing raises; the cancel signal ends the run. -/
def supersededEvents : Events where
  raises _ := false
  acquired := true
  released := true
  reacquired := true
  pending := false
  added := true
  addedDefault := true
  sdk _ := .cancelled
  userEvent _ := false
  inbox _ := false
  resumed := false

/-- The superseded job leaves its channel listening and its session running. -/
theorem not_tornDown : ¬ ∀ (job : Job) (ev : Events),
    TornDown (process job ev job.start) ev.resumed := by
  intro h
  have hstopped := (h supersededJob supersededEvents).stopped
  exact absurd hstopped (by decide)

end GithubAgent.Executor
