import GithubAgent.Lock.Processor

/-!
# Interrupting a job and continuing its session

A job that holds the lock of a worktree runs the agent in a loop
(`src/services/sandbox_executor/processor.py:552-880`) and listens for the cancel signal around
each of its SDK runs (`src/shared/worktree_lock.py:355-401`). A later job of the same worktree
publishes the signal, waits for the lock and resumes the session that the store then maps the
thread to. The set-up of the later job is that of `Processor`; here the run of the holder is
taken apart into its awaits.

The signal reaches only a subscription that is open, and a handler that is still listening when the
run ends. The superseded exit saves nothing: what the session store holds afterwards is what it
held before, and a result that had been returned already is dropped.
-/

namespace GithubAgent.Lock

open GithubAgent.Base GithubAgent.Shared

/-- Where the holder stands. In `waiting`, `stopping` and `interrupting` it is inside
`cancel_subscription`. -/
inductive HolderPc where
  | setup
  | top
  | waiting
  | stopping
  | interrupting
  | after
  | superseding
  | teardown
  | saving
  | marking
  | failing
  | releasing
  | ended
  deriving DecidableEq

/-- An exception may strike here other than that of the SDK run; the set-up, the awaits of the loop
and the `complete_job` calls raise, a save is logged. -/
def HolderPc.mayRaise : HolderPc → Bool
  | .setup => true
  | .top => true
  | .interrupting => true
  | .after => true
  | .superseding => true
  | .teardown => true
  | .marking => true
  | _ => false

/-- The task of `execute_sdk`; a result carries the session id of its `ResultMessage`. -/
inductive SdkTask where
  | running
  | returned (sessionId : Option String)
  | raised
  | cancelled
  deriving DecidableEq

/-- The task has a result. -/
def SdkTask.hasReturned : SdkTask → Bool
  | .returned _ => true
  | _ => false

/-- What `complete_job` is told. -/
inductive Report where
  | superseded
  | result (sessionId : Option String)
  | error
  deriving DecidableEq

/-- The job that holds the lock, with the locals of `_execute_sdk_loop`. `unhandled` counts the
messages of its subscription that the listener has yet to handle, and `announced` is the session id
its last SDK run announced. The last three fields only watch: the handler ran, the last run returned
after the signal was published, and the result the handler found returned. -/
structure Holder where
  pc : HolderPc
  continueCount : Nat
  currentSessionId : Option String
  sdk : SdkTask
  cancelRequested : Bool
  interrupted : Bool
  userInterrupt : Bool
  result : Option (Option String)
  unhandled : Nat
  announced : Option String
  reported : Option Report
  observed : Bool
  returnedAfter : Bool
  handledResult : Option (Option String)

/-- The subscription is open. -/
def Holder.subscribed (h : Holder) : Bool :=
  h.pc = .waiting ∨ h.pc = .stopping ∨ h.pc = .interrupting

/-- The two jobs: what the later one was created with, and of the holder its id, whether it
streams, and `MAX_AUTO_CONTINUES`. -/
structure Handover where
  waiter : Jobs Unit
  holderId : String
  streaming : Bool
  maxAutoContinues : Nat

/-- Redis, the session the store maps the thread to, and the two jobs. The last fields only watch:
the later job found the lock taken; its signal was published while the holder had yet to release;
it had no subscriber; an SDK run was started after it; one ended normally unobserved after it. -/
structure HandoverState where
  now : Nat
  redis : Redis
  stored : Option String
  holder : Holder
  waiter : Processor
  waited : Bool
  published : Bool
  missed : Bool
  startedAfter : Bool
  ranUnobserved : Bool

/-- A step of the holder. -/
inductive HolderAction where
  | start
  | subscribe
  | announce (sessionId : String)
  | sdkReturn (sessionId : Option String)
  | sdkRaise
  | sdkCancel
  | handle
  | userInterrupt
  | wake
  | stopped
  | shutdown
  | setInterrupted
  | decide (inbox : Bool)
  | complete
  | teardown
  | save
  | saveFails
  | mark
  | handleError
  | error
  | release

/-- A step of either job, or the passing of time. -/
inductive HandoverAction where
  | holder (a : HolderAction)
  | waiter
  | tick (ms : Nat)

section Steps

variable (cfg : Handover)

/-- The top of the loop, entered for the first time or by `continue` (`processor.py:567-569`). -/
def Holder.subscribe (h : Holder) : Holder :=
  { h with
    pc := .waiting
    sdk := .running
    cancelRequested := false
    interrupted := false
    userInterrupt := false
    unhandled := 0
    announced := none
    returnedAfter := false }

/-- `handle_cancel` (`processor.py:557-565`), in the listener task. -/
def Holder.handle (h : Holder) : Holder :=
  { h with
    interrupted := true
    cancelRequested := h.cancelRequested || h.sdk = .running
    unhandled := h.unhandled - 1
    observed := true
    handledResult :=
      match h.sdk with
      | .returned r => some r
      | _ => h.handledResult }

/-- The holder after `asyncio.wait` has returned (`processor.py:640-676`); the end of the
`async with` stops the listener. -/
def Holder.wake (h : Holder) : Holder :=
  match h.sdk with
  | .returned r => { h with pc := .after, result := some r, unhandled := 0 }
  | .raised => { h with pc := .failing, unhandled := 0 }
  | .cancelled => { h with pc := .interrupting, interrupted := true }
  | .running => { h with pc := .stopping, cancelRequested := true }

/-- The SDK task that the user interrupted has ended; its value is dropped
(`processor.py:666-676`). -/
def Holder.stopped (h : Holder) : Holder :=
  match h.sdk with
  | .raised => { h with pc := .failing, unhandled := 0 }
  | _ => { h with pc := .after, interrupted := true, unhandled := 0 }

/-- The end of an iteration (`processor.py:687-746`), with whether the inbox holds messages. -/
def Holder.decide (h : Holder) (inbox : Bool) : Holder :=
  if h.interrupted ∧ h.userInterrupt = false then { h with pc := .superseding }
  else if h.result = none ∧ h.interrupted = false then { h with pc := .failing }
  else if cfg.streaming ∧ inbox then
    { h with
      pc := if h.continueCount < cfg.maxAutoContinues then .top else .teardown
      continueCount := h.continueCount + 1
      currentSessionId := h.result.join }
  else
    { h with
      pc := .teardown
      result :=
        if h.interrupted ∧ h.result = none then some h.currentSessionId else h.result }

/-- One step of the holder. -/
def holderStep (s : HandoverState) : HolderAction → Option HandoverState
  | .start => if s.holder.pc = .setup then some { s with holder.pc := .top } else none
  | .subscribe =>
    if s.holder.pc = .top then
      some { s with
        holder := s.holder.subscribe
        startedAfter := s.startedAfter || s.published }
    else none
  | .announce sessionId =>
    if (s.holder.pc = .waiting ∨ s.holder.pc = .stopping) ∧ s.holder.sdk = .running then
      some { s with holder.announced := some sessionId }
    else none
  | .sdkReturn sessionId =>
    if (s.holder.pc = .waiting ∨ s.holder.pc = .stopping) ∧ s.holder.sdk = .running then
      some { s with holder := { s.holder with
        sdk := .returned sessionId
        announced := sessionId.or s.holder.announced
        returnedAfter := s.published } }
    else none
  | .sdkRaise =>
    if (s.holder.pc = .waiting ∨ s.holder.pc = .stopping) ∧ s.holder.sdk = .running then
      some { s with holder.sdk := .raised }
    else none
  | .sdkCancel =>
    if (s.holder.pc = .waiting ∨ s.holder.pc = .stopping) ∧ s.holder.sdk = .running ∧
        s.holder.cancelRequested = true then
      some { s with holder.sdk := .cancelled }
    else none
  | .handle =>
    if s.holder.subscribed = true ∧ 0 < s.holder.unhandled then
      some { s with holder := s.holder.handle }
    else none
  | .userInterrupt =>
    if cfg.streaming ∧ s.holder.pc ≠ .ended then some { s with holder.userInterrupt := true }
    else none
  | .wake =>
    if s.holder.pc = .waiting ∧ (s.holder.sdk ≠ .running ∨ s.holder.userInterrupt = true) then
      some { s with
        holder := s.holder.wake
        ranUnobserved := s.ranUnobserved ||
          s.holder.sdk.hasReturned && s.holder.returnedAfter && !s.holder.observed }
    else none
  | .stopped =>
    if s.holder.pc = .stopping ∧ s.holder.sdk ≠ .running then
      some { s with holder := s.holder.stopped }
    else none
  | .shutdown =>
    if s.holder.pc = .waiting then
      some { s with holder := { s.holder with
        pc := .after, interrupted := true, unhandled := 0 } }
    else none
  | .setInterrupted =>
    if s.holder.pc = .interrupting then
      some { s with
        redis := (updateLockField s.redis s.now cfg.waiter.key (.status .interrupted)).1
        holder := { s.holder with pc := .after, unhandled := 0 } }
    else none
  | .decide inbox =>
    if s.holder.pc = .after then some { s with holder := s.holder.decide cfg inbox } else none
  | .complete =>
    if s.holder.pc = .superseding then
      some { s with holder := { s.holder with pc := .releasing, reported := some .superseded } }
    else none
  | .teardown =>
    if s.holder.pc = .teardown then
      some { s with holder.pc := if s.holder.result = none then .releasing else .saving }
    else none
  | .save =>
    if s.holder.pc = .saving then
      match s.holder.result.join with
      | some sessionId =>
        some { s with
          redis := (updateLockField s.redis s.now cfg.waiter.key (.sessionId sessionId)).1
          stored := some sessionId
          holder.pc := .marking }
      | none => some { s with holder.pc := .marking }
    else none
  | .saveFails => if s.holder.pc = .saving then some { s with holder.pc := .marking } else none
  | .mark =>
    if s.holder.pc = .marking then
      some { s with holder := { s.holder with
        pc := .releasing, reported := s.holder.result.map .result } }
    else none
  | .handleError =>
    if s.holder.pc = .failing then
      some { s with holder := { s.holder with pc := .releasing, reported := some .error } }
    else none
  | .error =>
    if s.holder.pc.mayRaise then
      some { s with holder := { s.holder with pc := .failing, unhandled := 0 } }
    else none
  | .release =>
    if s.holder.pc = .releasing then
      some { s with
        redis := (releaseScript s.redis s.now cfg.waiter.key cfg.holderId).1
        holder.pc := .ended }
    else none

/-- The next command of the later job. Its signal goes to the open subscription, and its
`get_session` reads the store. -/
def waiterStep (s : HandoverState) : Option HandoverState :=
  match s.waiter.pc with
  | .session => some { s with waiter := s.waiter.resume s.stored }
  | .cancel =>
    (jobCommand cfg.waiter () s.now s.redis s.waiter).map fun (r, p) ↦
      { s with
        redis := r
        waiter := p
        holder.unhandled :=
          if s.holder.subscribed then s.holder.unhandled + 1 else s.holder.unhandled
        published := s.published || s.holder.pc ≠ .ended
        missed := s.missed || !s.holder.subscribed }
  | _ =>
    (jobCommand cfg.waiter () s.now s.redis s.waiter).map fun (r, p) ↦
      { s with redis := r, waiter := p, waited := s.waited || p.pc = .lockInfo }

/-- One step of the system. -/
def handoverStep (s : HandoverState) : HandoverAction → Option HandoverState
  | .holder a => holderStep cfg s a
  | .waiter => waiterStep cfg s
  | .tick ms => some { s with now := s.now + ms }

/-- The holder has just acquired the lock, the later job stands before its first `acquire`; the
store, the pending key and the session of the holder are arbitrary. -/
def HandoverInit (s : HandoverState) : Prop :=
  (∃ info, s.redis.locks.get s.now cfg.waiter.key.lockKey = some info ∧
    info.jobId = cfg.holderId) ∧
  s.holder =
    { pc := .setup, continueCount := 0, currentSessionId := s.holder.currentSessionId
      sdk := .running, cancelRequested := false, interrupted := false, userInterrupt := false
      result := none, unhandled := 0, announced := none, reported := none
      observed := false, returnedAfter := false, handledResult := none } ∧
  s.waiter = (jobInitial cfg.waiter).jobs () ∧
  s.waited = false ∧ s.published = false ∧ s.missed = false ∧ s.startedAfter = false ∧
  s.ranUnobserved = false

/-- A job that holds the lock, and a later one that wants it. -/
def handoverSystem : System HandoverState HandoverAction where
  init := HandoverInit cfg
  step := handoverStep cfg

end Steps

/-- The later job got the lock after it had found it taken. -/
def HandoverState.acquired (s : HandoverState) : Prop :=
  s.waited = true ∧ (s.waiter.pc = .getPending ∨ s.waiter.pc = .session ∨ s.waiter.pc = .running)

/-- The store maps the thread to the session, if there is one. -/
def HandoverState.Maps (s : HandoverState) (sessionId : Option String) : Prop :=
  ∀ id, sessionId = some id → s.stored = some id

/-- Interrupt and continue: no SDK run is started once the signal was published, and none ends
normally unobserved after it; the later job finds the session of the last run in the store and
resumes it; a result that the handler found returned is saved and reported. -/
structure Continues (s : HandoverState) : Prop where
  noLaterRun : s.startedAfter = false
  noneUnobserved : s.ranUnobserved = false
  stored : s.acquired → s.Maps s.holder.announced
  resumed : s.waited = true → s.waiter.pc = .running → ∀ id, s.holder.announced = some id →
    s.waiter.sessionMode = .resume ∧ s.waiter.sessionId = some id
  kept : s.holder.pc = .ended → ∀ r, s.holder.handledResult = some r →
    s.holder.reported = some (.result r) ∧ s.Maps r

/-! ### The condition on the steps -/

/-- The session of the last run is the one in the store, if it announced one. -/
def HandoverState.Recorded (s : HandoverState) : Prop :=
  s.holder.announced = none ∨ s.stored = s.holder.announced

/-- An exit that saves nothing loses nothing: neither a session nor a result the handler found. -/
def HandoverState.NothingToLose (s : HandoverState) : Prop :=
  s.Recorded ∧ s.holder.handledResult = none

/-- The condition on a step: no SDK run is started after a signal without a subscriber, and no
message is left unhandled by a run that returns after it; the holder does not continue after a
signal it heard; its exits without a save lose nothing, and a save is of the last run's session;
the lock does not expire under the holder, nor the pending prompt under the later job. -/
def HandsOver (cfg : Handover) (s : HandoverState) : HandoverAction → Prop
  | .holder .subscribe => s.missed = false
  | .holder .wake =>
    (s.holder.sdk.hasReturned = true → s.holder.returnedAfter = true → s.holder.unhandled = 0) ∧
      (s.holder.sdk = .raised → s.NothingToLose)
  | .holder .stopped =>
    (s.holder.sdk.hasReturned = true → s.holder.handledResult = none) ∧
      (s.holder.sdk = .raised → s.NothingToLose)
  | .holder .shutdown => s.holder.handledResult = none
  | .holder (.decide inbox) =>
    if s.holder.interrupted ∧ s.holder.userInterrupt = false then s.NothingToLose
    else if s.holder.result = none ∧ s.holder.interrupted = false then s.NothingToLose
    else cfg.streaming ∧ inbox →
      (s.published = true → s.missed = true) ∧ s.holder.handledResult = none
  | .holder .teardown => s.holder.result = none → s.NothingToLose
  | .holder .save =>
    s.holder.announced = none ∨ s.holder.result = some s.holder.announced ∨
      (s.holder.result = some none ∧ s.stored = s.holder.announced)
  | .holder .saveFails => s.NothingToLose
  | .holder .error => s.NothingToLose
  | .waiter =>
    (s.waiter.pc = .reacquire → s.redis.locks.has s.now cfg.waiter.key.lockKey = false →
      s.holder.pc = .ended) ∧
    (s.waiter.pc = .getPending → s.redis.pending.get s.now cfg.waiter.key.pendingKey = none →
      s.holder.announced = none)
  | _ => True

instance (s : HandoverState) : Decidable s.Recorded := inferInstanceAs (Decidable (_ ∨ _))

instance (s : HandoverState) : Decidable s.NothingToLose := inferInstanceAs (Decidable (_ ∧ _))

instance (cfg : Handover) (s : HandoverState) :
    (a : HandoverAction) → Decidable (HandsOver cfg s a)
  | .holder .start => .isTrue trivial
  | .holder .subscribe => inferInstanceAs (Decidable (_ = _))
  | .holder (.announce _) => .isTrue trivial
  | .holder (.sdkReturn _) => .isTrue trivial
  | .holder .sdkRaise => .isTrue trivial
  | .holder .sdkCancel => .isTrue trivial
  | .holder .handle => .isTrue trivial
  | .holder .userInterrupt => .isTrue trivial
  | .holder .wake => inferInstanceAs (Decidable ((_ → _ → _) ∧ (_ → HandoverState.NothingToLose _)))
  | .holder .stopped => inferInstanceAs (Decidable ((_ → _) ∧ (_ → HandoverState.NothingToLose _)))
  | .holder .shutdown => inferInstanceAs (Decidable (_ = _))
  | .holder .setInterrupted => .isTrue trivial
  | .holder (.decide _) => inferInstanceAs (Decidable (ite _ _ _))
  | .holder .complete => .isTrue trivial
  | .holder .teardown => inferInstanceAs (Decidable (_ → HandoverState.NothingToLose _))
  | .holder .save => inferInstanceAs (Decidable (_ ∨ _ ∨ _))
  | .holder .saveFails => inferInstanceAs (Decidable (HandoverState.NothingToLose _))
  | .holder .mark => .isTrue trivial
  | .holder .handleError => .isTrue trivial
  | .holder .error => inferInstanceAs (Decidable (HandoverState.NothingToLose _))
  | .holder .release => .isTrue trivial
  | .waiter => inferInstanceAs (Decidable ((_ → _ → _) ∧ (_ → _ → _)))
  | .tick _ => .isTrue trivial

/-! ### Who hears the signal -/

section Invariants

variable {cfg : Handover} {s s' : HandoverState}

/-- A signal published before a run had no subscriber; one published during a run was handled or
waits in the subscription. -/
structure Heard (s : HandoverState) : Prop where
  before : s.published = true → s.holder.pc = .setup ∨ s.holder.pc = .top → s.missed = true
  during : s.holder.subscribed = true → s.missed = false
  waits : s.holder.subscribed = true → s.published = true →
    s.holder.observed = true ∨ 0 < s.holder.unhandled
  after : s.holder.returnedAfter = true → s.published = true
  noLaterRun : s.startedAfter = false
  noneUnobserved : s.ranUnobserved = false

/-- A step that neither opens a subscription nor touches the one that is open. -/
theorem Heard.frame (h : Heard s) (hpublished : s'.published = s.published)
    (hmissed : s'.missed = s.missed) (hstarted : s'.startedAfter = s.startedAfter)
    (hran : s'.ranUnobserved = s.ranUnobserved)
    (hafter : s'.holder.returnedAfter = s.holder.returnedAfter)
    (hsetup : s'.holder.pc = .setup ∨ s'.holder.pc = .top →
      s.holder.pc = .setup ∨ s.holder.pc = .top)
    (hopen : s'.holder.subscribed = true → s.holder.subscribed = true ∧
      s'.holder.observed = s.holder.observed ∧ s'.holder.unhandled = s.holder.unhandled) :
    Heard s' where
  before hp hpc := by
    rw [hmissed]
    exact h.before (hpublished ▸ hp) (hsetup hpc)
  during ho := by
    rw [hmissed]
    exact h.during (hopen ho).1
  waits ho hp := by
    obtain ⟨hold, hobserved, hunhandled⟩ := hopen ho
    rw [hobserved, hunhandled]
    exact h.waits hold (hpublished ▸ hp)
  after hr := by
    rw [hpublished]
    exact h.after (hafter ▸ hr)
  noLaterRun := hstarted.trans h.noLaterRun
  noneUnobserved := hran.trans h.noneUnobserved

/-- A run opens its own subscription, so it starts with nothing published. -/
theorem Heard.subscribe (h : Heard s) (hpc : s.holder.pc = .top) (hok : s.missed = false) :
    Heard { s with
      holder := s.holder.subscribe, startedAfter := s.startedAfter || s.published } := by
  have hpublished : s.published = false := by
    cases hpublished : s.published with
    | false => rfl
    | true => simp [h.before hpublished (.inr hpc)] at hok
  constructor
  · simp [Holder.subscribe]
  · simp [hok]
  · simp [hpublished]
  · simp [Holder.subscribe]
  · simp [h.noLaterRun, hpublished]
  · exact h.noneUnobserved

/-- The wait ends observed, unless the subscription still holds the message. -/
theorem Heard.wake (h : Heard s) (hpc : s.holder.pc = .waiting)
    (hok : s.holder.sdk.hasReturned = true → s.holder.returnedAfter = true →
      s.holder.unhandled = 0) :
    Heard { s with
      holder := s.holder.wake
      ranUnobserved := s.ranUnobserved ||
        s.holder.sdk.hasReturned && s.holder.returnedAfter && !s.holder.observed } := by
  have hopen : s.holder.subscribed = true := by simp [Holder.subscribed, hpc]
  have hran : (s.holder.sdk.hasReturned && s.holder.returnedAfter && !s.holder.observed) =
      false := by
    by_contra hnot
    simp only [Bool.not_eq_false, Bool.and_eq_true, Bool.not_eq_true'] at hnot
    obtain ⟨⟨hreturned, hafter⟩, hobserved⟩ := hnot
    rcases h.waits hopen (h.after hafter) with hseen | hpending
    · rw [hseen] at hobserved
      cases hobserved
    · have hnone := hok hreturned hafter
      omega
  refine h.frame rfl rfl rfl ?_ ?_ ?_ ?_
  · simp [hran]
  · cases hsdk : s.holder.sdk <;> simp [Holder.wake, hsdk]
  · cases hsdk : s.holder.sdk <;> simp [Holder.wake, hsdk]
  · intro _
    refine ⟨hopen, ?_⟩
    cases hsdk : s.holder.sdk <;> simp_all [Holder.wake, Holder.subscribed]

/-- The holder does not continue after a signal it heard. -/
theorem Heard.decide (h : Heard s) {inbox : Bool}
    (hok : HandsOver cfg s (.holder (.decide inbox))) :
    Heard { s with holder := s.holder.decide cfg inbox } := by
  simp only [HandsOver] at hok
  unfold Holder.decide
  split
  · exact h.frame rfl rfl rfl rfl rfl (by simp) (by simp [Holder.subscribed])
  · next hsuperseded =>
    rw [if_neg hsuperseded] at hok
    split
    · exact h.frame rfl rfl rfl rfl rfl (by simp) (by simp [Holder.subscribed])
    · next hresult =>
      rw [if_neg hresult] at hok
      split
      · next hinbox =>
        refine ⟨fun hp _ ↦ (hok hinbox).1 hp, ?_, ?_, h.after, h.noLaterRun, h.noneUnobserved⟩
        · simp only [Holder.subscribed]
          split <;> simp
        · simp only [Holder.subscribed]
          split <;> simp
      · exact h.frame rfl rfl rfl rfl rfl (by simp) (by simp [Holder.subscribed])

/-- A step of the holder neither misses a message nor runs past one. -/
theorem Heard.holderStep {a : HolderAction} (h : Heard s)
    (hok : HandsOver cfg s (.holder a)) (hstep : holderStep cfg s a = some s') : Heard s' := by
  cases a with
  | save =>
    simp only [Lock.holderStep, Option.ite_none_right_eq_some] at hstep
    obtain ⟨-, hstep⟩ := hstep
    split at hstep
    · obtain rfl := Option.some.inj hstep
      exact h.frame rfl rfl rfl rfl rfl (by simp) (by simp [Holder.subscribed])
    · obtain rfl := Option.some.inj hstep
      exact h.frame rfl rfl rfl rfl rfl (by simp) (by simp [Holder.subscribed])
  | start =>
    obtain ⟨hpc, rfl⟩ := System.guarded_eq_some hstep
    exact h.frame rfl rfl rfl rfl rfl (fun _ ↦ .inl hpc) (by simp [Holder.subscribed])
  | subscribe =>
    obtain ⟨hpc, rfl⟩ := System.guarded_eq_some hstep
    exact h.subscribe hpc hok
  | announce | sdkRaise | sdkCancel | userInterrupt =>
    obtain ⟨-, rfl⟩ := System.guarded_eq_some hstep
    exact h.frame rfl rfl rfl rfl rfl id fun ho ↦ ⟨ho, rfl, rfl⟩
  | sdkReturn =>
    obtain ⟨-, rfl⟩ := System.guarded_eq_some hstep
    exact ⟨h.before, h.during, h.waits, id, h.noLaterRun, h.noneUnobserved⟩
  | handle =>
    obtain ⟨-, rfl⟩ := System.guarded_eq_some hstep
    exact ⟨h.before, h.during, fun _ _ ↦ .inl rfl, h.after, h.noLaterRun, h.noneUnobserved⟩
  | wake =>
    obtain ⟨hpc, rfl⟩ := System.guarded_eq_some hstep
    exact h.wake hpc.1 hok.1
  | stopped =>
    obtain ⟨-, rfl⟩ := System.guarded_eq_some hstep
    refine h.frame rfl rfl rfl rfl ?_ ?_ ?_ <;>
      cases hsdk : s.holder.sdk <;> simp [Holder.stopped, Holder.subscribed, hsdk]
  | decide =>
    obtain ⟨-, rfl⟩ := System.guarded_eq_some hstep
    exact h.decide hok
  | teardown =>
    obtain ⟨-, rfl⟩ := System.guarded_eq_some hstep
    refine h.frame rfl rfl rfl rfl rfl ?_ ?_ <;>
      by_cases hresult : s.holder.result = none <;> simp [Holder.subscribed, hresult]
  | shutdown | setInterrupted | complete | saveFails | mark | handleError | error | release =>
    obtain ⟨-, rfl⟩ := System.guarded_eq_some hstep
    exact h.frame rfl rfl rfl rfl rfl (by simp) (by simp [Holder.subscribed])

/-! ### What is left in the store -/

/-- Where a result is that the handler found returned. -/
def HandoverState.Keeps (s : HandoverState) (r : Option String) : Prop :=
  match s.holder.pc with
  | .waiting => s.holder.sdk = .returned r
  | .stopping => s.holder.sdk = .returned r
  | .after => s.holder.result = some r
  | .teardown => s.holder.result = some r
  | .saving => s.holder.result = some r
  | .marking => s.holder.result = some r ∧ s.Maps r
  | .releasing => s.holder.reported = some (.result r) ∧ s.Maps r
  | .ended => s.holder.reported = some (.result r) ∧ s.Maps r
  | _ => False

/-- Nothing is saved any more. -/
def HolderPc.saved : HolderPc → Bool
  | .superseding => true
  | .failing => true
  | .marking => true
  | .releasing => true
  | .ended => true
  | _ => false

/-- Where nothing is saved any more the session of the last run is recorded, and the holder keeps
every result that the handler found. -/
structure Saves (s : HandoverState) : Prop where
  recorded : s.holder.pc.saved = true → s.Recorded
  kept : ∀ r, s.holder.handledResult = some r → s.Keeps r
  cancelled : s.holder.pc = .interrupting → s.holder.sdk = .cancelled

/-- A step that leaves the store, the session of the last run and what the handler found as they
are. -/
theorem Saves.frame (h : Saves s) (hstored : s'.stored = s.stored)
    (hannounced : s'.holder.announced = s.holder.announced)
    (hhandled : s'.holder.handledResult = s.holder.handledResult)
    (hsaved : s'.holder.pc.saved = true → s.holder.pc.saved = true ∨ s.Recorded)
    (hkeeps : ∀ r, s.holder.handledResult = some r → s.Keeps r → s'.Keeps r)
    (hcancelled : s'.holder.pc = .interrupting → s'.holder.sdk = .cancelled) : Saves s' where
  recorded hpc := by
    rw [HandoverState.Recorded, hstored, hannounced]
    exact (hsaved hpc).elim h.recorded id
  kept r hr := by
    rw [hhandled] at hr
    exact hkeeps r hr (h.kept r hr)
  cancelled := hcancelled

/-- Where the handler found no result there is none to keep. -/
theorem keeps_of_none {t : HandoverState} (hnone : s.holder.handledResult = none) (r : Option String)
    (hr : s.holder.handledResult = some r) (_ : s.Keeps r) : t.Keeps r := by
  rw [hnone] at hr
  cases hr

/-- While an SDK run goes on the handler has found no result. -/
theorem Saves.handledResult_of_running (h : Saves s) (hpc : s.holder.pc = .waiting ∨
    s.holder.pc = .stopping) (hsdk : s.holder.sdk = .running) : s.holder.handledResult = none := by
  cases hr : s.holder.handledResult with
  | none => rfl
  | some r =>
    have hkeeps := h.kept r hr
    rcases hpc with hpc | hpc
    · simp [HandoverState.Keeps, hpc, hsdk] at hkeeps
    · simp [HandoverState.Keeps, hpc, hsdk] at hkeeps

/-- A step within the SDK run, which the handler has found nothing of. -/
theorem Saves.within (h : Saves s) (hpc : s.holder.pc = .waiting ∨ s.holder.pc = .stopping)
    (hsdk : s.holder.sdk = .running) (hsame : s'.holder.pc = s.holder.pc)
    (hhandled : s'.holder.handledResult = s.holder.handledResult) : Saves s' where
  recorded hsaved := by
    rw [hsame] at hsaved
    rcases hpc with hpc | hpc
    · rw [hpc] at hsaved
      cases hsaved
    · rw [hpc] at hsaved
      cases hsaved
  kept r hr := by
    rw [hhandled, h.handledResult_of_running hpc hsdk] at hr
    cases hr
  cancelled hinterrupting := by
    rw [hsame] at hinterrupting
    rcases hpc with hpc | hpc
    · rw [hpc] at hinterrupting
      cases hinterrupting
    · rw [hpc] at hinterrupting
      cases hinterrupting

/-- The handler finds the result of a run that has returned. -/
theorem Saves.handle (h : Saves s) (hopen : s.holder.subscribed = true) :
    Saves { s with holder := s.holder.handle } := by
  obtain ⟨recorded, kept, cancelled⟩ := h
  have hpc : s.holder.pc = .waiting ∨ s.holder.pc = .stopping ∨ s.holder.pc = .interrupting := by
    simpa [Holder.subscribed] using hopen
  refine ⟨?_, ?_, cancelled⟩
  · intro hsaved
    have hnot : s.holder.pc.saved = false := by
      rcases hpc with hpc | hpc | hpc <;> rw [hpc] <;> rfl
    simp [Holder.handle, hnot] at hsaved
  · intro r hr
    cases hsdk : s.holder.sdk with
    | returned r' =>
      have hrr : r' = r := by simpa [Holder.handle, hsdk] using hr
      rcases hpc with hpc | hpc | hpc
      · simp [HandoverState.Keeps, Holder.handle, hpc, hsdk, hrr]
      · simp [HandoverState.Keeps, Holder.handle, hpc, hsdk, hrr]
      · rw [cancelled hpc] at hsdk
        cases hsdk
    | _ =>
      have hold : s.holder.handledResult = some r := by simpa [Holder.handle, hsdk] using hr
      have hkeeps := kept r hold
      rcases hpc with hpc | hpc | hpc <;> simp [HandoverState.Keeps, hpc, hsdk] at hkeeps

/-- A run that the handler found returned hands its result over at the end of the wait. -/
theorem Saves.wake (h : Saves s) (hpc : s.holder.pc = .waiting)
    (hok : s.holder.sdk = .raised → s.NothingToLose) {ran : Bool} :
    Saves { s with holder := s.holder.wake, ranUnobserved := ran } := by
  cases hsdk : s.holder.sdk with
  | returned r' =>
    refine h.frame rfl ?_ ?_ ?_ (fun r _ hkeeps ↦ ?_) ?_
    · simp [Holder.wake, hsdk]
    · simp [Holder.wake, hsdk]
    · simp [Holder.wake, hsdk, HolderPc.saved]
    · simpa [HandoverState.Keeps, Holder.wake, hpc, hsdk] using hkeeps
    · simp [Holder.wake, hsdk]
  | raised =>
    obtain ⟨hrecorded, hnone⟩ := hok hsdk
    refine h.frame rfl ?_ ?_ (fun _ ↦ .inr hrecorded) (keeps_of_none hnone) ?_
    · simp [Holder.wake, hsdk]
    · simp [Holder.wake, hsdk]
    · simp [Holder.wake, hsdk]
  | cancelled =>
    refine h.frame rfl ?_ ?_ ?_ (fun r _ hkeeps ↦ ?_) ?_
    · simp [Holder.wake, hsdk]
    · simp [Holder.wake, hsdk]
    · simp [Holder.wake, hsdk, HolderPc.saved]
    · simp [HandoverState.Keeps, hpc, hsdk] at hkeeps
    · simp [Holder.wake, hsdk]
  | running =>
    refine h.frame rfl ?_ ?_ ?_ (fun r _ hkeeps ↦ ?_) ?_
    · simp [Holder.wake, hsdk]
    · simp [Holder.wake, hsdk]
    · simp [Holder.wake, hsdk, HolderPc.saved]
    · simp [HandoverState.Keeps, hpc, hsdk] at hkeeps
    · simp [Holder.wake, hsdk]

/-- The value of a run that the user stopped is dropped, so the handler may not have found it. -/
theorem Saves.stopped (h : Saves s) (hpc : s.holder.pc = .stopping)
    (hok : HandsOver cfg s (.holder .stopped)) :
    Saves { s with holder := s.holder.stopped } := by
  have hnone : s.holder.handledResult = none := by
    cases hr : s.holder.handledResult with
    | none => rfl
    | some r =>
      have hsdk : s.holder.sdk = .returned r := by
        simpa [HandoverState.Keeps, hpc] using h.kept r hr
      rw [hok.1 (by rw [hsdk]; rfl)] at hr
      cases hr
  cases hsdk : s.holder.sdk with
  | raised =>
    refine h.frame rfl ?_ ?_ (fun _ ↦ .inr (hok.2 hsdk).1) (keeps_of_none hnone) ?_ <;>
      simp [Holder.stopped, hsdk]
  | _ =>
    refine h.frame rfl ?_ ?_ ?_ (keeps_of_none hnone) ?_ <;>
      simp [Holder.stopped, hsdk, HolderPc.saved]

/-- The holder saves a result that the handler found, unless there is nothing to lose. -/
theorem Saves.decide (h : Saves s) (hpc : s.holder.pc = .after) {inbox : Bool}
    (hok : HandsOver cfg s (.holder (.decide inbox))) :
    Saves { s with holder := s.holder.decide cfg inbox } := by
  simp only [HandsOver] at hok
  unfold Holder.decide
  split
  · next hsuperseded =>
    rw [if_pos hsuperseded] at hok
    exact h.frame rfl rfl rfl (fun _ ↦ .inr hok.1) (keeps_of_none hok.2) (by simp)
  · next hsuperseded =>
    rw [if_neg hsuperseded] at hok
    split
    · next hresult =>
      rw [if_pos hresult] at hok
      exact h.frame rfl rfl rfl (fun _ ↦ .inr hok.1) (keeps_of_none hok.2) (by simp)
    · next hresult =>
      rw [if_neg hresult] at hok
      split
      · next hinbox =>
        refine h.frame rfl rfl rfl ?_ (keeps_of_none (hok hinbox).2) ?_
        · by_cases hcount : s.holder.continueCount < cfg.maxAutoContinues <;>
            simp [hcount, HolderPc.saved]
        · by_cases hcount : s.holder.continueCount < cfg.maxAutoContinues <;> simp [hcount]
      · refine h.frame rfl rfl rfl (by simp [HolderPc.saved]) (fun r _ hkeeps ↦ ?_) (by simp)
        have hresult : s.holder.result = some r := by
          simpa only [HandoverState.Keeps, hpc] using hkeeps
        simp [HandoverState.Keeps, hresult]

/-- The save is of the last run's session, so the store maps the thread to it. -/
theorem Saves.save (h : Saves s) (hpc : s.holder.pc = .saving)
    (hok : HandsOver cfg s (.holder .save)) (hstep : Lock.holderStep cfg s .save = some s') :
    Saves s' := by
  simp only [Lock.holderStep, Option.ite_none_right_eq_some] at hstep
  obtain ⟨-, hstep⟩ := hstep
  have hresult : ∀ r, s.holder.handledResult = some r → s.holder.result = some r := by
    intro r hr
    simpa only [HandoverState.Keeps, hpc] using h.kept r hr
  split at hstep
  · next sessionId hjoin =>
    obtain rfl := Option.some.inj hstep
    refine ⟨fun _ ↦ ?_, fun r hr ↦ ?_, by simp⟩
    · rcases hok with hnone | hlast | ⟨hlost, -⟩
      · exact .inl hnone
      · rw [hlast] at hjoin
        exact .inr hjoin.symm
      · rw [hlost] at hjoin
        cases hjoin
    · refine ⟨hresult r hr, fun id hid ↦ ?_⟩
      rw [hresult r hr, hid] at hjoin
      exact hjoin.symm
  · next hjoin =>
    obtain rfl := Option.some.inj hstep
    refine h.frame rfl rfl rfl (fun _ ↦ .inr ?_) (fun r hr _ ↦ ?_) (by simp)
    · rcases hok with hnone | hlast | ⟨-, hsame⟩
      · exact .inl hnone
      · rw [hlast] at hjoin
        exact .inl hjoin
      · exact .inr hsame
    · refine ⟨hresult r hr, fun id hid ↦ ?_⟩
      rw [hresult r hr, hid] at hjoin
      cases hjoin

/-- A result that the handler found goes from the task into `result`, from there into the store, and
is reported; where the holder leaves this path there is nothing to lose. -/
theorem Saves.holderStep {a : HolderAction} (h : Saves s)
    (hok : HandsOver cfg s (.holder a)) (hstep : holderStep cfg s a = some s') : Saves s' := by
  cases a with
  | start =>
    obtain ⟨hpc, rfl⟩ := System.guarded_eq_some hstep
    refine h.frame rfl rfl rfl (by simp [HolderPc.saved]) (fun r _ hkeeps ↦ ?_) (by simp)
    simp [HandoverState.Keeps, hpc] at hkeeps
  | subscribe =>
    obtain ⟨hpc, rfl⟩ := System.guarded_eq_some hstep
    refine ⟨by simp [Holder.subscribe, HolderPc.saved], fun r hr ↦ ?_, by simp [Holder.subscribe]⟩
    have hkeeps := h.kept r hr
    simp [HandoverState.Keeps, hpc] at hkeeps
  | announce | sdkReturn | sdkRaise =>
    obtain ⟨⟨hpc, hsdk⟩, rfl⟩ := System.guarded_eq_some hstep
    exact h.within hpc hsdk rfl rfl
  | sdkCancel =>
    obtain ⟨⟨hpc, hsdk, -⟩, rfl⟩ := System.guarded_eq_some hstep
    exact h.within hpc hsdk rfl rfl
  | handle =>
    obtain ⟨hopen, rfl⟩ := System.guarded_eq_some hstep
    exact h.handle hopen.1
  | userInterrupt =>
    obtain ⟨-, rfl⟩ := System.guarded_eq_some hstep
    exact h.frame rfl rfl rfl .inl (fun r _ hkeeps ↦ hkeeps) h.cancelled
  | wake =>
    obtain ⟨hpc, rfl⟩ := System.guarded_eq_some hstep
    exact h.wake hpc.1 hok.2
  | stopped =>
    obtain ⟨hpc, rfl⟩ := System.guarded_eq_some hstep
    exact h.stopped hpc.1 hok
  | shutdown =>
    obtain ⟨-, rfl⟩ := System.guarded_eq_some hstep
    exact h.frame rfl rfl rfl (by simp [HolderPc.saved]) (keeps_of_none hok) (by simp)
  | setInterrupted =>
    obtain ⟨hpc, rfl⟩ := System.guarded_eq_some hstep
    refine h.frame rfl rfl rfl (by simp [HolderPc.saved]) (fun r _ hkeeps ↦ ?_) (by simp)
    simp [HandoverState.Keeps, hpc] at hkeeps
  | decide =>
    obtain ⟨hpc, rfl⟩ := System.guarded_eq_some hstep
    exact h.decide hpc hok
  | complete | handleError =>
    obtain ⟨hpc, rfl⟩ := System.guarded_eq_some hstep
    refine h.frame rfl rfl rfl (fun _ ↦ .inl (by rw [hpc]; rfl)) (fun r _ hkeeps ↦ ?_) (by simp)
    simp [HandoverState.Keeps, hpc] at hkeeps
  | teardown =>
    obtain ⟨hpc, rfl⟩ := System.guarded_eq_some hstep
    by_cases hresult : s.holder.result = none
    · obtain ⟨hrecorded, hnone⟩ := hok hresult
      exact h.frame rfl rfl rfl (fun _ ↦ .inr hrecorded) (keeps_of_none hnone) (by simp [hresult])
    · refine h.frame rfl rfl rfl (by simp [hresult, HolderPc.saved]) (fun r _ hkeeps ↦ ?_)
        (by simp [hresult])
      have hsome : s.holder.result = some r := by
        simpa only [HandoverState.Keeps, hpc] using hkeeps
      simp [HandoverState.Keeps, hsome]
  | save =>
    have hpc : s.holder.pc = .saving := (Option.ite_none_right_eq_some.mp hstep).1
    exact h.save hpc hok hstep
  | saveFails =>
    obtain ⟨-, rfl⟩ := System.guarded_eq_some hstep
    exact h.frame rfl rfl rfl (fun _ ↦ .inr hok.1) (keeps_of_none hok.2) (by simp)
  | mark =>
    obtain ⟨hpc, rfl⟩ := System.guarded_eq_some hstep
    refine h.frame rfl rfl rfl (fun _ ↦ .inl (by rw [hpc]; rfl)) (fun r _ hkeeps ↦ ?_) (by simp)
    obtain ⟨hresult, hmaps⟩ : s.holder.result = some r ∧ s.Maps r := by
      simpa only [HandoverState.Keeps, hpc] using hkeeps
    exact ⟨by simp [hresult], hmaps⟩
  | error =>
    obtain ⟨-, rfl⟩ := System.guarded_eq_some hstep
    exact h.frame rfl rfl rfl (fun _ ↦ .inr hok.1) (keeps_of_none hok.2) (by simp)
  | release =>
    obtain ⟨hpc, rfl⟩ := System.guarded_eq_some hstep
    refine h.frame rfl rfl rfl (fun _ ↦ .inl (by rw [hpc]; rfl)) (fun r _ hkeeps ↦ ?_) (by simp)
    have hkept : s.holder.reported = some (.result r) ∧ s.Maps r := by
      simpa only [HandoverState.Keeps, hpc] using hkeeps
    exact hkept

/-! ### The later job -/

/-- Of the holder the later job only touches the unhandled messages. -/
theorem waiterStep_holder (hstep : waiterStep cfg s = some s') :
    s'.stored = s.stored ∧ s'.startedAfter = s.startedAfter ∧ s'.ranUnobserved = s.ranUnobserved ∧
      ∃ n, s'.holder = { s.holder with unhandled := n } := by
  unfold waiterStep at hstep
  split at hstep
  · cases hstep
    exact ⟨rfl, rfl, rfl, _, rfl⟩
  · obtain ⟨⟨r, p⟩, _, rfl⟩ := Option.map_eq_some_iff.mp hstep
    exact ⟨rfl, rfl, rfl, _, rfl⟩
  · obtain ⟨⟨r, p⟩, _, rfl⟩ := Option.map_eq_some_iff.mp hstep
    exact ⟨rfl, rfl, rfl, _, rfl⟩

/-- A message that the later job publishes waits in the open subscription, or had none. -/
theorem Heard.waiterStep (h : Heard s) (hstep : waiterStep cfg s = some s') : Heard s' := by
  obtain ⟨before, during, waits, after, noLaterRun, noneUnobserved⟩ := h
  unfold Lock.waiterStep at hstep
  split at hstep
  · cases hstep
    exact ⟨before, during, waits, after, noLaterRun, noneUnobserved⟩
  · obtain ⟨⟨r, p⟩, _, rfl⟩ := Option.map_eq_some_iff.mp hstep
    constructor <;> grind [Holder.subscribed]
  · obtain ⟨⟨r, p⟩, _, rfl⟩ := Option.map_eq_some_iff.mp hstep
    exact ⟨before, during, waits, after, noLaterRun, noneUnobserved⟩

theorem Saves.waiterStep (h : Saves s) (hstep : waiterStep cfg s = some s') : Saves s' := by
  obtain ⟨hstored, _, _, n, hholder⟩ := waiterStep_holder hstep
  obtain ⟨recorded, kept, cancelled⟩ := h
  constructor
  · intro hsaved
    rw [HandoverState.Recorded, hstored]
    rw [hholder] at hsaved ⊢
    exact recorded hsaved
  · intro r hr
    unfold HandoverState.Keeps HandoverState.Maps
    rw [hstored]
    rw [hholder] at hr ⊢
    exact kept r hr
  · rw [hholder]
    exact cancelled

/-- The later job has the lock only behind the release, and it resumes the session that the store
maps the thread to. -/
structure Waits (s : HandoverState) : Prop where
  found : s.waited = true → s.waiter.pc ≠ .acquire
  locked : s.waiter.pc = .getPending ∨ s.waiter.pc = .session → s.holder.pc = .ended
  looked : s.waited = true → s.waiter.pc = .running → s.holder.pc = .ended ∧
    ∀ id, s.holder.announced = some id →
      s.waiter.sessionMode = .resume ∧ s.waiter.sessionId = some id

/-- Where the next command of a job leads: past the lock only with the lock free, past the pending
key without a look into the store only if nothing is pending. -/
theorem jobCommand_pc {C : Type} {jobs : Jobs C} {c : C} {now : Nat} {r r' : Redis}
    {p p' : Processor} (h : jobCommand jobs c now r p = some (r', p')) :
    p'.pc ≠ .acquire ∧ (p'.pc = .lockInfo → p.pc = .acquire) ∧
    (p'.pc = .getPending → p.pc = .reacquire ∧ r.locks.has now jobs.key.lockKey = false) ∧
    (p'.pc = .session → p.pc = .getPending) ∧
    (p'.pc = .running → p.pc = .acquire ∨
      (p.pc = .getPending ∧ r.pending.get now jobs.key.pendingKey = none)) := by
  have hcleanup (hpc : p.pc = .reacquire ∨ ∃ w, p.pc = .wait w) : p.cleanup.pc = .ended := by
    obtain hpc | ⟨w, hpc⟩ := hpc <;> simp [Processor.cleanup, hpc]
  have hfree {info : LockInfo} (hset : setLock r now jobs.key info 600 = (r', true)) :
      r.locks.has now jobs.key.lockKey = false := by
    unfold setLock Keys.setnx at hset
    split at hset
    · cases hset
    · next hhas => exact Bool.not_eq_true _ ▸ hhas
  have hempty (hget : getPendingPrompt r now jobs.key = (r', none)) :
      r.pending.get now jobs.key.pendingKey = none := by
    unfold getPendingPrompt at hget
    split at hget
    · next hnone => exact hnone
    · cases hget
  unfold jobCommand at h
  split at h
  · split at h <;> cases h <;> simp_all [Processor.run]
  · cases h
    simp_all
  · cases h
    simp_all
  · cases h
    simp_all
  · split at h
    · cases h
    · split at h <;> cases h <;> simp_all
  · split at h
    · next hset =>
      cases h
      have hlock := hfree hset
      simp_all
    · cases h
      simp_all
  · split at h <;> cases h <;> simp_all [Processor.run]
  · cases h
  · cases h
  · cases h
    simp_all
  · cases h

/-- The later job's session comes from the store. -/
theorem resume_session (p : Processor) {id : String} :
    (p.resume (some id)).sessionMode = .resume ∧ (p.resume (some id)).sessionId = some id :=
  ⟨rfl, rfl⟩

theorem resume_pc (p : Processor) (existing : Option String) :
    (p.resume existing).pc = .running := by
  unfold Processor.resume
  split <;> rfl

theorem Waits.waiterStep (h : Waits s) (hsaves : Saves s) (hok : HandsOver cfg s .waiter)
    (hstep : waiterStep cfg s = some s') : Waits s' := by
  obtain ⟨found, locked, looked⟩ := h
  obtain ⟨hlock, hpending⟩ := hok
  obtain ⟨hstored, _, _, n, hholder⟩ := waiterStep_holder hstep
  unfold Lock.waiterStep at hstep
  split at hstep
  · next hpc =>
    cases hstep
    have hended := locked (.inr hpc)
    have hrecorded : s.Recorded := hsaves.recorded (by rw [hended]; rfl)
    refine ⟨?_, ?_, ?_⟩
    · intro _
      simp [resume_pc]
    · intro _
      exact hended
    · intro _ _
      refine ⟨hended, ?_⟩
      intro id hid
      have hs : s.stored = some id := by
        rcases hrecorded with hnone | heq
        · rw [hnone] at hid
          cases hid
        · rw [heq, hid]
      simp only [hs]
      exact resume_session _
  · next hpc =>
    obtain ⟨⟨r, p⟩, hcommand, rfl⟩ := Option.map_eq_some_iff.mp hstep
    obtain ⟨hacquire, _, hget, hsession, hrun⟩ := jobCommand_pc hcommand
    rw [hpc] at hget hsession hrun
    simp only [reduceCtorEq, false_and, or_false, imp_false] at hget hsession hrun
    exact ⟨fun _ ↦ hacquire, fun h ↦ (h.elim hget hsession).elim, fun _ h ↦ (hrun h).elim⟩
  · next hcancel =>
    obtain ⟨⟨r, p⟩, hcommand, rfl⟩ := Option.map_eq_some_iff.mp hstep
    obtain ⟨hacquire, hlockInfo, hget, hsession, hrun⟩ := jobCommand_pc hcommand
    refine ⟨fun _ ↦ hacquire, ?_, ?_⟩
    · intro hpc
      rcases hpc with hpc | hpc
      · obtain ⟨hre, hfree⟩ := hget hpc
        exact hlock hre hfree
      · exact locked (.inl (hsession hpc))
    · intro hwaited hpc
      rcases hrun hpc with hacq | ⟨hpend, hnone⟩
      · -- the first `acquire` succeeds only for a job that has not found the lock taken
        have hp : p.pc = .running := hpc
        have hbefore : s.waited = true := by simpa [hp] using hwaited
        exact absurd hacq (found hbefore)
      · refine ⟨locked (.inl hpend), ?_⟩
        intro id hid
        have hannounced := hpending hpend hnone
        rw [hannounced] at hid
        cases hid

/-- A job that has released the lock takes no step. -/
theorem holderStep_ended {a : HolderAction} (hstep : holderStep cfg s a = some s') :
    s.holder.pc ≠ .ended ∧ s'.waiter = s.waiter ∧ s'.waited = s.waited := by
  cases a <;> simp only [Lock.holderStep] at hstep
  case save =>
    split at hstep
    · split at hstep <;> cases hstep <;> simp_all
    · cases hstep
  all_goals
    split at hstep
    · cases hstep
      grind [Holder.subscribed, HolderPc.mayRaise]
    · cases hstep

theorem Waits.holderStep {a : HolderAction} (h : Waits s)
    (hstep : holderStep cfg s a = some s') : Waits s' := by
  obtain ⟨hended, hwaiter, hwaited⟩ := holderStep_ended hstep
  obtain ⟨found, locked, looked⟩ := h
  refine ⟨?_, ?_, ?_⟩
  · rw [hwaiter, hwaited]
    exact found
  · rw [hwaiter]
    intro hpc
    exact absurd (locked hpc) hended
  · rw [hwaiter, hwaited]
    intro hw hpc
    exact absurd (looked hw hpc).1 hended

/-! ### Runs -/

/-- The three invariants together. -/
structure HandoverInvariant (s : HandoverState) : Prop where
  heard : Heard s
  saves : Saves s
  waits : Waits s

theorem handoverInvariant_init (h : HandoverInit cfg s) : HandoverInvariant s := by
  obtain ⟨_, hholder, hwaiter, hwaited, hpublished, hmissed, hstarted, hran⟩ := h
  constructor
  · constructor <;> grind [Holder.subscribed]
  · constructor <;> grind [HolderPc.saved]
  · constructor <;> grind [jobInitial]

/-- A step that meets the condition keeps the invariants. -/
theorem HandoverInvariant.step (h : HandoverInvariant s) {a : HandoverAction}
    (hok : HandsOver cfg s a) (hstep : handoverStep cfg s a = some s') : HandoverInvariant s' := by
  cases a with
  | holder a =>
    exact ⟨h.heard.holderStep hok hstep, h.saves.holderStep hok hstep, h.waits.holderStep hstep⟩
  | waiter =>
    exact ⟨h.heard.waiterStep hstep, h.saves.waiterStep hstep, h.waits.waiterStep h.saves hok hstep⟩
  | tick ms =>
    cases hstep
    exact ⟨⟨h.heard.before, h.heard.during, h.heard.waits, h.heard.after, h.heard.noLaterRun,
        h.heard.noneUnobserved⟩, ⟨h.saves.recorded, h.saves.kept, h.saves.cancelled⟩,
      ⟨h.waits.found, h.waits.locked, h.waits.looked⟩⟩

theorem HandoverInvariant.continues (h : HandoverInvariant s) : Continues s := by
  have hmaps (hended : s.holder.pc = .ended) : s.Maps s.holder.announced := by
    intro id hid
    rcases h.saves.recorded (by rw [hended]; rfl) with hnone | heq
    · rw [hnone] at hid
      cases hid
    · rw [heq, hid]
  refine ⟨h.heard.noLaterRun, h.heard.noneUnobserved, ?_, ?_, ?_⟩
  · rintro ⟨hwaited, hpc | hpc | hpc⟩
    · exact hmaps (h.waits.locked (.inl hpc))
    · exact hmaps (h.waits.locked (.inr hpc))
    · exact hmaps (h.waits.looked hwaited hpc).1
  · intro hwaited hpc
    exact (h.waits.looked hwaited hpc).2
  · intro hended r hr
    have hkeeps := h.saves.kept r hr
    unfold HandoverState.Keeps at hkeeps
    rw [hended] at hkeeps
    exact hkeeps

end Invariants

/-- Two jobs of one pull request. -/
def twoJobs : Handover where
  waiter :=
    { key := ⟨"octo/repo", .pr, "7", "review-pr"⟩
      jobId _ := "b"
      pid _ := 1
      prompt _ := "second"
      sessionMode _ := .new
      sessionId _ := none
      sameData _ _ _ := rfl }
  holderId := "a"
  streaming := false
  maxAutoContinues := 10

/-- The first one has the lock; the thread is mapped to this session. -/
def twoJobsStart (stored : Option String) : HandoverState where
  now := 0
  redis := (setLock .empty 0 twoJobs.waiter.key { jobId := "a" } 600).1
  stored := stored
  holder :=
    { pc := .setup, continueCount := 0, currentSessionId := stored
      sdk := .running, cancelRequested := false, interrupted := false, userInterrupt := false
      result := none, unhandled := 0, announced := none, reported := none
      observed := false, returnedAfter := false, handledResult := none }
  waiter := (jobInitial twoJobs.waiter).jobs ()
  waited := false
  published := false
  missed := false
  startedAfter := false
  ranUnobserved := false

theorem twoJobsStart_init (stored : Option String) : HandoverInit twoJobs (twoJobsStart stored) :=
  ⟨⟨{ jobId := "a" }, rfl, rfl⟩, rfl, rfl, rfl, rfl, rfl, rfl, rfl⟩

/-- The second job interrupts the first during its SDK run, and takes the lock over. -/
def interruption : List HandoverAction :=
  [.holder .start, .holder .subscribe, .holder (.announce "s1"), .waiter, .waiter, .waiter, .waiter,
    .holder .handle, .holder .sdkCancel, .holder .wake, .holder .setInterrupted,
    .holder (.decide false), .holder .complete, .holder .release, .waiter, .waiter]

end GithubAgent.Lock
