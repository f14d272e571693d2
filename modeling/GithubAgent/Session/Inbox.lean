import GithubAgent.Base.Transition
import GithubAgent.Executor.Teardown
import GithubAgent.Webhook.Handler

/-!
# Messages from the browser

A message that a user types into a session travels through three programs: the proxy reads it from
a WebSocket and either publishes it on the control channel or creates a job to resume the session
(`src/services/session_proxy/main.py:195-255, 792-852`); the control channel of each worker run puts
what it hears into the inbox of the session (`src/shared/session_stream.py:206-321`); and the run
drains the inbox after each SDK run (`src/services/sandbox_executor/processor.py:503-769`).

Nothing ties the three together. The proxy acts on a status it read some awaits before, a publish
reaches whoever listens at that moment, the last drain comes before the listener stops, and a
listener outlives its run unless the run ends normally.
-/

namespace GithubAgent.Session.Inbox

open GithubAgent.Base GithubAgent.Executor

/-- A message received from a browser; two of them may have the same content. -/
structure Message where
  id : Nat
  content : String
  deriving DecidableEq

/-- `not content.strip()`. -/
def Message.blank (m : Message) : Bool := (Webhook.strip m.content.toList).isEmpty

/-- The awaits of `_ws_to_redis` and, from `setRunning` on, of `_handle_resume_message`. -/
inductive Await where
  | checkStatus
  | echo
  | forward
  | setRunning
  | incrementRunCount
  | publishUserMessage
  | pushHistory
  | createJob
  deriving DecidableEq

/-- Where a worker run stands. In `starting` its set-up and its first options are still to come, in
`continuing` it has drained messages and has yet to run them. -/
inductive RunPc where
  | queued
  | starting
  | running
  | draining
  | continuing
  | completing
  | stopping
  | saving
  | ended
  deriving DecidableEq

/-- A job of the session and its run. `current` are the messages in `current_prompt` until an SDK
run takes it, `sdkRuns` those in the prompt of each SDK run, and `buffer` those its listener has
received and not yet dispatched. `bridge` says that the streaming objects are set. -/
structure WorkerRun where
  pc : RunPc
  bridge : Bool
  continueCount : Nat
  userInterrupt : Bool
  current : List Message
  sdkRuns : List (List Message)
  listening : Bool
  subscribed : Bool
  attempt : Nat
  buffer : List Message
  deriving DecidableEq

/-- A job that has been created, with the messages in its prompt. -/
def WorkerRun.created (prompt : List Message) : WorkerRun :=
  { pc := .queued, bridge := false, continueCount := 0, userInterrupt := false, current := prompt
    sdkRuns := [], listening := false, subscribed := false, attempt := 0, buffer := [] }

/-- The top of the loop (`processor.py:567-623`): the event is cleared and the SDK run started. -/
def WorkerRun.execute (r : WorkerRun) : WorkerRun :=
  { r with
    pc := .running
    userInterrupt := false
    sdkRuns := r.sdkRuns ++ [r.current]
    current := [] }

/-- A publish on the control channel reaches the run if it is subscribed. -/
def WorkerRun.deliver (m : Message) (r : WorkerRun) : WorkerRun :=
  if r.subscribed then { r with buffer := r.buffer ++ [m] } else r

/-- A step of a worker run or of its listener. -/
inductive RunAction where
  | start
  | setUp (ok : Bool)
  | subscribe
  | disconnect
  | dispatch
  | dispatchFails
  | stopAgent
  | sdkEnd
  | supersede
  | drain
  | autoContinue
  | complete (isError : Bool)
  | completeFails
  | stop
  | finish
  | fail (marked : Bool)

/-- What one run reads and writes: the session's status and inbox, and itself. -/
structure View where
  status : Option StreamStatus
  inbox : List Message
  run : WorkerRun

/-- `pop_inbox_messages` (`src/shared/streaming_session.py:397-427`). -/
def popInboxMessages (inbox : List Message) : List Message := inbox.filter (·.content ≠ "")

/-- An exception may end the run here; set-up and teardown log theirs. -/
def RunPc.mayFail : RunPc → Bool
  | .completing => false
  | .stopping => false
  | .ended => false
  | _ => true

/-- One step of a run (`processor.py:503-769, 880-907`; `session_stream.py:206-321`), with
`MAX_AUTO_CONTINUES`. -/
def View.step (maxAutoContinues : Nat) (v : View) : RunAction → Option View
  | .start =>
    if v.run.pc = .queued then
      some { v with run := { v.run with pc := .starting, bridge := true, listening := true } }
    else none
  | .setUp ok =>
    if v.run.pc = .starting then
      -- a failed set-up forgets the channel, whose listener goes on
      some { v with run := { v.run.execute with bridge := ok } }
    else none
  | .subscribe =>
    if v.run.listening = true ∧ v.run.subscribed = false then
      some { v with run := { v.run with subscribed := true } }
    else none
  | .disconnect =>
    if v.run.listening = true then
      some { v with run := { v.run with
        listening := v.run.attempt < 5
        subscribed := false
        attempt := v.run.attempt + 1
        buffer := [] } }
    else none
  | .dispatch =>
    match v.run.buffer with
    | [] => none
    | m :: rest =>
      if m.blank then some { v with run := { v.run with buffer := rest } }
      else
        some { v with
          inbox := v.inbox ++ [m]
          run := { v.run with buffer := rest, userInterrupt := true } }
  | .dispatchFails =>
    match v.run.buffer with
    | [] => none
    | _ :: rest => some { v with run := { v.run with buffer := rest } }
  | .stopAgent =>
    if v.run.subscribed = true then
      some { v with run := { v.run with userInterrupt := true } }
    else none
  | .sdkEnd =>
    if v.run.pc = .running then some { v with run := { v.run with pc := .draining } } else none
  | .supersede =>
    if v.run.pc = .running ∧ v.run.userInterrupt = false then
      some { v with run := { v.run with pc := .ended } }
    else none
  | .drain =>
    if v.run.pc = .draining then
      if v.run.bridge = true ∧ popInboxMessages v.inbox ≠ [] then
        some { v with
          inbox := []
          run := { v.run with pc := .continuing, current := popInboxMessages v.inbox } }
      else
        some { v with
          inbox := if v.run.bridge = true then [] else v.inbox
          run := { v.run with pc := .completing } }
    else none
  | .autoContinue =>
    if v.run.pc = .continuing then
      if v.run.continueCount < maxAutoContinues then
        some { v with
          status := some .running
          run := { v.run.execute with continueCount := v.run.continueCount + 1 } }
      else
        -- the loop is over, and its last prompt with it
        some { v with
          status := some .running
          run := { v.run with pc := .completing, current := [] } }
    else none
  | .complete isError =>
    if v.run.pc = .completing then
      some { v with
        status :=
          if v.run.bridge = true then some (if isError then .error else .completed) else v.status
        run := { v.run with pc := .stopping } }
    else none
  | .completeFails =>
    if v.run.pc = .completing then some { v with run := { v.run with pc := .stopping } } else none
  | .stop =>
    if v.run.pc = .stopping then
      if v.run.bridge = true then
        some { v with run := { v.run with
          pc := .saving
          listening := false
          subscribed := false
          buffer := [] } }
      else some { v with run := { v.run with pc := .saving } }
    else none
  | .finish =>
    if v.run.pc = .saving then some { v with run := { v.run with pc := .ended } } else none
  | .fail marked =>
    if v.run.pc.mayFail then
      some { v with
        status := if marked then some .error else v.status
        -- the prompt of a job stays in the job, one made of drained messages is gone
        run := { v.run with
          pc := .ended
          current := if v.run.pc = .continuing then [] else v.run.current } }
    else none

/-- The session in Redis, the browser connections with the message each of them is handling, and
the jobs of the session. The last two fields only watch: the messages received, and those that were
processed without an error. -/
structure InboxState (C : Type) where
  status : Option StreamStatus
  inbox : List Message
  connections : C → Option (Await × Message)
  runs : List WorkerRun
  received : List Message
  processed : List Message

/-- A message arrives at a connection; a connection goes on, or fails; a run steps; a webhook
reuses the session (`src/services/agent_worker/processors/request_processor.py:361-373`) and creates
its job; a key expires. -/
inductive InboxAction (C : Type) where
  | receive (c : C) (m : Message)
  | connection (c : C)
  | connectionFails (c : C)
  | run (i : Nat) (a : RunAction)
  | reuse
  | createJob
  | expireSession
  | expireInbox

section Steps

variable {C : Type} [DecidableEq C] (maxAutoContinues : Nat)

/-- The connection turns to another await, or to the next message. -/
def InboxState.turn (s : InboxState C) (c : C) (next : Option (Await × Message)) : InboxState C :=
  { s with connections := Function.update s.connections c next }

/-- The session after a step of one run. -/
def InboxState.withView (s : InboxState C) (i : Nat) (v : View) : InboxState C :=
  { s with status := v.status, inbox := v.inbox, runs := s.runs.set i v.run }

/-- The next await of a connection (`main.py:808-852`), where the status read sends the message one
way or the other, and of the resume path (`main.py:195-255`). -/
def connectionStep (s : InboxState C) (c : C) : Await × Message → InboxState C
  | (.checkStatus, m) =>
    if s.status = some .completed ∨ s.status = some .error then s.turn c (some (.setRunning, m))
    else s.turn c (some (.echo, m))
  | (.echo, m) => s.turn c (some (.forward, m))
  | (.forward, m) =>
    { s.turn c none with
      runs := s.runs.map (WorkerRun.deliver m)
      processed := s.processed ++ [m] }
  | (.setRunning, m) => { s.turn c (some (.incrementRunCount, m)) with status := some .running }
  | (.incrementRunCount, m) => s.turn c (some (.publishUserMessage, m))
  | (.publishUserMessage, m) => s.turn c (some (.pushHistory, m))
  | (.pushHistory, m) => s.turn c (some (.createJob, m))
  | (.createJob, m) =>
    { s.turn c none with
      runs := s.runs ++ [.created [m]]
      processed := s.processed ++ [m] }

/-- One step of the system. -/
def inboxStep (s : InboxState C) : InboxAction C → Option (InboxState C)
  | .receive c m =>
    if s.connections c = none ∧ m ∉ s.received then
      some { s.turn c (if m.blank then none else some (.checkStatus, m)) with
        received := s.received ++ [m] }
    else none
  | .connection c => (s.connections c).map (connectionStep s c)
  | .connectionFails c => (s.connections c).map fun _ ↦ s.turn c none
  | .run i a =>
    s.runs[i]?.bind fun r ↦
      ((View.mk s.status s.inbox r).step maxAutoContinues a).map (s.withView i)
  | .reuse => some { s with status := some .running }
  | .createJob => some { s with runs := s.runs ++ [.created []] }
  | .expireSession => some { s with status := none }
  | .expireInbox => some { s with inbox := [] }

/-- The session has just been created, and its first job is still to come. -/
def InboxInit (s : InboxState C) : Prop :=
  s.status = some .running ∧ s.inbox = [] ∧ (∀ c, s.connections c = none) ∧ s.runs = [] ∧
    s.received = [] ∧ s.processed = []

/-- Any number of connections and of worker runs on one session. -/
def inboxSystem : System (InboxState C) (InboxAction C) where
  init := InboxInit
  step := inboxStep maxAutoContinues

end Steps

/-! ### Where the messages are -/

/-- The messages a run holds. -/
def WorkerRun.messages (r : WorkerRun) : List Message := r.buffer ++ r.current ++ r.sdkRuns.flatten

/-- The run is still going to drain the inbox. -/
def WorkerRun.willDrain (maxAutoContinues : Nat) (r : WorkerRun) : Bool :=
  match r.pc with
  | .queued => true
  | .starting => true
  | .running => r.bridge
  | .draining => r.bridge
  | .continuing => r.bridge && r.continueCount < maxAutoContinues
  | _ => false

section Places

variable {C : Type}

/-- The messages of the session: those in its inbox, and those its runs hold. -/
def InboxState.places (s : InboxState C) : List Message :=
  s.inbox ++ s.runs.flatMap WorkerRun.messages

/-- The messages on their way from the control channel to the inbox. -/
def InboxState.inTransit (s : InboxState C) : List Message := s.runs.flatMap WorkerRun.buffer

/-- The messages that no drain has seen. -/
def InboxState.undrained (s : InboxState C) : List Message := s.inbox ++ s.inTransit

/-- Every message processed without an error is in one place, once: the inbox or on its way there,
the prompt of a job, or that of an SDK run. What is not drained will be. -/
structure ExactlyOnce (maxAutoContinues : Nat) (s : InboxState C) : Prop where
  once : ∀ m ∈ s.processed, s.places.count m = 1
  drained : s.undrained ≠ [] → s.runs.any (WorkerRun.willDrain maxAutoContinues) = true

/-! ### The condition on the steps -/

/-- The step drops no message of the run: no listener ends or loses its connection with messages it
has not dispatched, no dispatch fails, no messages are drained after the last iteration or by a run
that fails before it has executed them. -/
def WorkerRun.Keeps (maxAutoContinues : Nat) (r : WorkerRun) : RunAction → Prop
  | .disconnect => r.buffer = []
  | .dispatchFails => r.buffer = []
  | .autoContinue => r.continueCount < maxAutoContinues
  | .stop => r.bridge = true → r.buffer = []
  | .fail _ => r.pc ≠ .continuing
  | _ => True

/-- Another run is still going to drain the inbox. -/
def InboxState.othersDrain (maxAutoContinues : Nat) (s : InboxState C) (i : Nat) : Bool :=
  (s.runs.eraseIdx i).any (WorkerRun.willDrain maxAutoContinues)

/-- The step leaves the inbox to someone: where the run will not drain again, nothing is in the
inbox or on its way there, or another run will drain. -/
def InboxState.HandsOn (maxAutoContinues : Nat) (s : InboxState C) (i : Nat) (r : WorkerRun) :
    RunAction → Prop
  | .setUp ok => ok = true ∨ s.undrained = [] ∨ s.othersDrain maxAutoContinues i = true
  | .supersede => s.undrained = [] ∨ s.othersDrain maxAutoContinues i = true
  | .drain =>
    r.bridge = true → (s.inbox ≠ [] ∧ r.continueCount < maxAutoContinues) ∨ s.inTransit = [] ∨
      s.othersDrain maxAutoContinues i = true
  | .fail _ => s.undrained = [] ∨ s.othersDrain maxAutoContinues i = true
  | _ => True

/-- The condition on a step: a message is published to exactly one listener, while a run is still
going to drain; the steps of a run drop nothing and leave the inbox to someone; the inbox does not
expire with messages in it. -/
def Conserves (maxAutoContinues : Nat) (s : InboxState C) : InboxAction C → Prop
  | .connection c =>
    ∀ p ∈ s.connections c, p.1 = .forward → s.runs.countP WorkerRun.subscribed = 1 ∧
      s.runs.any (WorkerRun.willDrain maxAutoContinues) = true
  | .run i a => ∀ r ∈ s.runs[i]?, r.Keeps maxAutoContinues a ∧ s.HandsOn maxAutoContinues i r a
  | .expireInbox => s.inbox = []
  | _ => True

end Places

instance (n : Nat) (r : WorkerRun) : (a : RunAction) → Decidable (r.Keeps n a)
  | .start => .isTrue trivial
  | .setUp _ => .isTrue trivial
  | .subscribe => .isTrue trivial
  | .disconnect => inferInstanceAs (Decidable (_ = _))
  | .dispatch => .isTrue trivial
  | .dispatchFails => inferInstanceAs (Decidable (_ = _))
  | .stopAgent => .isTrue trivial
  | .sdkEnd => .isTrue trivial
  | .supersede => .isTrue trivial
  | .drain => .isTrue trivial
  | .autoContinue => inferInstanceAs (Decidable (_ < _))
  | .complete _ => .isTrue trivial
  | .completeFails => .isTrue trivial
  | .stop => inferInstanceAs (Decidable (_ → _))
  | .finish => .isTrue trivial
  | .fail _ => inferInstanceAs (Decidable (_ ≠ _))

instance {C : Type} (n : Nat) (s : InboxState C) (i : Nat) (r : WorkerRun) :
    (a : RunAction) → Decidable (s.HandsOn n i r a)
  | .start => .isTrue trivial
  | .setUp _ => inferInstanceAs (Decidable (_ ∨ _))
  | .subscribe => .isTrue trivial
  | .disconnect => .isTrue trivial
  | .dispatch => .isTrue trivial
  | .dispatchFails => .isTrue trivial
  | .stopAgent => .isTrue trivial
  | .sdkEnd => .isTrue trivial
  | .supersede => inferInstanceAs (Decidable (_ ∨ _))
  | .drain => inferInstanceAs (Decidable (_ → _))
  | .autoContinue => .isTrue trivial
  | .complete _ => .isTrue trivial
  | .completeFails => .isTrue trivial
  | .stop => .isTrue trivial
  | .finish => .isTrue trivial
  | .fail _ => inferInstanceAs (Decidable (_ ∨ _))

instance {C : Type} (n : Nat) (s : InboxState C) : (a : InboxAction C) → Decidable (Conserves n s a)
  | .receive _ _ => .isTrue trivial
  | .connection c => inferInstanceAs (Decidable (∀ p ∈ s.connections c, _))
  | .connectionFails _ => .isTrue trivial
  | .run i _ => inferInstanceAs (Decidable (∀ r ∈ s.runs[i]?, _))
  | .reuse => .isTrue trivial
  | .createJob => .isTrue trivial
  | .expireSession => .isTrue trivial
  | .expireInbox => inferInstanceAs (Decidable (_ = _))

end GithubAgent.Session.Inbox
