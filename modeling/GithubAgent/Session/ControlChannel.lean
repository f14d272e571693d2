import GithubAgent.Base.Json
import GithubAgent.Webhook.Handler
import Mathlib.Data.List.Induction
import Mathlib.Data.List.Infix

/-!
# The listener of the control channel

`ControlChannel._listen` of `src/shared/session_stream.py` subscribes, dispatches what it is sent
and subscribes again when the connection is gone. What Redis answers and sends is given as a
sequence of events.
-/

namespace GithubAgent.Session.Control

open GithubAgent.Base

/-- What `pubsub.listen()` yields. -/
structure RawMessage where
  type : String
  data : JsonText

/-- What becomes of the two writes to the inbox. -/
inductive Writes where
  | rpushFails
  | expireFails
  | stored
  deriving DecidableEq

/-- Redis takes the subscription or refuses it; while it is open, a message comes in, or the
connection ends, in the two ways that the loop tells apart; and the channel may be stopped. -/
inductive Event where
  | subscribed
  | refused
  | delivered (raw : RawMessage) (writes : Writes)
  | closed
  | lost
  | stop

/-- Where the task stands: before the reply to its subscription, in `listen()`, or at its end. -/
inductive Phase where
  | subscribing
  | listening
  | exited
  deriving DecidableEq

/-- The listener, with the messages that it has dispatched. `interrupt` is the event to set, if
there is one. -/
structure Listener where
  phase : Phase := .subscribing
  attempt : Nat := 0
  stopped : Bool := false
  slept : List Nat := []
  dispatched : List Json := []
  inbox : List String := []
  interrupt : Option Bool := none

/-! ### The listener -/

/-- `max_retries` (`session_stream.py:213`). -/
def maxRetries : Nat := 5

/-- `backoff_times` (`session_stream.py:214`). -/
def backoffTimes : List Nat := [1, 2, 4, 8, 16]

/-- `self._interrupt_event.set()`. -/
def Listener.interrupted (l : Listener) : Listener :=
  { l with interrupt := l.interrupt.map fun _ ↦ true }

/-- `inject_message` (`session_stream.py:272-293`). -/
def Listener.inject (l : Listener) (content : String) : Writes → Listener
  | .rpushFails => l
  | .expireFails => { l with inbox := l.inbox ++ [content] }
  | .stored => { l with inbox := l.inbox ++ [content] }.interrupted

/-- `_dispatch` (`session_stream.py:268-304`), of which the caller catches every exception. -/
def Listener.dispatch (l : Listener) (msg : Json) (writes : Writes) : Listener :=
  match msg.get? "type" with
  | some (.str "inject_message") =>
    match (msg.get? "content").getD (.str "") with
    | .str content =>
      if (Webhook.strip content.toList).isEmpty then l else l.inject content writes
    | _ => l
  | some (.str "stop_agent") => l.interrupted
  | _ => l

/-- One round of the loop over `listen()` (`session_stream.py:223-234`). -/
def Listener.receive (l : Listener) (raw : RawMessage) (writes : Writes) : Listener :=
  if l.stopped then { l with phase := .exited }
  else if raw.type ≠ "message" then l
  else
    match raw.data.loads with
    | some msg => { l.dispatch msg writes with dispatched := l.dispatched ++ [msg] }
    | none => l

/-- What follows the end of a connection and a refusal (`session_stream.py:237-264`). -/
def Listener.fail (l : Listener) : Listener :=
  if l.stopped then { l with phase := .exited }
  else if maxRetries ≤ l.attempt then { l with phase := .exited }
  else
    { l with
      phase := .subscribing
      attempt := l.attempt + 1
      slept := l.slept ++ [backoffTimes.getD l.attempt 0] }

/-- `_listen` (`session_stream.py:207-266`) at one event. `stop` (`session_stream.py:306-316`)
cancels the task. -/
def Listener.step (l : Listener) (e : Event) : Listener :=
  match l.phase, e with
  | _, .stop => { l with stopped := true, phase := .exited }
  | .subscribing, .subscribed => { l with phase := .listening }
  | .subscribing, .refused => l.fail
  | .listening, .delivered raw writes => l.receive raw writes
  | .listening, .closed => l.fail
  | .listening, .lost => l.fail
  | _, _ => l

/-- `start` (`session_stream.py:201-205`) and all that follows. -/
def listen (interrupt : Option Bool) (events : List Event) : Listener :=
  events.foldl Listener.step { interrupt := interrupt }

/-! ### What Redis may do -/

/-- Whether there is a connection after the event, if the event can occur. -/
def wire : Bool → Event → Option Bool
  | connected, .stop => some connected
  | false, .subscribed => some true
  | false, .refused => some false
  | true, .delivered _ _ => some true
  | true, .closed => some false
  | true, .lost => some false
  | _, _ => none

/-- Whether there is a connection after the events, if they can occur. -/
def wired (events : List Event) : Option Bool := events.foldlM wire false

/-- Events that can occur in their order. -/
structure Script where
  events : List Event
  occurs : (wired events).isSome = true

/-! ### When to give up -/

/-- A connection loss or a subscribe failure. -/
def Event.isFailure : Event → Bool
  | .refused | .closed | .lost => true
  | _ => false

def Event.isStop : Event → Bool
  | .stop => true
  | _ => false

/-- The control message of an event. -/
def Event.message? : Event → Option Json
  | .delivered raw _ => if raw.type = "message" then raw.data.loads else none
  | _ => none

/-- The failures of the channel so far. -/
def failures (events : List Event) : Nat := events.countP Event.isFailure

/-- The failures since the last subscription that succeeded. -/
def failuresInARow (events : List Event) : Nat :=
  events.foldl (fun n e ↦ match e with
    | .subscribed => 0
    | e => if e.isFailure then n + 1 else n) 0

/-- The channel has been stopped, or more than five failures had no subscription between them. -/
def MayGiveUp (events : List Event) : Prop :=
  events.any Event.isStop = true ∨ ∃ p, p <+: events ∧ maxRetries < failuresInARow p

/-- Until the listener may give up, it subscribes when there is no connection and listens when there
is one, and it has dispatched every message that came in. -/
def KeepsServing (interrupt : Option Bool) (events : List Event) : Prop :=
  ∀ p, p <+: events → ¬ MayGiveUp p →
    wired p = some (decide ((listen interrupt p).phase = .listening)) ∧
    (listen interrupt p).phase ≠ .exited ∧
    (listen interrupt p).dispatched = p.filterMap Event.message?

/-- When the sixth failure of the channel comes, the five before it had no subscription between
them. -/
def FailsInARow (events : List Event) : Prop :=
  ∀ p e, p ++ [e] <+: events → p.any Event.isStop = false → e.isFailure = true →
    failures p = maxRetries → failuresInARow p = maxRetries

/-! ### The listener at each event -/

theorem listen_concat (interrupt : Option Bool) (p : List Event) (e : Event) :
    listen interrupt (p ++ [e]) = (listen interrupt p).step e := by
  rw [listen, List.foldl_append]
  rfl

theorem wired_concat (p : List Event) (e : Event) :
    wired (p ++ [e]) = (wired p).bind fun connected ↦ wire connected e := by
  rw [wired, List.foldlM_append]
  exact congrArg _ (funext fun connected ↦ bind_pure (wire connected e))

theorem failures_concat (p : List Event) (e : Event) :
    failures (p ++ [e]) = failures p + if e.isFailure then 1 else 0 := by
  rw [failures, List.countP_append, List.countP_singleton]
  rfl

theorem failuresInARow_concat {p : List Event} {e : Event} (h : e.isFailure = true) :
    failuresInARow (p ++ [e]) = failuresInARow p + 1 := by
  rw [failuresInARow, List.foldl_append]
  cases e <;> first | rfl | cases h

/-- No more failures are in a row than there are. -/
theorem failuresInARow_le (p : List Event) : failuresInARow p ≤ failures p := by
  induction p using List.reverseRecOn with
  | nil => exact le_rfl
  | append_singleton p e ih =>
    rw [failures_concat]
    by_cases h : e.isFailure = true
    · rw [failuresInARow_concat h, if_pos h]
      exact Nat.succ_le_succ ih
    · refine le_trans ?_ (ih.trans (Nat.le_add_right _ _))
      rw [failuresInARow, List.foldl_append]
      cases e <;> first | exact le_rfl | exact Nat.zero_le _ | exact (h rfl).elim

theorem failures_mono {p q : List Event} (h : q <+: p) : failures q ≤ failures p :=
  h.sublist.countP_le

/-- A dispatch writes to the inbox and sets the event, and changes nothing else. -/
theorem dispatch_eq (l : Listener) (msg : Json) (writes : Writes) :
    ∃ inbox interrupt,
      l.dispatch msg writes = { l with inbox := inbox, interrupt := interrupt } := by
  unfold Listener.dispatch
  split
  · split
    · split
      · exact ⟨_, _, rfl⟩
      · cases writes <;> exact ⟨_, _, rfl⟩
    · exact ⟨_, _, rfl⟩
  · exact ⟨_, _, rfl⟩
  · exact ⟨_, _, rfl⟩

/-- A listener that is not stopped dispatches the message that comes in and goes on listening. -/
theorem receive_eq {l : Listener} (h : l.stopped = false) (raw : RawMessage) (writes : Writes) :
    ∃ inbox interrupt, l.receive raw writes =
      { l with
        inbox := inbox
        interrupt := interrupt
        dispatched := l.dispatched ++ (Event.delivered raw writes).message?.toList } := by
  have hgoes : ¬ l.stopped = true := h ▸ Bool.false_ne_true
  rw [Listener.receive, if_neg hgoes, Event.message?]
  by_cases hmessage : raw.type = "message"
  · rw [if_neg (not_not.mpr hmessage), if_pos hmessage]
    cases raw.data.loads with
    | none =>
      rw [Option.toList_none, List.append_nil]
      exact ⟨_, _, rfl⟩
    | some msg =>
      obtain ⟨inbox, interrupt, heq⟩ := dispatch_eq l msg writes
      exact ⟨inbox, interrupt, congrArg
        (fun d : Listener ↦ { d with dispatched := l.dispatched ++ [msg] }) heq⟩
  · rw [if_pos hmessage, if_neg hmessage, Option.toList_none, List.append_nil]
    exact ⟨_, _, rfl⟩

theorem step_exited {l : Listener} (e : Event) (h : l.phase = .exited) :
    (l.step e).phase = .exited := by
  unfold Listener.step
  rw [h]
  cases e <;> first | rfl | exact h

/-- What holds of the listener until the sixth failure. -/
structure Serving (l : Listener) (connected : Bool) (p : List Event) : Prop where
  phase : l.phase = if connected then .listening else .subscribing
  attempt : l.attempt = failures p
  stopped : l.stopped = false
  dispatched : l.dispatched = p.filterMap Event.message?

/-- Another event that is no failure leaves the number of attempts. -/
theorem Serving.goOn {l l' : Listener} {connected connected' : Bool} {p : List Event} {e : Event}
    (h : Serving l connected p) (he : e.isFailure = false)
    (hphase : l'.phase = if connected' then .listening else .subscribing)
    (hattempt : l'.attempt = l.attempt) (hstopped : l'.stopped = l.stopped)
    (hdispatched : l'.dispatched = l.dispatched ++ e.message?.toList) :
    Serving l' connected' (p ++ [e]) where
  phase := hphase
  attempt := by
    rw [hattempt, h.attempt, failures_concat, he, if_neg Bool.false_ne_true, Nat.add_zero]
  stopped := hstopped.trans h.stopped
  dispatched := by
    rw [hdispatched, h.dispatched, List.filterMap_append]
    cases hm : e.message? <;> simp [List.filterMap, hm]

/-- A failure is answered with another attempt, if there is one left. -/
theorem Serving.fail {l : Listener} {connected : Bool} {p : List Event} {e : Event}
    (h : Serving l connected p) (he : e.isFailure = true) (hleft : failures p < maxRetries) :
    Serving l.fail false (p ++ [e]) := by
  have hfail : l.fail = { l with
      phase := .subscribing
      attempt := l.attempt + 1
      slept := l.slept ++ [backoffTimes.getD l.attempt 0] } := by
    rw [Listener.fail, h.stopped, if_neg Bool.false_ne_true, h.attempt,
      if_neg (Nat.not_le.mpr hleft)]
  have hmessage : e.message? = none := by
    cases e <;> first | rfl | cases he
  rw [hfail]
  exact
    { phase := rfl
      attempt := by rw [failures_concat, he, if_pos rfl, ← h.attempt]
      stopped := h.stopped
      dispatched := by
        rw [h.dispatched, List.filterMap_append, List.filterMap_cons_none hmessage,
          List.filterMap_nil, List.append_nil] }

/-- Without an attempt left, a failure ends the listener. -/
theorem Serving.giveUp {l : Listener} {connected : Bool} {p : List Event}
    (h : Serving l connected p) (hnone : failures p = maxRetries) : l.fail.phase = .exited := by
  rw [Listener.fail, h.stopped, if_neg Bool.false_ne_true, h.attempt, if_pos hnone.ge]

/-- Each failure that can occur is handled in the same way. -/
theorem step_eq_fail {l : Listener} {connected connected' : Bool} {e : Event}
    (hphase : l.phase = if connected then .listening else .subscribing)
    (hwire : wire connected e = some connected') (hfailure : e.isFailure = true) :
    connected' = false ∧ l.step e = l.fail := by
  unfold Listener.step
  rw [hphase]
  cases e <;> cases hfailure <;> cases connected <;> cases hwire <;> exact ⟨rfl, rfl⟩

/-- Each event that can occur, up to the sixth failure. -/
theorem Serving.step {l : Listener} {connected connected' : Bool} {p : List Event} {e : Event}
    (h : Serving l connected p) (hwire : wire connected e = some connected')
    (hstop : e.isStop = false) (hleft : e.isFailure = true → failures p < maxRetries) :
    Serving (l.step e) connected' (p ++ [e]) := by
  by_cases hfailure : e.isFailure = true
  · obtain ⟨rfl, hstep⟩ := step_eq_fail h.phase hwire hfailure
    exact hstep ▸ h.fail hfailure (hleft hfailure)
  · have hphase := h.phase
    cases e with
    | stop => cases hstop
    | subscribed =>
      cases connected <;> cases hwire
      have hstep : l.step .subscribed = { l with phase := .listening } := by
        unfold Listener.step
        rw [hphase]
        rfl
      rw [hstep]
      exact h.goOn rfl rfl rfl rfl (List.append_nil _).symm
    | delivered raw writes =>
      cases connected <;> cases hwire
      have hstep : l.step (.delivered raw writes) = l.receive raw writes := by
        unfold Listener.step
        rw [hphase]
        rfl
      obtain ⟨inbox, interrupt, heq⟩ := receive_eq h.stopped raw writes
      rw [hstep, heq]
      exact h.goOn rfl hphase rfl rfl rfl
    | refused => exact (hfailure rfl).elim
    | closed => exact (hfailure rfl).elim
    | lost => exact (hfailure rfl).elim

/-! ### Runs -/

section Runs

variable {p : List Event} (interrupt : Option Bool)

theorem wired_concat_eq_some {e : Event} {connected' : Bool}
    (h : wired (p ++ [e]) = some connected') :
    ∃ connected, wired p = some connected ∧ wire connected e = some connected' := by
  rwa [wired_concat, Option.bind_eq_some_iff] at h

theorem unstopped_concat {e : Event} (h : (p ++ [e]).any Event.isStop = false) :
    p.any Event.isStop = false ∧ e.isStop = false := by
  rwa [List.any_append, Bool.or_eq_false_iff, List.any_cons, List.any_nil, Bool.or_false] at h

/-- Up to five failures, the listener is at work. -/
theorem serving_listen {connected : Bool} (hwire : wired p = some connected)
    (hstop : p.any Event.isStop = false) (hfew : failures p ≤ maxRetries) :
    Serving (listen interrupt p) connected p := by
  induction p using List.reverseRecOn generalizing connected with
  | nil =>
    cases hwire
    exact ⟨rfl, rfl, rfl, rfl⟩
  | append_singleton p e ih =>
    obtain ⟨before, hbefore, he⟩ := wired_concat_eq_some hwire
    obtain ⟨hstop, hgoes⟩ := unstopped_concat hstop
    rw [failures_concat] at hfew
    have hserving := ih hbefore hstop ((Nat.le_add_right _ _).trans hfew)
    rw [listen_concat]
    refine hserving.step he hgoes fun hfailure ↦ ?_
    rwa [if_pos hfailure] at hfew

/-- From the sixth failure on, there is no listener. -/
theorem listen_exited {connected : Bool} (hwire : wired p = some connected)
    (hstop : p.any Event.isStop = false) (hmany : maxRetries < failures p) :
    (listen interrupt p).phase = .exited := by
  induction p using List.reverseRecOn generalizing connected with
  | nil => exact (Nat.not_lt_zero _ hmany).elim
  | append_singleton p e ih =>
    obtain ⟨before, hbefore, he⟩ := wired_concat_eq_some hwire
    obtain ⟨hstop, hgoes⟩ := unstopped_concat hstop
    rw [listen_concat]
    by_cases hlast : maxRetries < failures p
    · exact step_exited e (ih hbefore hstop hlast)
    · have hfew := Nat.le_of_not_lt hlast
      have hserving := serving_listen interrupt hbefore hstop hfew
      rw [failures_concat] at hmany
      have hfailure : e.isFailure = true := by
        by_contra hother
        rw [if_neg hother, Nat.add_zero] at hmany
        exact hlast hmany
      rw [if_pos hfailure] at hmany
      rw [(step_eq_fail hserving.phase he hfailure).2]
      exact hserving.giveUp (hfew.antisymm (Nat.le_of_lt_succ hmany))

/-- Among more than five failures there is the sixth one. -/
theorem exists_sixth (hmany : maxRetries < failures p) :
    ∃ q e, q ++ [e] <+: p ∧ e.isFailure = true ∧ failures q = maxRetries := by
  induction p using List.reverseRecOn with
  | nil => exact (Nat.not_lt_zero _ hmany).elim
  | append_singleton p e ih =>
    by_cases hlast : maxRetries < failures p
    · obtain ⟨q, e', hq, hsixth⟩ := ih hlast
      exact ⟨q, e', hq.trans (List.prefix_append p [e]), hsixth⟩
    · rw [failures_concat] at hmany
      have hfailure : e.isFailure = true := by
        by_contra hother
        rw [if_neg hother, Nat.add_zero] at hmany
        exact hlast hmany
      rw [if_pos hfailure] at hmany
      exact ⟨p, e, List.prefix_rfl, hfailure,
        (Nat.le_of_not_lt hlast).antisymm (Nat.le_of_lt_succ hmany)⟩

/-- What comes before events that can occur can occur. -/
theorem wired_mono {events : List Event} (h : (wired events).isSome = true)
    (hp : p <+: events) : ∃ connected, wired p = some connected := by
  obtain ⟨rest, rfl⟩ := hp
  rw [wired, List.foldlM_append] at h
  cases hwired : wired p with
  | some connected => exact ⟨connected, rfl⟩
  | none =>
    rw [wired] at hwired
    rw [hwired] at h
    cases h

theorem unstopped_mono {q : List Event} (h : p.any Event.isStop = false) (hq : q <+: p) :
    q.any Event.isStop = false := by
  obtain ⟨rest, rfl⟩ := hq
  exact (Bool.or_eq_false_iff.mp (List.any_append.symm.trans h)).1

end Runs

/-- The listener serves until it may give up exactly when the first six failures of the channel had
no subscription between them, or the channel was stopped before. -/
theorem keepsServing_iff (interrupt : Option Bool) (s : Script) :
    KeepsServing interrupt s.events ↔ FailsInARow s.events := by
  constructor
  · intro h p e hp hstop hfailure hfive
    obtain ⟨connected, hwire⟩ := wired_mono s.occurs hp
    have hsix : failures (p ++ [e]) = maxRetries + 1 := by
      rw [failures_concat, if_pos hfailure, hfive]
    have hgoes : (p ++ [e]).any Event.isStop = false := by
      rw [List.any_append, hstop]
      cases e <;> first | rfl | cases hfailure
    have hexited := listen_exited interrupt hwire hgoes (hsix ▸ Nat.lt_succ_self maxRetries)
    have hmay : MayGiveUp (p ++ [e]) := by
      by_contra hnot
      exact (h _ hp hnot).2.1 hexited
    rcases hmay with hstopped | ⟨q, hq, hrow⟩
    · exact (Bool.false_ne_true (hgoes.symm.trans hstopped)).elim
    · -- only all of it has that many failures
      rcases List.prefix_concat_iff.mp hq with rfl | hq
      · rw [failuresInARow_concat hfailure] at hrow
        exact (hfive ▸ failuresInARow_le p).antisymm (Nat.le_of_lt_succ hrow)
      · exact absurd (hrow.trans_le ((failuresInARow_le q).trans (failures_mono hq)))
          hfive.le.not_gt
  · intro h p hp hnot
    obtain ⟨connected, hwire⟩ := wired_mono s.occurs hp
    have hstop : p.any Event.isStop = false :=
      eq_false_of_ne_true fun hstopped ↦ hnot (Or.inl hstopped)
    have hfew : failures p ≤ maxRetries := by
      by_contra hmany
      obtain ⟨q, e, hq, hfailure, hfive⟩ := exists_sixth (Nat.not_le.mp hmany)
      have hrow := h q e (hq.trans hp)
        (unstopped_mono hstop ((List.prefix_append q [e]).trans hq)) hfailure hfive
      refine hnot (Or.inr ⟨q ++ [e], hq, ?_⟩)
      rw [failuresInARow_concat hfailure, hrow]
      exact Nat.lt_succ_self maxRetries
    have hserving := serving_listen interrupt hwire hstop hfew
    refine ⟨?_, ?_, hserving.dispatched⟩
    · rw [hwire, hserving.phase]
      cases connected <;> rfl
    · rw [hserving.phase]
      cases connected <;> decide

/-- Six connections, each of which is lost after it was made. -/
def sixConnections : Script where
  events := [.subscribed, .closed, .subscribed, .closed, .subscribed, .closed, .subscribed, .closed,
    .subscribed, .closed, .subscribed, .closed]
  occurs := rfl

/-- The channel gives up, with no two failures in a row. -/
theorem not_keepsServing_sixConnections : ¬ KeepsServing none sixConnections.events := by
  intro h
  refine (h _ List.prefix_rfl ?_).2.1 rfl
  rintro (hstop | ⟨q, hq, hrow⟩)
  · exact Bool.false_ne_true hstop
  · have hone : ∀ q ∈ sixConnections.events.inits, failuresInARow q ≤ maxRetries := by decide
    exact absurd hrow (hone q ((List.mem_inits _ _).mpr hq)).not_gt

end GithubAgent.Session.Control
