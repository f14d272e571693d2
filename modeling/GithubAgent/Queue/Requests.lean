import GithubAgent.Base.Ledger
import GithubAgent.Base.Transition
import GithubAgent.Shared.TranscriptParser

/-!
# The request queue

`RedisQueue` of `src/shared/queue.py` between any number of publishers and the agent workers of
`src/services/agent_worker/worker.py`, with the counters of `HealthChecker` of
`src/shared/health.py`. A worker may be told to stop or be killed at any point, and a connection
may break before or after Redis has done what it was asked.
-/

namespace GithubAgent.Queue.Requests

open GithubAgent.Base GithubAgent.Shared GithubAgent.Shared.Transcript

/-! ### The message of a request -/

/-- What `callback` reads of a message and passes to `processor.process`. -/
structure Request where
  repository : String
  issueNumber : Json
  eventData : Payload
  userQuery : String
  user : String
  ref : Json
  workflowName : String

/-- `assert isinstance(value, str)`. -/
def asStr : Json → Option String
  | .str text => some text
  | _ => none

/-- `assert isinstance(value, dict)`. -/
def asDict : Json → Option Payload
  | .obj fields => some fields
  | _ => none

/-- The checks of `callback` (`worker.py:157-182`); `none` where it records an error: on a value
without `get`, on a message that misses a field, and on an assertion. -/
def readRequest : Json → Option Request
  | .obj message => do
    let repo := getOr message "repository" .null
    let eventData := getOr message "event_data" (.obj [])
    let workflowName := getOr message "workflow_name" .null
    guard (repo.truthy && eventData.truthy && workflowName.truthy)
    return {
      repository := ← asStr repo
      issueNumber := getOr message "issue_number" .null
      eventData := ← asDict eventData
      userQuery := ← asStr (getOr message "user_query" (.str ""))
      user := ← asStr (getOr message "user" (.str "unknown"))
      ref := getOr message "ref" .null
      workflowName := ← asStr workflowName }
  | _ => none

/-- How `processor.process` ends. -/
inductive Processed where
  | jobId (id : String)
  | ignored
  | raised

/-! ### The workers -/

/-- What a worker is at, with the number of the message in its hand: in `blpop`, before
`json.loads`, at the start of `callback`, in `processor.process`, in the pause after an error, or
killed. -/
inductive Stage where
  | waiting
  | popped (n : Nat) (messageJson : String)
  | called (n : Nat) (message : Json)
  | processing (n : Nat) (request : Request)
  | sleeping
  | dead

/-- The message in hand. -/
def Stage.number? : Stage → Option Nat
  | .popped n _ | .called n _ | .processing n _ => some n
  | _ => none

/-- The counters of `HealthChecker`. -/
structure HealthChecker where
  processedCount : Nat := 0
  errorCount : Nat := 0

def HealthChecker.recordActivity (h : HealthChecker) : HealthChecker :=
  { h with processedCount := h.processedCount + 1 }

def HealthChecker.recordError (h : HealthChecker) : HealthChecker :=
  { h with errorCount := h.errorCount + 1 }

/-- How a message ends: `json.loads` rejects its text or raises; the worker was told to stop; the
checks of `callback` fail; `processor.process` returns or raises; the worker is killed, or the reply
that has the message is lost. -/
inductive Fate where
  | undecodable
  | unreadable
  | skipped
  | rejected
  | queued (jobId : String)
  | ignored
  | failed
  | killed
  | replyLost

/-- The fates that `record_activity` counts. -/
def Fate.isActivity : Fate → Bool
  | .queued _ | .ignored => true
  | _ => false

/-- The fates that `record_error` counts. -/
def Fate.isError : Fate → Bool
  | .rejected | .failed => true
  | _ => false

def Processed.fate : Processed → Fate
  | .jobId id => .queued id
  | .ignored => .ignored
  | .raised => .failed

/-- What becomes of `rpush`: it returns, its reply is lost, or it never reaches Redis. -/
inductive Reply where
  | done
  | lost
  | refused

/-- The queue, the workers, and for the record every text that reached the list, the messages whose
`publish` returned, and how many messages were taken when a worker was told to stop. -/
structure State (W : Type) where
  ledger : Ledger W String Fate := {}
  stages : W → Stage := fun _ ↦ .waiting
  health : W → HealthChecker := fun _ ↦ {}
  pushed : List String := []
  published : List Json := []
  stoppedAt : W → Option Nat := fun _ ↦ none

inductive Action (W : Type) where
  | publish (message : Json) (reply : Reply)
  | pop (w : W)
  | popFails (w : W) (replyLost : Bool)
  | decode (w : W)
  | call (w : W)
  | finish (w : W) (result : Processed)
  | wake (w : W)
  | shutdown (w : W)
  | kill (w : W) (replyLost : Bool)

/-- `json.dumps`, which refuses some values, and `json.loads`. -/
structure Codec where
  dumps : Json → Option String
  loads : String → Loaded

section System

variable {W : Type} [DecidableEq W]

def State.setStage (s : State W) (w : W) (stage : Stage) : State W :=
  { s with stages := Function.update s.stages w stage }

def State.push (s : State W) (text : String) : State W :=
  { s with ledger := s.ledger.push text, pushed := s.pushed ++ [text] }

/-- The message in the worker's hand ends, and is counted. -/
def State.finish (s : State W) (w : W) (n : Nat) (fate : Fate) (next : Stage) : State W :=
  { s.setStage w next with
    ledger := s.ledger.finish n fate
    health := Function.update s.health w
      (if fate.isActivity then (s.health w).recordActivity
        else if fate.isError then (s.health w).recordError
        else s.health w) }

/-- The worker takes the first message of the list. -/
def State.pop (s : State W) (w : W) : Option (State W) :=
  match s.ledger.take w with
  | some (text, ledger) =>
    some { s.setStage w (.popped s.ledger.taken.length text) with ledger := ledger }
  | none => none

variable (codec : Codec)

def step (s : State W) : Action W → Option (State W)
  -- `RedisQueue.publish` (`queue.py:72-82`)
  | .publish message reply =>
    match codec.dumps message, reply with
    | none, _ => some s
    | some _, .refused => some s
    | some text, .lost => some (s.push text)
    | some text, .done => some { s.push text with published := s.published ++ [message] }
  -- `blpop` returns with a message (`queue.py:97-101`)
  | .pop w =>
    match s.stages w with
    | .waiting => s.pop w
    | _ => none
  -- `blpop` raises, and Redis may have taken a message off the list (`queue.py:111-116`)
  | .popFails w replyLost =>
    match s.stages w with
    | .waiting =>
      if replyLost then
        (s.pop w).map fun t ↦ t.finish w s.ledger.taken.length .replyLost .sleeping
      else some (s.setStage w .sleeping)
    | _ => none
  -- `json.loads` (`queue.py:102`, `:109-110`, `:114-116`)
  | .decode w =>
    match s.stages w with
    | .popped n messageJson =>
      match codec.loads messageJson with
      | .value message => some (s.setStage w (.called n message))
      | .malformed => some (s.finish w n .undecodable .waiting)
      | .raised => some (s.finish w n .unreadable .sleeping)
    | _ => none
  -- `callback` up to its `await` (`worker.py:152-182`)
  | .call w =>
    match s.stages w with
    | .called n message =>
      if (s.stoppedAt w).isSome then some (s.finish w n .skipped .waiting)
      else
        match readRequest message with
        | some request => some (s.setStage w (.processing n request))
        | none => some (s.finish w n .rejected .waiting)
    | _ => none
  -- `processor.process` ends (`worker.py:184-208`)
  | .finish w result =>
    match s.stages w with
    | .processing n _ => some (s.finish w n result.fate .waiting)
    | _ => none
  -- `asyncio.sleep(1)` ends
  | .wake w =>
    match s.stages w with
    | .sleeping => some (s.setStage w .waiting)
    | _ => none
  -- the handler of `setup_graceful_shutdown`
  | .shutdown w =>
    match s.stages w, s.stoppedAt w with
    | .dead, _ => none
    | _, some _ => some s
    | _, none =>
      some { s with stoppedAt := Function.update s.stoppedAt w (some s.ledger.taken.length) }
  | .kill w replyLost =>
    match s.stages w with
    | .dead => none
    | .waiting =>
      if replyLost then
        (s.pop w).map fun t ↦ t.finish w s.ledger.taken.length .killed .dead
      else some (s.setStage w .dead)
    | .sleeping => some (s.setStage w .dead)
    | .popped n _ | .called n _ | .processing n _ => some (s.finish w n .killed .dead)

/-- The queue and its workers from their start. -/
def requests : System (State W) (Action W) where
  init s := s = {}
  step := step codec

/-! ### Inversion of a step -/

/-- What a step can do, with the conditions under which it does it. -/
inductive Stepped (s : State W) : Action W → State W → Prop where
  | unsent {message : Json} {reply : Reply}
      (unsent : codec.dumps message = none ∨ reply = .refused) :
      Stepped s (.publish message reply) s
  | pushed {message : Json} {text : String} (dumps : codec.dumps message = some text) :
      Stepped s (.publish message .lost) (s.push text)
  | published {message : Json} {text : String} (dumps : codec.dumps message = some text) :
      Stepped s (.publish message .done)
        { s.push text with published := s.published ++ [message] }
  | pop {w : W} {t : State W} (waiting : s.stages w = .waiting) (pops : s.pop w = some t) :
      Stepped s (.pop w) t
  | popLost {w : W} {t : State W} (waiting : s.stages w = .waiting) (pops : s.pop w = some t) :
      Stepped s (.popFails w true) (t.finish w s.ledger.taken.length .replyLost .sleeping)
  | popFails {w : W} (waiting : s.stages w = .waiting) :
      Stepped s (.popFails w false) (s.setStage w .sleeping)
  | decoded {w : W} {n : Nat} {messageJson : String} {message : Json}
      (popped : s.stages w = .popped n messageJson)
      (loads : codec.loads messageJson = .value message) :
      Stepped s (.decode w) (s.setStage w (.called n message))
  | undecodable {w : W} {n : Nat} {messageJson : String}
      (popped : s.stages w = .popped n messageJson)
      (loads : codec.loads messageJson = .malformed) :
      Stepped s (.decode w) (s.finish w n .undecodable .waiting)
  | unreadable {w : W} {n : Nat} {messageJson : String}
      (popped : s.stages w = .popped n messageJson)
      (loads : codec.loads messageJson = .raised) :
      Stepped s (.decode w) (s.finish w n .unreadable .sleeping)
  | skipped {w : W} {n : Nat} {message : Json} (called : s.stages w = .called n message)
      (stopped : (s.stoppedAt w).isSome = true) :
      Stepped s (.call w) (s.finish w n .skipped .waiting)
  | processing {w : W} {n : Nat} {message : Json} {request : Request}
      (called : s.stages w = .called n message) (running : s.stoppedAt w = none)
      (reads : readRequest message = some request) :
      Stepped s (.call w) (s.setStage w (.processing n request))
  | rejected {w : W} {n : Nat} {message : Json} (called : s.stages w = .called n message)
      (running : s.stoppedAt w = none) (reads : readRequest message = none) :
      Stepped s (.call w) (s.finish w n .rejected .waiting)
  | finish {w : W} {n : Nat} {request : Request} {result : Processed}
      (processing : s.stages w = .processing n request) :
      Stepped s (.finish w result) (s.finish w n result.fate .waiting)
  | wake {w : W} (sleeping : s.stages w = .sleeping) :
      Stepped s (.wake w) (s.setStage w .waiting)
  | stopped {w : W} (stopped : (s.stoppedAt w).isSome = true) : Stepped s (.shutdown w) s
  | shutdown {w : W} (running : s.stoppedAt w = none) :
      Stepped s (.shutdown w)
        { s with stoppedAt := Function.update s.stoppedAt w (some s.ledger.taken.length) }
  | killPopped {w : W} {t : State W} (waiting : s.stages w = .waiting)
      (pops : s.pop w = some t) :
      Stepped s (.kill w true) (t.finish w s.ledger.taken.length .killed .dead)
  | killFree {w : W} {replyLost : Bool}
      (free : s.stages w = .waiting ∨ s.stages w = .sleeping) :
      Stepped s (.kill w replyLost) (s.setStage w .dead)
  | killHeld {w : W} {n : Nat} {replyLost : Bool} (held : (s.stages w).number? = some n) :
      Stepped s (.kill w replyLost) (s.finish w n .killed .dead)

variable {codec} in
/-- Every step is one of those listed. -/
theorem step_cases {s s' : State W} {a : Action W} (hs : Requests.step codec s a = some s') :
    Stepped codec s a s' := by
  cases a with
  | publish message reply =>
    simp only [Requests.step] at hs
    split at hs
    · next hdumps =>
      cases hs
      exact .unsent (.inl hdumps)
    · cases hs
      exact .unsent (.inr rfl)
    · next hdumps =>
      cases hs
      exact .pushed hdumps
    · next hdumps =>
      cases hs
      exact .published hdumps
  | pop w =>
    simp only [Requests.step] at hs
    split at hs
    · next hwaiting => exact .pop hwaiting hs
    · cases hs
  | popFails w replyLost =>
    simp only [Requests.step] at hs
    split at hs
    · next hwaiting =>
      cases replyLost with
      | true =>
        obtain ⟨t, hpop, rfl⟩ := Option.map_eq_some_iff.mp hs
        exact .popLost hwaiting hpop
      | false =>
        cases hs
        exact .popFails hwaiting
    · cases hs
  | decode w =>
    simp only [Requests.step] at hs
    split at hs
    · next hpopped =>
      split at hs
      · next hloads =>
        cases hs
        exact .decoded hpopped hloads
      · next hloads =>
        cases hs
        exact .undecodable hpopped hloads
      · next hloads =>
        cases hs
        exact .unreadable hpopped hloads
    · cases hs
  | call w =>
    simp only [Requests.step] at hs
    split at hs
    · next hcalled =>
      split at hs
      · next hstopped =>
        cases hs
        exact .skipped hcalled hstopped
      · next hrunning =>
        have hnone := Option.not_isSome_iff_eq_none.mp hrunning
        split at hs
        · next hreads =>
          cases hs
          exact .processing hcalled hnone hreads
        · next hreads =>
          cases hs
          exact .rejected hcalled hnone hreads
    · cases hs
  | finish w result =>
    simp only [Requests.step] at hs
    split at hs
    · next hprocessing =>
      cases hs
      exact .finish hprocessing
    · cases hs
  | wake w =>
    simp only [Requests.step] at hs
    split at hs
    · next hsleeping =>
      cases hs
      exact .wake hsleeping
    · cases hs
  | shutdown w =>
    simp only [Requests.step] at hs
    split at hs
    · cases hs
    · next hstopped _ =>
      cases hs
      exact .stopped (Option.isSome_of_eq_some hstopped)
    · next hrunning _ =>
      cases hs
      exact .shutdown hrunning
  | kill w replyLost =>
    simp only [Requests.step] at hs
    split at hs
    · cases hs
    · next hwaiting =>
      cases replyLost with
      | true =>
        obtain ⟨t, hpop, rfl⟩ := Option.map_eq_some_iff.mp hs
        exact .killPopped hwaiting hpop
      | false =>
        cases hs
        exact .killFree (.inl hwaiting)
    · next hsleeping =>
      cases hs
      exact .killFree (.inr hsleeping)
    all_goals
      next hstage =>
      cases hs
      exact .killHeld (by rw [hstage]; rfl)

/-! ### What becomes of a message -/

/-- How the message that `w` took as number `n` can have ended. Requests that get to the processor
were taken before the worker was told to stop. -/
def Fate.Fits (s : State W) (w : W) (n : Nat) (text : String) : Fate → Prop
  | .undecodable => codec.loads text = .malformed
  | .unreadable => codec.loads text = .raised
  | .skipped => ∃ message, codec.loads text = .value message ∧ (s.stoppedAt w).isSome
  | .rejected => ∃ message, codec.loads text = .value message ∧ readRequest message = none
  | .queued _ | .ignored | .failed =>
    ∃ message request, codec.loads text = .value message ∧ readRequest message = some request ∧
      ∀ k, s.stoppedAt w = some k → n < k
  | .killed => s.stages w = .dead
  | .replyLost => True

/-- Every message that was pushed is on the list or was taken once, in the order of the pushes; one
that was taken is in the hand of its worker or has ended as its text and the worker say. The
counters of a worker count how its messages ended. -/
structure Accounted (s : State W) : Prop where
  pushed : s.ledger.items = s.pushed
  published : (s.published.filterMap codec.dumps).Sublist s.pushed
  held : ∀ n w text, s.ledger.taken[n]? = some (w, text) →
    ∀ w', (s.stages w').number? = some n ↔ w' = w ∧ s.ledger.ended n = none
  ended : ∀ n w text fate, s.ledger.taken[n]? = some (w, text) →
    s.ledger.ended n = some fate → fate.Fits codec s w n text
  untaken : ∀ n, s.ledger.taken.length ≤ n →
    s.ledger.ended n = none ∧ ∀ w, (s.stages w).number? ≠ some n
  processedCount : ∀ w, (s.health w).processedCount = s.ledger.tally Fate.isActivity w
  errorCount : ∀ w, (s.health w).errorCount = s.ledger.tally Fate.isError w

/-! ### The invariant -/

/-- What the stage says of the message in hand. -/
def Stage.Fits (s : State W) (w : W) : Stage → Prop
  | .popped n text => s.ledger.taken[n]? = some (w, text)
  | .called n message =>
    ∃ text, s.ledger.taken[n]? = some (w, text) ∧ codec.loads text = .value message
  | .processing n request =>
    ∃ text message, s.ledger.taken[n]? = some (w, text) ∧ codec.loads text = .value message ∧
      readRequest message = some request ∧ ∀ k, s.stoppedAt w = some k → n < k
  | _ => True

def State.held (s : State W) (w : W) : Option Nat := (s.stages w).number?

structure Kept (s : State W) : Prop where
  sound : s.ledger.Sound s.held
  pushed : s.ledger.items = s.pushed
  published : (s.published.filterMap codec.dumps).Sublist s.pushed
  stages : ∀ w, (s.stages w).Fits codec s w
  ended : ∀ n w text fate, s.ledger.taken[n]? = some (w, text) →
    s.ledger.ended n = some fate → fate.Fits codec s w n text
  processedCount : ∀ w, (s.health w).processedCount = s.ledger.tally Fate.isActivity w
  errorCount : ∀ w, (s.health w).errorCount = s.ledger.tally Fate.isError w

variable {codec} {s s' : State W} {w : W} {n : Nat}

theorem held_setStage (stage : Stage) :
    (s.setStage w stage).held = Function.update s.held w stage.number? := by
  funext x
  show (Function.update s.stages w stage x).number? = _
  by_cases hx : x = w
  · rw [hx, Function.update_self, Function.update_self]
  · rw [Function.update_of_ne hx, Function.update_of_ne hx]
    rfl

omit [DecidableEq W] in
/-- A stage is right where the messages taken before and the stop of its worker are the same. -/
theorem Stage.Fits.mono {stage : Stage} (h : stage.Fits codec s w)
    (htaken : ∀ (m : Nat) entry, s.ledger.taken[m]? = some entry →
      s'.ledger.taken[m]? = some entry)
    (hstopped : s'.stoppedAt w = s.stoppedAt w) : stage.Fits codec s' w := by
  cases stage with
  | popped m text => exact htaken _ _ h
  | called m message =>
    obtain ⟨text, htext, hloads⟩ := h
    exact ⟨text, htaken _ _ htext, hloads⟩
  | processing m request =>
    obtain ⟨text, message, htext, hloads, hread, hbefore⟩ := h
    refine ⟨text, message, htaken _ _ htext, hloads, hread, ?_⟩
    rw [hstopped]
    exact hbefore
  | _ => trivial

omit [DecidableEq W] in
theorem Fate.Fits.mono {fate : Fate} {text : String} (h : fate.Fits codec s w n text)
    (hstopped : s'.stoppedAt w = s.stoppedAt w)
    (hdead : s.stages w = .dead → s'.stages w = .dead) : fate.Fits codec s' w n text := by
  cases fate with
  | undecodable => exact h
  | unreadable => exact h
  | skipped =>
    obtain ⟨message, hloads, hstop⟩ := h
    exact ⟨message, hloads, by rwa [hstopped]⟩
  | rejected => exact h
  | queued | ignored | failed =>
    obtain ⟨message, request, hloads, hread, hbefore⟩ := h
    refine ⟨message, request, hloads, hread, ?_⟩
    rw [hstopped]
    exact hbefore
  | killed => exact hdead h
  | replyLost => trivial

theorem kept_initial : Kept codec ({} : State W) where
  sound := Ledger.sound_nil
  pushed := rfl
  published := List.nil_sublist _
  stages _ := trivial
  ended _ _ _ _ h := nomatch h
  processedCount _ := rfl
  errorCount _ := rfl

theorem Kept.popped (h : Kept codec s) {messageJson : String}
    (hstage : s.stages w = .popped n messageJson) :
    s.ledger.taken[n]? = some (w, messageJson) := by
  have hfits := h.stages w
  rw [hstage] at hfits
  exact hfits

/-- The message that `callback` was called with is what was taken. -/
theorem Kept.called (h : Kept codec s) {message : Json} (hstage : s.stages w = .called n message)
    {text : String} (htext : s.ledger.taken[n]? = some (w, text)) :
    codec.loads text = .value message := by
  have hfits := h.stages w
  rw [hstage] at hfits
  obtain ⟨messageJson, hmessage, hloads⟩ := hfits
  have hsame := htext.symm.trans hmessage
  cases hsame
  exact hloads

theorem Kept.push (h : Kept codec s) (text : String) : Kept codec (s.push text) where
  sound := h.sound.push text
  pushed := by
    show (s.ledger.push text).items = s.pushed ++ [text]
    rw [Ledger.items_push, h.pushed]
  published := h.published.trans (List.sublist_append_left _ _)
  stages x := (h.stages x).mono (fun _ _ ↦ id) rfl
  ended m x t fate ht hfate := (h.ended m x t fate ht hfate).mono rfl id
  processedCount := h.processedCount
  errorCount := h.errorCount

/-- The worker goes on with what it has in hand. -/
theorem Kept.setStage (h : Kept codec s) {stage : Stage}
    (hnumber : stage.number? = (s.stages w).number?) (halive : s.stages w ≠ .dead)
    (hfits : stage.Fits codec s w) : Kept codec (s.setStage w stage) where
  sound := by
    have hheld : (s.setStage w stage).held = s.held := by
      rw [held_setStage, hnumber]
      exact Function.update_eq_self _ _
    rw [hheld]
    exact h.sound
  pushed := h.pushed
  published := h.published
  stages x := by
    show (Function.update s.stages w stage x).Fits codec _ x
    by_cases hx : x = w
    · rw [hx, Function.update_self]
      exact hfits.mono (fun _ _ ↦ id) rfl
    · rw [Function.update_of_ne hx]
      exact (h.stages x).mono (fun _ _ ↦ id) rfl
  ended m x t fate ht hfate := by
    refine (h.ended m x t fate ht hfate).mono rfl ?_
    intro hdead
    show Function.update s.stages w stage x = .dead
    have hx : x ≠ w := by
      rintro rfl
      exact halive hdead
    rw [Function.update_of_ne hx]
    exact hdead
  processedCount := h.processedCount
  errorCount := h.errorCount

theorem pop_eq_some (h : s.pop w = some s') : ∃ text ledger,
    s.ledger.take w = some (text, ledger) ∧
      s' = { s.setStage w (.popped s.ledger.taken.length text) with ledger := ledger } := by
  unfold State.pop at h
  split at h
  · next text ledger htake =>
    cases h
    exact ⟨text, ledger, htake, rfl⟩
  · cases h

theorem Kept.pop (h : Kept codec s) (hwaiting : s.stages w = .waiting) (hpop : s.pop w = some s') :
    Kept codec s' := by
  obtain ⟨text, ledger, htake, rfl⟩ := pop_eq_some hpop
  obtain ⟨hledger, -⟩ := Ledger.take_eq_some htake
  have hfree : s.held w = none := by rw [State.held, hwaiting]; rfl
  have htaken : ledger.taken = s.ledger.taken ++ [(w, text)] := by rw [hledger]
  have hended : ledger.ended = s.ledger.ended := by rw [hledger]
  have hold (m : Nat) (entry : W × String) (hm : s.ledger.taken[m]? = some entry) :
      ledger.taken[m]? = some entry := by
    rw [htaken, Ledger.getElem?_taken_of_lt (Ledger.lt_of_taken hm)]
    exact hm
  constructor
  · show ledger.Sound (s.setStage w (.popped s.ledger.taken.length text)).held
    rw [held_setStage]
    exact h.sound.take hfree htake
  · exact (Ledger.items_take htake).trans h.pushed
  · exact h.published
  · intro x
    show (Function.update s.stages w (.popped s.ledger.taken.length text) x).Fits codec _ x
    by_cases hx : x = w
    · rw [hx, Function.update_self]
      show ledger.taken[s.ledger.taken.length]? = _
      rw [htaken, List.getElem?_concat_length]
    · rw [Function.update_of_ne hx]
      exact (h.stages x).mono hold rfl
  · intro m x t fate ht hfate
    have hfate' : s.ledger.ended m = some fate := by rw [← hended]; exact hfate
    have hlt : m < s.ledger.taken.length := by
      by_contra hnot
      rw [h.sound.ended_of_le m (Nat.not_lt.mp hnot)] at hfate'
      cases hfate'
    have ht' : s.ledger.taken[m]? = some (x, t) := by
      rw [← Ledger.getElem?_taken_of_lt hlt, ← htaken]
      exact ht
    refine (h.ended m x t fate ht' hfate').mono rfl ?_
    intro hdead
    have hx : x ≠ w := by
      rintro rfl
      rw [hwaiting] at hdead
      cases hdead
    show Function.update s.stages w _ x = .dead
    rw [Function.update_of_ne hx]
    exact hdead
  · exact fun x ↦ (h.processedCount x).trans (h.sound.tally_take htake).symm
  · exact fun x ↦ (h.errorCount x).trans (h.sound.tally_take htake).symm

/-- What is recorded for a message. -/
theorem count_finish (health : W → HealthChecker) (fate : Fate) (x : W) :
    (Function.update health w
      (if fate.isActivity then (health w).recordActivity
        else if fate.isError then (health w).recordError else health w) x).processedCount =
        (health x).processedCount + (if x = w then fate.isActivity.toNat else 0) ∧
    (Function.update health w
      (if fate.isActivity then (health w).recordActivity
        else if fate.isError then (health w).recordError else health w) x).errorCount =
        (health x).errorCount + (if x = w then fate.isError.toNat else 0) := by
  by_cases hx : x = w
  · rw [hx, Function.update_self, if_pos rfl, if_pos rfl]
    cases fate <;> exact ⟨rfl, rfl⟩
  · rw [Function.update_of_ne hx, if_neg hx, if_neg hx]
    exact ⟨rfl, rfl⟩

theorem Kept.finish (h : Kept codec s) (hnumber : (s.stages w).number? = some n) {fate : Fate}
    {next : Stage} (hnext : next = .waiting ∨ next = .sleeping ∨ next = .dead)
    (hfits : ∀ text, s.ledger.taken[n]? = some (w, text) →
      fate.Fits codec (s.finish w n fate next) w n text) :
    Kept codec (s.finish w n fate next) := by
  have hnone : next.number? = none := by
    rcases hnext with rfl | rfl | rfl <;> rfl
  have hplain (t : State W) (x : W) : next.Fits codec t x := by
    rcases hnext with rfl | rfl | rfl <;> trivial
  constructor
  · show (s.ledger.finish n fate).Sound (s.setStage w next).held
    rw [held_setStage, hnone]
    exact h.sound.finish hnumber fate
  · exact h.pushed
  · exact h.published
  · intro x
    show (Function.update s.stages w next x).Fits codec _ x
    by_cases hx : x = w
    · rw [hx, Function.update_self]
      exact hplain _ _
    · rw [Function.update_of_ne hx]
      exact (h.stages x).mono (fun _ _ ↦ id) rfl
  · intro m x t fate' ht hfate
    have hupdated : Function.update s.ledger.ended n (some fate) m = some fate' := hfate
    by_cases hm : m = n
    · rw [hm, Function.update_self] at hupdated
      cases hupdated
      rw [hm] at ht
      obtain ⟨t', ht', -⟩ := h.sound.taken_of_held w n hnumber
      have hsame : some (x, t) = some (w, t') := ht.symm.trans ht'
      cases hsame
      rw [hm]
      exact hfits t ht'
    · rw [Function.update_of_ne hm] at hupdated
      refine (h.ended m x t fate' ht hupdated).mono rfl ?_
      intro hdead
      have hx : x ≠ w := by
        rintro rfl
        rw [hdead] at hnumber
        cases hnumber
      show Function.update s.stages w next x = .dead
      rw [Function.update_of_ne hx]
      exact hdead
  · intro x
    show (Function.update s.health w _ x).processedCount = _
    rw [(count_finish s.health fate x).1, h.processedCount x]
    exact (h.sound.tally_finish _ hnumber fate x).symm
  · intro x
    show (Function.update s.health w _ x).errorCount = _
    rw [(count_finish s.health fate x).2, h.errorCount x]
    exact (h.sound.tally_finish _ hnumber fate x).symm

theorem Kept.shutdown (h : Kept codec s) (w : W) :
    Kept codec { s with
      stoppedAt := Function.update s.stoppedAt w (some s.ledger.taken.length) } where
  sound := h.sound
  pushed := h.pushed
  published := h.published
  stages x := by
    show (s.stages x).Fits codec _ x
    by_cases hx : x = w
    · -- what is in the worker's hand was taken before
      have hfits := h.stages x
      cases hstage : s.stages x with
      | processing m request =>
        rw [hstage] at hfits
        obtain ⟨text, message, htext, hloads, hread, -⟩ := hfits
        refine ⟨text, message, htext, hloads, hread, fun k hk ↦ ?_⟩
        have hupdated : Function.update s.stoppedAt w (some s.ledger.taken.length) x = some k := hk
        rw [hx, Function.update_self] at hupdated
        cases hupdated
        exact Ledger.lt_of_taken htext
      | _ =>
        rw [hstage] at hfits
        exact hfits
    · exact (h.stages x).mono (fun _ _ ↦ id) (Function.update_of_ne hx _ _)
  ended m x t fate ht hfate := by
    have hfits := h.ended m x t fate ht hfate
    by_cases hx : x = w
    · have hstop : Function.update s.stoppedAt w (some s.ledger.taken.length) x =
          some s.ledger.taken.length := by rw [hx, Function.update_self]
      cases fate with
      | skipped =>
        obtain ⟨message, hloads, -⟩ := hfits
        exact ⟨message, hloads, Option.isSome_of_eq_some hstop⟩
      | queued | ignored | failed =>
        obtain ⟨message, request, hloads, hread, -⟩ := hfits
        refine ⟨message, request, hloads, hread, fun k hk ↦ ?_⟩
        cases hstop.symm.trans hk
        exact Ledger.lt_of_taken ht
      | undecodable | unreadable | rejected | killed => exact hfits
      | replyLost => trivial
    · exact hfits.mono (Function.update_of_ne hx _ _) id
  processedCount := h.processedCount
  errorCount := h.errorCount

/-- The worker takes a message and loses it at once. -/
theorem Kept.popFinish (h : Kept codec s) (hwaiting : s.stages w = .waiting)
    (hpop : s.pop w = some s') {fate : Fate} {next : Stage}
    (hnext : next = .waiting ∨ next = .sleeping ∨ next = .dead)
    (hfits : ∀ (t : State W) text, t.stages w = next → fate.Fits codec t w n text)
    (hn : n = s.ledger.taken.length) : Kept codec (s'.finish w n fate next) := by
  obtain ⟨text, ledger, -, hs'⟩ := pop_eq_some hpop
  have hstage : s'.stages w = .popped n text := by
    rw [hs', hn]
    exact Function.update_self _ _ _
  apply (h.pop hwaiting hpop).finish (by rw [hstage]; rfl) hnext
  exact fun text' _ ↦ hfits _ text' (Function.update_self _ _ _)

theorem Kept.step {a : Action W} (h : Kept codec s) (hstep : Requests.step codec s a = some s') :
    Kept codec s' := by
  cases step_cases hstep with
  | unsent | stopped => exact h
  | pushed => exact h.push _
  | @published message text dumps =>
    have hpushed := h.push text
    refine { hpushed with published := ?_ }
    show ((s.published ++ [message]).filterMap codec.dumps).Sublist (s.pushed ++ [text])
    rw [List.filterMap_append, List.filterMap_cons_some dumps]
    exact h.published.append (List.Sublist.refl _)
  | pop waiting pops => exact h.pop waiting pops
  | popLost waiting pops =>
    exact h.popFinish waiting pops (.inr (.inl rfl)) (fun _ _ _ ↦ trivial) rfl
  | popFails waiting =>
    apply h.setStage
    · rw [waiting]; rfl
    · simp [waiting]
    · trivial
  | @decoded w n messageJson message popped loads =>
    apply h.setStage
    · rw [popped]; rfl
    · simp [popped]
    · exact ⟨messageJson, h.popped popped, loads⟩
  | undecodable popped loads =>
    apply h.finish (by rw [popped]; rfl) (.inl rfl)
    intro text ht
    have hsame := ht.symm.trans (h.popped popped)
    cases hsame
    exact loads
  | unreadable popped loads =>
    apply h.finish (by rw [popped]; rfl) (.inr (.inl rfl))
    intro text ht
    have hsame := ht.symm.trans (h.popped popped)
    cases hsame
    exact loads
  | @skipped w n message called stopped =>
    apply h.finish (by rw [called]; rfl) (.inl rfl)
    exact fun text ht ↦ ⟨message, h.called called ht, stopped⟩
  | @processing w n message request called running reads =>
    have hfits := h.stages w
    rw [called] at hfits
    obtain ⟨messageJson, hmessage, hloads⟩ := hfits
    apply h.setStage
    · rw [called]; rfl
    · simp [called]
    · refine ⟨messageJson, message, hmessage, hloads, reads, fun k hk ↦ ?_⟩
      rw [running] at hk
      cases hk
  | @rejected w n message called running reads =>
    apply h.finish (by rw [called]; rfl) (.inl rfl)
    exact fun text ht ↦ ⟨message, h.called called ht, reads⟩
  | @finish w n request result processing =>
    have hfits := h.stages w
    rw [processing] at hfits
    obtain ⟨messageJson, message, hmessage, hloads, hread, hbefore⟩ := hfits
    apply h.finish (by rw [processing]; rfl) (.inl rfl)
    intro text ht
    have hsame := ht.symm.trans hmessage
    cases hsame
    cases result with
    | _ => exact ⟨message, request, hloads, hread, hbefore⟩
  | wake sleeping =>
    apply h.setStage
    · rw [sleeping]; rfl
    · simp [sleeping]
    · trivial
  | @shutdown w running => exact h.shutdown w
  | killPopped waiting pops =>
    exact h.popFinish waiting pops (.inr (.inr rfl)) (fun _ _ ↦ id) rfl
  | killFree free =>
    rcases free with hstage | hstage <;>
    · apply h.setStage
      · rw [hstage]; rfl
      · simp [hstage]
      · trivial
  | killHeld held =>
    apply h.finish held (.inr (.inr rfl))
    exact fun _ _ ↦ Function.update_self _ _ _

theorem Kept.accounted (h : Kept codec s) : Accounted codec s where
  pushed := h.pushed
  published := h.published
  held n w text ht w' := by
    constructor
    · intro hheld
      obtain ⟨text', ht', hnone⟩ := h.sound.taken_of_held w' n hheld
      have hsame := ht.symm.trans ht'
      cases hsame
      exact ⟨rfl, hnone⟩
    · rintro ⟨rfl, hnone⟩
      exact h.sound.held_of_taken n w' text ht hnone
  ended := h.ended
  untaken n hn := by
    refine ⟨h.sound.ended_of_le n hn, fun w hheld ↦ ?_⟩
    obtain ⟨text, ht, -⟩ := h.sound.taken_of_held w n hheld
    exact absurd (Ledger.lt_of_taken ht) (Nat.not_lt.mpr hn)
  processedCount := h.processedCount
  errorCount := h.errorCount

/-- However publishers, workers, signals and lost connections interleave, every request is accounted
for. -/
theorem accounted_of_reach (h : (requests codec).Reach s) : Accounted codec s := by
  apply Kept.accounted
  apply h.invariant
  · rintro _ rfl
    exact kept_initial
  · exact fun t a t' ht _ hstep ↦ ht.step hstep

end System

/-- A codec for one request; other texts are no JSON. -/
def oneRequest : Codec where
  dumps _ := some "request"
  loads text := if text = "request" then
    .value (.obj [("repository", .str "owner/repo"), ("event_data", .obj [("action", .str "opened")]),
      ("workflow_name", .str "review")])
    else .malformed

/-- One worker queues a job; the other is told to stop and drops the request that it takes. -/
theorem accounted_of_reach_two : ∃ s : State (Fin 2),
    (s.ledger.taken = [(0, "request"), (1, "request")] ∧ s.ledger.waiting = ["request"] ∧
      (s.health 0).processedCount = 1 ∧ (s.ledger.ended 1).any (!·.isActivity)) ∧
      Accounted oneRequest s := by
  obtain ⟨s, hs, hend⟩ := System.exists_reachWhen (requests oneRequest) System.always
    (fun s : State (Fin 2) ↦ s.ledger.taken = [(0, "request"), (1, "request")] ∧
      s.ledger.waiting = ["request"] ∧ (s.health 0).processedCount = 1 ∧
      (s.ledger.ended 1).any (!·.isActivity))
    [.publish .null .done, .publish .null .lost, .pop 0, .publish .null .done, .decode 0, .call 0,
      .pop 1, .shutdown 1, .decode 1, .finish 0 (.jobId "j"), .call 1]
    rfl (by decide +kernel)
  exact ⟨s, hend, accounted_of_reach hs⟩

end GithubAgent.Queue.Requests
