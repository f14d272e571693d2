import GithubAgent.Base.Custody
import GithubAgent.Queue.DeadLetter
import GithubAgent.Queue.Requests

/-!
# Retries with many workers

The indexing, memory and retrospector loops with any number of senders, messages and worker
processes on one queue. A process may be told to stop or be killed at any point, and a connection
may break before or after Redis has done what it was asked.
-/

namespace GithubAgent.Queue.RetryPool

open GithubAgent.Base
open GithubAgent.Queue.Requests (Reply)

/-- The loop ends when the process is told to stop (`indexing_worker.py:946`,
`memory_worker.py:156`). `RedisQueue.subscribe`, which the retrospector uses, goes on; its handler
drops what comes (`retrospector_worker.py:330-331`). -/
def leavesLoop : Worker → Bool
  | .indexing | .memory => true
  | .retrospector => false

/-- A message, with the number of its sending for the record. -/
abbrev Message (B : Type) := RetryMessage (Nat × B)

/-- What a process is at: the head of its loop, `blpop`, the message it took, its job, the error of
the job, or its end. -/
inductive Stage (B : Type) where
  | top
  | blocked
  | popped (message : Message B)
  | working (message : Message B)
  | failed (message : Message B) (exc : Failure)
  | gone

/-- The number of the message in hand. -/
def Stage.number? {B : Type} : Stage B → Option Nat
  | .popped m | .working m | .failed m _ => some m.body.1
  | _ => none

/-- How a message ends: its job returned; it became a dead letter; its process was killed; the reply
that had it was lost; it could not be put back; or it was dropped after the stop. -/
inductive End where
  | returned
  | deadLettered
  | killed
  | replyLost
  | pushLost
  | dropped
  deriving DecidableEq

/-- The lists, the processes, and for the record what was sent, the attempts at each message and how
it ended. -/
structure State (w : Worker) (P B : Type) where
  lists : RetryLists (Nat × B) := ⟨[], []⟩
  stages : P → Stage B := fun _ ↦ .top
  told : P → Bool := fun _ ↦ false
  sent : List B := []
  made : Nat → List w.Attempt := fun _ ↦ []
  ended : Nat → Option End := fun _ ↦ none

inductive Action (w : Worker) (P B : Type) where
  | send (body : B) (reply : Reply)
  | wait (p : P)
  | leave (p : P)
  | timeout (p : P)
  | pop (p : P)
  | popFails (p : P) (replyLost : Bool)
  | start (p : P)
  | attempt (p : P) (met : w.Attempt)
  | enqueue (p : P) (reply : Reply)
  | tell (p : P)
  | kill (p : P) (replyLost : Bool)

section Pool

variable {w : Worker} {P B : Type} [DecidableEq P]

def State.setStage (s : State w P B) (p : P) (stage : Stage B) : State w P B :=
  { s with stages := Function.update s.stages p stage }

/-- A message is sent for the first time. -/
def State.send (s : State w P B) (body : B) : State w P B :=
  { s with
    lists := { s.lists with queue := s.lists.queue ++ [{ body := (s.sent.length, body) }] }
    sent := s.sent ++ [body] }

/-- The first message goes to a process. -/
def State.pop (s : State w P B) (p : P) : Option (State w P B) :=
  match s.lists.queue with
  | [] => none
  | m :: rest =>
    some { s.setStage p (.popped m) with lists := { s.lists with queue := rest } }

/-- The message in the hand of a process ends. -/
def State.finish (s : State w P B) (p : P) (i : Nat) (e : End) (next : Stage B) : State w P B :=
  { s.setStage p next with ended := Function.update s.ended i (some e) }

/-- What the process has in hand ends with it, if it has anything. -/
def State.lose (s : State w P B) (p : P) (e : End) (next : Stage B) : State w P B :=
  match (s.stages p).number? with
  | some i => s.finish p i e next
  | none => s.setStage p next

/-- `max_retries` of the two calls of `enqueue_for_retry`. -/
def maxRetries (exc : Failure) : Nat := if isTransientError exc then defaultMaxJobRetries else 0

/-- `enqueue_for_retry` takes the message for a dead letter (`dlq.py:54`). -/
def givesUp (m : Message B) (exc : Failure) : Bool := maxRetries exc ≤ m.attempts.getD 0 + 1

def step (s : State w P B) : Action w P B → Option (State w P B)
  | .send body reply =>
    match reply with
    | .done | .lost => some (s.send body)
    | .refused => some s
  | .wait p =>
    match s.stages p with
    | .top => if leavesLoop w && s.told p then none else some (s.setStage p .blocked)
    | _ => none
  | .leave p =>
    match s.stages p with
    | .top => if leavesLoop w && s.told p then some (s.setStage p .gone) else none
    | _ => none
  | .timeout p =>
    match s.stages p with
    | .blocked => some (s.setStage p .top)
    | _ => none
  | .pop p =>
    match s.stages p with
    | .blocked => s.pop p
    | _ => none
  | .popFails p replyLost =>
    match s.stages p with
    | .blocked =>
      if replyLost then (s.pop p).map fun t ↦ t.lose p .replyLost .top
      else some (s.setStage p .top)
    | _ => none
  | .start p =>
    match s.stages p with
    | .popped m =>
      if !leavesLoop w && s.told p then some (s.finish p m.body.1 .dropped .top)
      else some (s.setStage p (.working m))
    | _ => none
  | .attempt p met =>
    match s.stages p with
    | .working m =>
      let s := { s with
        made := Function.update s.made m.body.1 (s.made m.body.1 ++ [met]) }
      match w.processJob met with
      | .ok _ => some (s.finish p m.body.1 .returned .top)
      | .error exc => some (s.setStage p (.failed m exc))
    | _ => none
  | .enqueue p reply =>
    match s.stages p with
    | .failed m exc =>
      match reply with
      | .refused => some (s.finish p m.body.1 .pushLost .top)
      | .done | .lost =>
        let s := { s with lists := enqueueForRetry s.lists m exc (maxRetries exc) }
        if givesUp m exc then some (s.finish p m.body.1 .deadLettered .top)
        else some (s.setStage p .top)
    | _ => none
  | .tell p => some { s with told := Function.update s.told p true }
  | .kill p replyLost =>
    match s.stages p with
    | .gone => none
    | .blocked =>
      if replyLost then (s.pop p).map fun t ↦ t.lose p .killed .gone
      else some (s.setStage p .gone)
    | _ => some (s.lose p .killed .gone)

/-- The queue and its processes from their start. -/
def pool (w : Worker) (P B : Type) [DecidableEq P] : System (State w P B) (Action w P B) where
  init s := s = {}
  step := step

end Pool

/-! ### The accounting -/

section Accounting

variable {w : Worker} {P B : Type} {s s' : State w P B} {p : P} {i : Nat}

/-- At most three attempts, and none behind one that did not fail with a transient error. -/
structure Orderly (w : Worker) (made : List w.Attempt) : Prop where
  bounded : made.length ≤ defaultMaxJobRetries
  retried : ∀ before attempt after, made = before ++ attempt :: after → after ≠ [] →
    w.Retried attempt

/-- A message that will be attempted has its failures counted, and all of them were transient. -/
structure Waits (s : State w P B) (m : Message B) : Prop where
  body : s.sent[m.body.1]? = some m.body.2
  attempts : m.attempts.getD 0 = (s.made m.body.1).length
  more : (s.made m.body.1).length < defaultMaxJobRetries
  retried : ∀ attempt ∈ s.made m.body.1, w.Retried attempt

/-- The last of the attempts at a message failed with this error. -/
structure FailedWith (w : Worker) (made : List w.Attempt) (exc : Failure) : Prop where
  orderly : Orderly w made
  last : ∃ attempt, made.getLast? = some attempt ∧ w.processJob attempt = .error exc

/-- An entry of the dead-letter list: the message was given up after its last attempt, for a
permanent error or for the third transient one. -/
structure Letter (s : State w P B) (entry : DeadLetterEntry (Nat × B)) : Prop where
  ended : s.ended entry.originalMessage.body.1 = some .deadLettered
  body : s.sent[entry.originalMessage.body.1]? = some entry.originalMessage.body.2
  attempts : entry.attempts = (s.made entry.originalMessage.body.1).length
  failed : ∃ exc, FailedWith w (s.made entry.originalMessage.body.1) exc ∧
    entry.lastError = exc.typeName ++ ": " ++ exc.text ∧
    (isTransientError exc = true →
      (s.made entry.originalMessage.body.1).length = defaultMaxJobRetries)

/-- Every message that was sent is on the queue once, in the hand of one process, or has ended. Its
attempts are bounded and in order, and what is on the queue carries their number. A message that
returned has a last attempt that did, a dead letter is on its list once, and only the retrospector
drops messages. -/
structure Accounted (s : State w P B) : Prop where
  custody : Custody (s.lists.queue.map (·.body.1)) (fun p ↦ (s.stages p).number?) s.ended
    s.sent.length
  orderly : ∀ i, Orderly w (s.made i)
  waits : ∀ m ∈ s.lists.queue, Waits s m
  returned : ∀ i, s.ended i = some .returned → ∃ attempt absorbed,
    (s.made i).getLast? = some attempt ∧ w.processJob attempt = .ok absorbed
  letters : ∀ entry ∈ s.lists.deadLetter, Letter s entry
  onceDead : (s.lists.deadLetter.map (·.originalMessage.body.1)).Nodup
  dead : ∀ i, s.ended i = some .deadLettered →
    i ∈ s.lists.deadLetter.map (·.originalMessage.body.1)
  dropped : ∀ i, s.ended i = some .dropped → w = .retrospector

/-! ### The invariant -/

/-- What the stage says of the message in hand. -/
def Stage.Fits (s : State w P B) : Stage B → Prop
  | .popped m | .working m => Waits s m
  | .failed m exc => s.sent[m.body.1]? = some m.body.2 ∧
      m.attempts.getD 0 + 1 = (s.made m.body.1).length ∧ FailedWith w (s.made m.body.1) exc
  | _ => True

def State.held (s : State w P B) (p : P) : Option Nat := (s.stages p).number?

/-- The accounting while process `p` is between two stages. -/
structure Busy (s : State w P B) (p : P) : Prop extends Accounted s where
  others : ∀ q, q ≠ p → (s.stages q).Fits s
  fresh : ∀ i, s.sent.length ≤ i → s.made i = []

structure Kept (s : State w P B) : Prop extends Accounted s where
  stages : ∀ q, (s.stages q).Fits s
  fresh : ∀ i, s.sent.length ≤ i → s.made i = []

theorem Kept.busy (h : Kept s) (p : P) : Busy s p :=
  ⟨h.toAccounted, fun q _ ↦ h.stages q, h.fresh⟩

theorem orderly_nil : Orderly w [] := ⟨Nat.zero_le _, fun _ _ _ h ↦ by simp at h⟩

/-- One more attempt behind attempts that all failed with transient errors. -/
theorem orderly_concat {made : List w.Attempt} (hlt : made.length < defaultMaxJobRetries)
    (hretried : ∀ attempt ∈ made, w.Retried attempt) (last : w.Attempt) :
    Orderly w (made ++ [last]) := by
  constructor
  · rw [List.length_append, List.length_singleton]
    exact hlt
  · intro before attempt after heq hafter
    obtain ⟨init, x, rfl⟩ := (List.eq_nil_or_concat after).resolve_left hafter
    rw [List.concat_eq_append, ← List.cons_append, ← List.append_assoc] at heq
    have hmade := (List.append_inj' heq rfl).1
    apply hretried
    rw [hmade]
    exact List.mem_append_right _ List.mem_cons_self

theorem Waits.orderly {m : Message B} (h : Waits s m) : Orderly w (s.made m.body.1) := by
  refine ⟨Nat.le_of_lt h.more, fun before attempt after heq _ ↦ h.retried attempt ?_⟩
  rw [heq]
  exact List.mem_append_right _ List.mem_cons_self

/-- A message is as it was where its record is. -/
theorem Waits.congr {m : Message B} (h : Waits s m)
    (hsent : s'.sent[m.body.1]? = s.sent[m.body.1]?)
    (hmade : s'.made m.body.1 = s.made m.body.1) : Waits s' m := by
  constructor
  · rw [hsent]
    exact h.body
  · rw [hmade]
    exact h.attempts
  · rw [hmade]
    exact h.more
  · rw [hmade]
    exact h.retried

theorem Stage.Fits.congr {stage : Stage B} (h : stage.Fits s)
    (hsent : ∀ i, stage.number? = some i → s'.sent[i]? = s.sent[i]?)
    (hmade : ∀ i, stage.number? = some i → s'.made i = s.made i) : stage.Fits s' := by
  cases stage with
  | popped m => exact Waits.congr h (hsent _ rfl) (hmade _ rfl)
  | working m => exact Waits.congr h (hsent _ rfl) (hmade _ rfl)
  | failed m exc =>
    obtain ⟨hbody, hattempts, hfailed⟩ := h
    refine ⟨(hsent _ rfl).trans hbody, ?_, ?_⟩
    · rw [hmade _ rfl]
      exact hattempts
    · rw [hmade _ rfl]
      exact hfailed
  | top | blocked | gone => trivial

theorem Letter.congr {entry : DeadLetterEntry (Nat × B)} (h : Letter s entry)
    (hended : s'.ended entry.originalMessage.body.1 = s.ended entry.originalMessage.body.1)
    (hsent : s'.sent[entry.originalMessage.body.1]? = s.sent[entry.originalMessage.body.1]?)
    (hmade : s'.made entry.originalMessage.body.1 = s.made entry.originalMessage.body.1) :
    Letter s' entry := by
  constructor
  · rw [hended]
    exact h.ended
  · rw [hsent]
    exact h.body
  · rw [hmade]
    exact h.attempts
  · rw [hmade]
    exact h.failed

/-- The number of a message on the queue. -/
theorem mem_numbers {m : Message B} (h : m ∈ s.lists.queue) :
    m.body.1 ∈ s.lists.queue.map (·.body.1) := List.mem_map_of_mem h

theorem getElem?_sent_concat (body : B) {x : B} (h : s.sent[i]? = some x) :
    (s.sent ++ [body])[i]? = s.sent[i]? :=
  List.getElem?_append_left (List.getElem?_eq_some_iff.mp h).1

/-- What a stage says is said of a message that was sent. -/
theorem Stage.Fits.sent {stage : Stage B} (h : stage.Fits s) (hnumber : stage.number? = some i) :
    ∃ body, s.sent[i]? = some body := by
  cases stage with
  | popped m =>
    cases hnumber
    exact ⟨_, Waits.body h⟩
  | working m =>
    cases hnumber
    exact ⟨_, Waits.body h⟩
  | failed m exc =>
    cases hnumber
    exact ⟨_, h.1⟩
  | top | blocked | gone => cases hnumber

/-! ### One lemma for each move -/

theorem kept_initial : Kept ({} : State w P B) where
  custody := Custody.nil
  orderly _ := orderly_nil
  waits _ h := nomatch h
  returned _ h := nomatch h
  letters _ h := nomatch h
  onceDead := List.nodup_nil
  dead _ h := nomatch h
  dropped _ h := nomatch h
  stages _ := trivial
  fresh _ _ := rfl

theorem Kept.send (h : Kept s) (body : B) : Kept (s.send body) where
  custody := by
    show Custody ((s.lists.queue ++ [_]).map _) _ _ (s.sent ++ [body]).length
    rw [List.map_append, List.length_append]
    exact h.custody.add
  orderly := h.orderly
  waits m hm := by
    rcases List.mem_append.mp hm with hm | hm
    · have hwaits := h.waits m hm
      exact hwaits.congr (getElem?_sent_concat body hwaits.body) rfl
    · cases List.mem_singleton.mp hm
      have hmade : s.made s.sent.length = [] := h.fresh _ (Nat.le_refl _)
      constructor
      · exact List.getElem?_concat_length
      · show 0 = (s.made s.sent.length).length
        rw [hmade]
        rfl
      · show (s.made s.sent.length).length < _
        rw [hmade]
        exact Nat.zero_lt_succ _
      · intro attempt hattempt
        have hmem : attempt ∈ s.made s.sent.length := hattempt
        rw [hmade] at hmem
        cases hmem
  returned := h.returned
  letters entry hentry := by
    have hletter := h.letters entry hentry
    exact hletter.congr rfl (getElem?_sent_concat body hletter.body) rfl
  onceDead := h.onceDead
  dead := h.dead
  dropped := h.dropped
  stages q := by
    have hfits := h.stages q
    refine hfits.congr (fun j hj ↦ ?_) fun _ _ ↦ rfl
    obtain ⟨x, hx⟩ := hfits.sent hj
    exact getElem?_sent_concat body hx
  fresh j hj := by
    have hlength : (s.sent ++ [body]).length ≤ j := hj
    rw [List.length_append] at hlength
    exact h.fresh j (by omega)

variable [DecidableEq P]

theorem held_setStage (next : Stage B) :
    (s.setStage p next).held = Function.update s.held p next.number? := by
  funext q
  show (Function.update s.stages p next q).number? = _
  by_cases hq : q = p
  · rw [hq, Function.update_self, Function.update_self]
  · rw [Function.update_of_ne hq, Function.update_of_ne hq]
    rfl

/-- The process goes on with what it has in hand. -/
theorem Busy.setStage (h : Busy s p) {next : Stage B}
    (hnumber : next.number? = (s.stages p).number?) (hfits : next.Fits s) :
    Kept (s.setStage p next) where
  custody := by
    have hheld : (s.setStage p next).held = s.held := by
      rw [held_setStage, hnumber]
      exact Function.update_eq_self _ _
    show Custody _ (s.setStage p next).held _ _
    rw [hheld]
    exact h.custody
  orderly := h.orderly
  waits m hm := (h.waits m hm).congr rfl rfl
  returned := h.returned
  letters entry hentry := (h.letters entry hentry).congr rfl rfl rfl
  onceDead := h.onceDead
  dead := h.dead
  dropped := h.dropped
  stages q := by
    show (Function.update s.stages p next q).Fits _
    by_cases hq : q = p
    · rw [hq, Function.update_self]
      exact hfits.congr (fun _ _ ↦ rfl) fun _ _ ↦ rfl
    · rw [Function.update_of_ne hq]
      exact (h.others q hq).congr (fun _ _ ↦ rfl) fun _ _ ↦ rfl
  fresh := h.fresh

/-- A message ends, though not as a dead letter. -/
theorem Busy.finish (h : Busy s p) (hnumber : (s.stages p).number? = some i) {e : End}
    {next : Stage B} (hnext : next = .top ∨ next = .gone) (hdead : e ≠ .deadLettered)
    (hreturned : e = .returned → ∃ attempt absorbed,
      (s.made i).getLast? = some attempt ∧ w.processJob attempt = .ok absorbed)
    (hdropped : e = .dropped → w = .retrospector) : Kept (s.finish p i e next) := by
  have hnone : next.number? = none := by
    rcases hnext with rfl | rfl <;> rfl
  have hcustody := h.custody.finish hnumber e
  have hended : (s.finish p i e next).ended = Function.update s.ended i (some e) := rfl
  have hother {j : Nat} (hj : s.ended j = some .deadLettered) : j ≠ i := by
    rintro rfl
    rw [(h.custody.of_held p j hnumber).2.1] at hj
    cases hj
  constructor
  · constructor
    · show Custody _ (s.setStage p next).held _ _
      rw [held_setStage, hnone]
      exact hcustody
    · exact h.orderly
    · exact fun m hm ↦ (h.waits m hm).congr rfl rfl
    · intro j hj
      rw [hended] at hj
      by_cases hji : j = i
      · rw [hji, Function.update_self] at hj
        cases hj
        rw [hji]
        exact hreturned rfl
      · rw [Function.update_of_ne hji] at hj
        exact h.returned j hj
    · intro entry hentry
      have hletter := h.letters entry hentry
      refine hletter.congr ?_ rfl rfl
      rw [hended, Function.update_of_ne (hother hletter.ended)]
    · exact h.onceDead
    · intro j hj
      rw [hended] at hj
      by_cases hji : j = i
      · rw [hji, Function.update_self] at hj
        exact absurd (Option.some.inj hj) hdead
      · rw [Function.update_of_ne hji] at hj
        exact h.dead j hj
    · intro j hj
      rw [hended] at hj
      by_cases hji : j = i
      · rw [hji, Function.update_self] at hj
        exact hdropped (Option.some.inj hj)
      · rw [Function.update_of_ne hji] at hj
        exact h.dropped j hj
  · intro q
    show (Function.update s.stages p next q).Fits _
    by_cases hq : q = p
    · rw [hq, Function.update_self]
      rcases hnext with rfl | rfl <;> trivial
    · rw [Function.update_of_ne hq]
      exact (h.others q hq).congr (fun _ _ ↦ rfl) fun _ _ ↦ rfl
  · exact h.fresh

theorem pop_eq_some (h : s.pop p = some s') : ∃ m rest, s.lists.queue = m :: rest ∧
    s' = { s.setStage p (.popped m) with lists := { s.lists with queue := rest } } := by
  unfold State.pop at h
  split at h
  · cases h
  · next m rest hqueue =>
    cases h
    exact ⟨m, rest, hqueue, rfl⟩

theorem Kept.pop (h : Kept s) (hblocked : s.stages p = .blocked) (hpop : s.pop p = some s') :
    Kept s' := by
  obtain ⟨m, rest, hqueue, rfl⟩ := pop_eq_some hpop
  have hwaits := h.waits m (by rw [hqueue]; exact List.mem_cons_self)
  have hfree : s.held p = none := by rw [State.held, hblocked]; rfl
  have hcustody := h.custody
  rw [hqueue, List.map_cons] at hcustody
  constructor
  · constructor
    · show Custody _ (s.setStage p (.popped m)).held _ _
      rw [held_setStage]
      exact hcustody.take hfree
    · exact h.orderly
    · exact fun m' hm' ↦ (h.waits m' (hqueue ▸ List.mem_cons_of_mem _ hm')).congr rfl rfl
    · exact h.returned
    · exact fun entry hentry ↦ (h.letters entry hentry).congr rfl rfl rfl
    · exact h.onceDead
    · exact h.dead
    · exact h.dropped
  · intro q
    show (Function.update s.stages p (.popped m) q).Fits _
    by_cases hq : q = p
    · rw [hq, Function.update_self]
      exact hwaits.congr rfl rfl
    · rw [Function.update_of_ne hq]
      exact (h.stages q).congr (fun _ _ ↦ rfl) fun _ _ ↦ rfl
  · exact h.fresh

omit [DecidableEq P] in
/-- The message in hand is attempted once more. -/
theorem Kept.attempt (h : Kept s) {m : Message B} (hnumber : (s.stages p).number? = some m.body.1)
    (hwaits : Waits s m) (met : w.Attempt) :
    Busy { s with made := Function.update s.made m.body.1 (s.made m.body.1 ++ [met]) } p := by
  obtain ⟨hlt, hended, hone⟩ := h.custody.of_held p _ hnumber
  have hother {j : Nat} (hj : j ≠ m.body.1) :
      Function.update s.made m.body.1 (s.made m.body.1 ++ [met]) j = s.made j :=
    Function.update_of_ne hj _ _
  have hnotEnded {j : Nat} {e : End} (hj : s.ended j = some e) : j ≠ m.body.1 := by
    rintro rfl
    rw [hended] at hj
    cases hj
  constructor
  · constructor
    · exact h.custody
    · intro j
      show Orderly w (Function.update s.made m.body.1 _ j)
      by_cases hj : j = m.body.1
      · rw [hj, Function.update_self]
        exact orderly_concat hwaits.more hwaits.retried met
      · rw [hother hj]
        exact h.orderly j
    · intro m' hm'
      have hne : m'.body.1 ≠ m.body.1 := fun heq ↦
        h.custody.notMem_of_held hnumber (heq ▸ mem_numbers hm')
      exact (h.waits m' hm').congr rfl (hother hne)
    · intro j hj
      obtain ⟨attempt, absorbed, hlast, hjob⟩ := h.returned j hj
      have hsame := congrArg List.getLast? (hother (hnotEnded hj))
      exact ⟨attempt, absorbed, hsame.trans hlast, hjob⟩
    · intro entry hentry
      have hletter := h.letters entry hentry
      exact hletter.congr rfl rfl (hother (hnotEnded hletter.ended))
    · exact h.onceDead
    · exact h.dead
    · exact h.dropped
  · intro q hq
    refine (h.stages q).congr (fun _ _ ↦ rfl) fun j hj ↦ hother ?_
    rintro rfl
    exact hq (hone q hj)
  · intro j hj
    have hne : j ≠ m.body.1 := by
      rintro rfl
      exact absurd hlt (Nat.not_lt.mpr hj)
    exact (hother hne).trans (h.fresh j hj)

/-! ### Putting a message back -/

/-- The message as `enqueue_for_retry` leaves it. -/
def again (m : Message B) (exc : Failure) : Message B :=
  { m with
    attempts := some (m.attempts.getD 0 + 1)
    lastError := some (exc.typeName ++ ": " ++ exc.text) }

/-- The entry for a message that is given up. -/
def letterOf (m : Message B) (exc : Failure) : DeadLetterEntry (Nat × B) where
  reason := "max_retries_exceeded"
  lastError := exc.typeName ++ ": " ++ exc.text
  attempts := m.attempts.getD 0 + 1
  originalMessage := again m exc

omit [DecidableEq P] in
theorem enqueueForRetry_of_givesUp (lists : RetryLists (Nat × B)) {m : Message B} {exc : Failure}
    (h : givesUp m exc = true) : enqueueForRetry lists m exc (maxRetries exc) =
      { lists with deadLetter := lists.deadLetter ++ [letterOf m exc] } :=
  if_pos (of_decide_eq_true h)

omit [DecidableEq P] in
theorem enqueueForRetry_of_not_givesUp (lists : RetryLists (Nat × B)) {m : Message B}
    {exc : Failure} (h : ¬ givesUp m exc = true) : enqueueForRetry lists m exc (maxRetries exc) =
      { lists with queue := lists.queue ++ [again m exc] } :=
  if_neg fun hle ↦ h (decide_eq_true hle)

theorem Kept.putBack (h : Kept s) {m : Message B} {exc : Failure}
    (hstage : s.stages p = .failed m exc) (hmore : ¬ givesUp m exc = true) :
    Kept ({ s with lists := { s.lists with queue := s.lists.queue ++ [again m exc] } }.setStage p
      .top) := by
  have hfits := h.stages p
  rw [hstage] at hfits
  obtain ⟨hbody, hattempts, hfailed⟩ := hfits
  have hnumber : s.held p = some m.body.1 := by rw [State.held, hstage]; rfl
  have hlt : m.attempts.getD 0 + 1 < maxRetries exc :=
    Nat.not_le.mp fun hle ↦ hmore (decide_eq_true hle)
  have htransient : isTransientError exc = true := by
    by_contra hnot
    rw [maxRetries, if_neg hnot] at hlt
    exact absurd hlt (Nat.not_lt_zero _)
  rw [maxRetries, if_pos htransient, hattempts] at hlt
  have hwaits : Waits s (again m exc) := by
    refine ⟨hbody, hattempts, hlt, fun attempt hattempt ↦ ?_⟩
    obtain ⟨last, hlast, hjob⟩ := hfailed.last
    obtain ⟨before, after, hmade⟩ := List.append_of_mem hattempt
    by_cases hafter : after = []
    · have hsame : last = attempt := by
        have hmade' : s.made m.body.1 = before ++ attempt :: after := hmade
        rw [hmade', hafter, List.getLast?_concat] at hlast
        exact (Option.some.inj hlast).symm
      exact hsame ▸ ⟨exc, hjob, htransient⟩
    · exact hfailed.orderly.retried before attempt after hmade hafter
  constructor
  · constructor
    · show Custody ((s.lists.queue ++ [again m exc]).map _) (s.setStage p .top).held _ _
      rw [held_setStage, List.map_append]
      exact h.custody.putBack hnumber
    · exact h.orderly
    · intro m' hm'
      rcases List.mem_append.mp hm' with hm' | hm'
      · exact (h.waits m' hm').congr rfl rfl
      · rw [List.mem_singleton.mp hm']
        exact hwaits.congr rfl rfl
    · exact h.returned
    · exact fun entry hentry ↦ (h.letters entry hentry).congr rfl rfl rfl
    · exact h.onceDead
    · exact h.dead
    · exact h.dropped
  · intro q
    show (Function.update s.stages p .top q).Fits _
    by_cases hq : q = p
    · rw [hq, Function.update_self]
      trivial
    · rw [Function.update_of_ne hq]
      exact (h.stages q).congr (fun _ _ ↦ rfl) fun _ _ ↦ rfl
  · exact h.fresh

theorem Kept.bury (h : Kept s) {m : Message B} {exc : Failure}
    (hstage : s.stages p = .failed m exc) (hgiven : givesUp m exc = true) :
    Kept ({ s with lists := { s.lists with
      deadLetter := s.lists.deadLetter ++ [letterOf m exc] } }.finish p m.body.1 .deadLettered
        .top) := by
  have hfits := h.stages p
  rw [hstage] at hfits
  obtain ⟨hbody, hattempts, hfailed⟩ := hfits
  have hnumber : s.held p = some m.body.1 := by rw [State.held, hstage]; rfl
  have hnone := (h.custody.of_held p _ hnumber).2.1
  have hother {j : Nat} {e : End} (hj : s.ended j = some e) : j ≠ m.body.1 := by
    rintro rfl
    rw [hnone] at hj
    cases hj
  have hthird : isTransientError exc = true →
      (s.made m.body.1).length = defaultMaxJobRetries := by
    intro htransient
    have hle : maxRetries exc ≤ m.attempts.getD 0 + 1 := of_decide_eq_true hgiven
    rw [maxRetries, if_pos htransient, hattempts] at hle
    exact Nat.le_antisymm hfailed.orderly.bounded hle
  have hended (j : Nat) : (Function.update s.ended m.body.1 (some End.deadLettered) j) =
      if j = m.body.1 then some .deadLettered else s.ended j :=
    Function.update_apply _ _ _ _
  constructor
  · constructor
    · show Custody _ (s.setStage p .top).held _ _
      rw [held_setStage]
      exact h.custody.finish hnumber _
    · exact h.orderly
    · exact fun m' hm' ↦ (h.waits m' hm').congr rfl rfl
    · intro j hj
      have hj' : (Function.update s.ended m.body.1 (some End.deadLettered) j) = some .returned := hj
      rw [hended] at hj'
      split at hj'
      · cases hj'
      · exact h.returned j hj'
    · intro entry hentry
      rcases List.mem_append.mp hentry with hentry | hentry
      · have hletter := h.letters entry hentry
        exact hletter.congr (Function.update_of_ne (hother hletter.ended) _ _) rfl rfl
      · rw [List.mem_singleton.mp hentry]
        exact ⟨Function.update_self _ _ _, hbody, hattempts, exc, hfailed, rfl, hthird⟩
    · show ((s.lists.deadLetter ++ [letterOf m exc]).map _).Nodup
      rw [List.map_append]
      apply List.nodup_append.mpr
      refine ⟨h.onceDead, List.nodup_singleton _, ?_⟩
      rintro j hj _ hj' rfl
      obtain ⟨entry, hentry, rfl⟩ := List.mem_map.mp hj
      exact hother (h.letters entry hentry).ended (List.mem_singleton.mp hj')
    · intro j hj
      have hj' : (Function.update s.ended m.body.1 (some End.deadLettered) j) =
        some .deadLettered := hj
      show j ∈ (s.lists.deadLetter ++ [letterOf m exc]).map _
      rw [List.map_append, List.mem_append]
      rw [hended] at hj'
      split at hj'
      · next heq => exact .inr (List.mem_singleton.mpr heq)
      · exact .inl (h.dead j hj')
    · intro j hj
      have hj' : (Function.update s.ended m.body.1 (some End.deadLettered) j) = some .dropped := hj
      rw [hended] at hj'
      split at hj'
      · cases hj'
      · exact h.dropped j hj'
  · intro q
    show (Function.update s.stages p .top q).Fits _
    by_cases hq : q = p
    · rw [hq, Function.update_self]
      trivial
    · rw [Function.update_of_ne hq]
      exact (h.stages q).congr (fun _ _ ↦ rfl) fun _ _ ↦ rfl
  · exact h.fresh

/-! ### Every run -/

/-- A process loses what it has in hand. -/
theorem Kept.lose (h : Kept s) {e : End} {next : Stage B} (hnext : next = .top ∨ next = .gone)
    (he : e = .killed ∨ e = .replyLost) : Kept (s.lose p e next) := by
  unfold State.lose
  split
  · next i hnumber =>
    apply (h.busy p).finish hnumber hnext
    · rcases he with rfl | rfl <;> nofun
    · rcases he with rfl | rfl <;> nofun
    · rcases he with rfl | rfl <;> nofun
  · next hnone =>
    apply (h.busy p).setStage
    · rw [hnone]
      rcases hnext with rfl | rfl <;> rfl
    · rcases hnext with rfl | rfl <;> trivial

/-- The job of a process ends. -/
theorem Kept.attempted (h : Kept s) {m : Message B} (hstage : s.stages p = .working m)
    {met : w.Attempt} (hstep : step s (.attempt p met) = some s') : Kept s' := by
  have hnumber : (s.stages p).number? = some m.body.1 := by rw [hstage]; rfl
  have hwaits : Waits s m := by
    have hfits := h.stages p
    rw [hstage] at hfits
    exact hfits
  have hbusy := h.attempt hnumber hwaits met
  have hmade : Function.update s.made m.body.1 (s.made m.body.1 ++ [met]) m.body.1 =
      s.made m.body.1 ++ [met] := Function.update_self _ _ _
  simp only [step, hstage] at hstep
  split at hstep
  · next absorbed hjob =>
    cases hstep
    apply hbusy.finish hnumber (.inl rfl)
    · nofun
    · refine fun _ ↦ ⟨met, absorbed, ?_, hjob⟩
      exact (congrArg List.getLast? hmade).trans List.getLast?_concat
    · nofun
  · next exc hjob =>
    cases hstep
    apply hbusy.setStage
    · exact hnumber.symm
    · refine ⟨hwaits.body, ?_, ?_⟩
      · show m.attempts.getD 0 + 1 = (Function.update s.made m.body.1 _ m.body.1).length
        rw [hmade, hwaits.attempts, List.length_append, List.length_singleton]
      · show FailedWith w (Function.update s.made m.body.1 _ m.body.1) exc
        rw [hmade]
        exact ⟨orderly_concat hwaits.more hwaits.retried met, met, List.getLast?_concat, hjob⟩

/-- A message is put back or given up. -/
theorem Kept.enqueued (h : Kept s) {m : Message B} {exc : Failure}
    (hstage : s.stages p = .failed m exc) {reply : Reply}
    (hstep : step s (.enqueue p reply) = some s') : Kept s' := by
  have hnumber : (s.stages p).number? = some m.body.1 := by rw [hstage]; rfl
  have hpushed (hstep : (if givesUp m exc then
        some (({ s with lists := enqueueForRetry s.lists m exc (maxRetries exc) }).finish p m.body.1
          .deadLettered .top)
      else some (({ s with lists := enqueueForRetry s.lists m exc (maxRetries exc) }).setStage p
          .top)) = some s') : Kept s' := by
    split at hstep
    · next hgiven =>
      rw [enqueueForRetry_of_givesUp _ hgiven] at hstep
      cases hstep
      exact h.bury hstage hgiven
    · next hmore =>
      rw [enqueueForRetry_of_not_givesUp _ hmore] at hstep
      cases hstep
      exact h.putBack hstage hmore
  simp only [step, hstage] at hstep
  cases reply with
  | refused =>
    cases hstep
    apply (h.busy p).finish hnumber (.inl rfl)
    · nofun
    · nofun
    · nofun
  | done => exact hpushed hstep
  | lost => exact hpushed hstep

theorem eq_retrospector_of_not_leavesLoop (h : leavesLoop w = false) : w = .retrospector := by
  cases w with
  | retrospector => rfl
  | indexing | memory => cases h

theorem Kept.step {a : Action w P B} (h : Kept s) (hstep : RetryPool.step s a = some s') :
    Kept s' := by
  -- between two stages without a message
  have hmove {p : P} {next : Stage B} (hnow : (s.stages p).number? = none)
      (hnext : next = .top ∨ next = .blocked ∨ next = .gone) : Kept (s.setStage p next) := by
    apply (h.busy p).setStage
    · rw [hnow]
      rcases hnext with rfl | rfl | rfl <;> rfl
    · rcases hnext with rfl | rfl | rfl <;> trivial
  cases a with
  | send body reply =>
    simp only [RetryPool.step] at hstep
    split at hstep
    · cases hstep
      exact h.send body
    · cases hstep
      exact h.send body
    · cases hstep
      exact h
  | wait p =>
    simp only [RetryPool.step] at hstep
    split at hstep
    · next hstage =>
      split at hstep
      · cases hstep
      · cases hstep
        exact hmove (by rw [hstage]; rfl) (.inr (.inl rfl))
    · cases hstep
  | leave p =>
    simp only [RetryPool.step] at hstep
    split at hstep
    · next hstage =>
      split at hstep
      · cases hstep
        exact hmove (by rw [hstage]; rfl) (.inr (.inr rfl))
      · cases hstep
    · cases hstep
  | timeout p =>
    simp only [RetryPool.step] at hstep
    split at hstep
    · next hstage =>
      cases hstep
      exact hmove (by rw [hstage]; rfl) (.inl rfl)
    · cases hstep
  | pop p =>
    simp only [RetryPool.step] at hstep
    split at hstep
    · next hstage => exact h.pop hstage hstep
    · cases hstep
  | popFails p replyLost =>
    simp only [RetryPool.step] at hstep
    split at hstep
    · next hstage =>
      split at hstep
      · obtain ⟨t, hpop, rfl⟩ := Option.map_eq_some_iff.mp hstep
        exact (h.pop hstage hpop).lose (.inl rfl) (.inr rfl)
      · cases hstep
        exact hmove (by rw [hstage]; rfl) (.inl rfl)
    · cases hstep
  | start p =>
    simp only [RetryPool.step] at hstep
    split at hstep
    · next m hstage =>
      split at hstep
      · next hdrops =>
        cases hstep
        apply (h.busy p).finish (by rw [hstage]; rfl) (.inl rfl)
        · nofun
        · nofun
        · intro _
          apply eq_retrospector_of_not_leavesLoop
          rw [Bool.and_eq_true, Bool.not_eq_true'] at hdrops
          exact hdrops.1
      · cases hstep
        have hfits := h.stages p
        rw [hstage] at hfits
        apply (h.busy p).setStage
        · rw [hstage]; rfl
        · exact hfits
    · cases hstep
  | attempt p met =>
    cases hstage : s.stages p with
    | working m => exact h.attempted hstage hstep
    | top | blocked | popped | failed | gone =>
      simp only [RetryPool.step, hstage] at hstep
      cases hstep
  | enqueue p reply =>
    cases hstage : s.stages p with
    | failed m exc => exact h.enqueued hstage hstep
    | top | blocked | popped | working | gone =>
      simp only [RetryPool.step, hstage] at hstep
      cases hstep
  | tell p =>
    cases hstep
    exact {
      h with
      waits := fun m hm ↦ (h.waits m hm).congr rfl rfl
      letters := fun entry hentry ↦ (h.letters entry hentry).congr rfl rfl rfl
      stages := fun q ↦ (h.stages q).congr (fun _ _ ↦ rfl) fun _ _ ↦ rfl }
  | kill p replyLost =>
    simp only [RetryPool.step] at hstep
    split at hstep
    · cases hstep
    · next hstage =>
      split at hstep
      · obtain ⟨t, hpop, rfl⟩ := Option.map_eq_some_iff.mp hstep
        exact (h.pop hstage hpop).lose (.inr rfl) (.inl rfl)
      · cases hstep
        exact hmove (by rw [hstage]; rfl) (.inr (.inr rfl))
    · cases hstep
      exact h.lose (.inr rfl) (.inl rfl)

/-- However senders, processes, signals and lost connections interleave, every message is accounted
for. -/
theorem accounts_of_reach (h : (pool w P B).Reach s) : Accounted s := by
  have hkept : Kept s := by
    apply h.invariant
    · rintro _ rfl
      exact kept_initial
    · exact fun t a t' ht _ hstep ↦ ht.step hstep
  exact hkept.toAccounted

end Accounting

/-- Two memory workers share a message that fails with a lost connection and then succeeds, and one
of them is killed with another. -/
theorem accounts_of_reach_two : ∃ s : State .memory (Fin 2) String,
    (s.lists.queue.length = 0 ∧ s.ended 0 = some .returned ∧ s.ended 1 = some .killed ∧
      (s.made 0).length = 2) ∧ Accounted s := by
  obtain ⟨s, hs, hend⟩ := System.exists_reachWhen (pool .memory (Fin 2) String) System.always
    (fun s ↦ s.lists.queue.length = 0 ∧ s.ended 0 = some .returned ∧ s.ended 1 = some .killed ∧
      (s.made 0).length = 2)
    [.send "a" .done, .wait 0, .pop 0, .start 0,
      .attempt 0 (Worker.raisesAt .memory MemorySite.executeSdk "connection lost"), .send "b" .lost,
      .enqueue 0 .done, .wait 1, .pop 1, .start 1, .wait 0, .pop 0, .kill 1 false, .tell 0,
      .start 0, .attempt 0 fun _ ↦ none, .leave 0]
    rfl (by decide +kernel)
  exact ⟨s, hend, accounts_of_reach hs⟩

end GithubAgent.Queue.RetryPool
