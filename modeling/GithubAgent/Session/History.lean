import GithubAgent.Base.Lists
import GithubAgent.Base.Transition

/-!
# The history of a session page

`SessionStreamBridge.publish` sends a message on the channel of the session and then appends it to
a list. A browser reads the list, is sent what it holds, and then subscribes to the channel
(`src/shared/session_stream.py`, `src/services/session_proxy/main.py`). A message is sent to those
who have subscribed, and read by those who have not yet read; the two do not meet.
-/

namespace GithubAgent.Session.History

open GithubAgent.Base

/-- Where a call of `publish` stands: before its `PUBLISH`, `RPUSH`, `LTRIM` and `EXPIRE`, or
behind them. -/
inductive CallPhase where
  | called
  | published
  | pushed
  | trimmed
  | returned
  deriving DecidableEq

/-- Whether the message is in the list. -/
def CallPhase.isPushed : CallPhase → Bool
  | .pushed | .trimmed | .returned => true
  | _ => false

/-- Where the handler of a browser stands: before it reads the list, while it sends what it has
read, with what it has received and not yet forwarded, or at its end. -/
inductive Client where
  | accepted
  | sending (rest : List Nat)
  | live (buffer : List Nat)
  | gone
  deriving DecidableEq

/-- The calls of `publish` for a token, whose messages have the numbers of the calls; the messages
in the order in which they were published; the list; and the browser with what it was sent. -/
structure Feed where
  calls : List CallPhase
  published : List Nat
  history : List Nat
  client : Client
  delivered : List Nat
  deriving DecidableEq

/-- The steps of calls and of the browser's handler. -/
inductive FeedAction where
  | call
  | publish (i : Nat)
  | push (i : Nat)
  | trim (i : Nat)
  | expire (i : Nat)
  | read
  | send
  | subscribe
  | forward
  | disconnect

namespace Feed

/-- A call goes from one command to the next. -/
def advance (s : Feed) (i : Nat) (before after : CallPhase) (s' : Feed) : Option Feed :=
  if s.calls[i]? = some before then some { s' with calls := s.calls.set i after } else none

/-- The subscription of a browser gets the message. -/
def receive (client : Client) (i : Nat) : Client :=
  match client with
  | .live buffer => .live (buffer ++ [i])
  | client => client

/-- What the browser's handler has still to send, or to read. -/
def pending (s : Feed) : List Nat :=
  match s.client with
  | .accepted => s.history
  | .sending rest => rest
  | .live buffer => buffer
  | .gone => []

end Feed

/-- The calls of `publish` and one browser, of a session with fewer than `HISTORY_MAX` messages and
without transcript (`session_stream.py:73-89`, `session_proxy/main.py:415-421, 622-692`). -/
def feed (historyMax : Nat) : System Feed FeedAction where
  init s := s.calls = [] ∧ s.published = [] ∧ s.history = [] ∧ s.client = .accepted ∧
    s.delivered = []
  step s
    | .call =>
      if s.calls.length < historyMax then some { s with calls := s.calls ++ [.called] } else none
    | .publish i => s.advance i .called .published
        { s with published := s.published ++ [i], client := Feed.receive s.client i }
    | .push i => s.advance i .published .pushed { s with history := s.history ++ [i] }
    | .trim i => s.advance i .pushed .trimmed
        { s with history := s.history.drop (s.history.length - historyMax) }
    | .expire i => s.advance i .trimmed .returned s
    | .read =>
      match s.client with
      | .accepted => some { s with client := .sending s.history }
      | _ => none
    | .send =>
      match s.client with
      | .sending (i :: rest) =>
        some { s with client := .sending rest, delivered := s.delivered ++ [i] }
      | _ => none
    | .subscribe =>
      match s.client with
      | .sending [] => some { s with client := .live [] }
      | _ => none
    | .forward =>
      match s.client with
      | .live (i :: buffer) =>
        some { s with client := .live buffer, delivered := s.delivered ++ [i] }
      | _ => none
    | .disconnect => some { s with client := .gone }

/-- The message of a call that has returned is delivered, or will be, as long as the browser stays;
it is delivered when nothing is left to forward; and first deliveries come in the order of the
publications. -/
structure NoGap (s : Feed) : Prop where
  waits : s.client ≠ .gone → ∀ i : Nat, s.calls[i]? = some .returned →
    i ∈ s.delivered ∨ i ∈ s.pending
  delivered : s.client = .live [] → ∀ i : Nat, s.calls[i]? = some .returned → i ∈ s.delivered
  ordered : ∀ i ∈ s.delivered, ∀ j ∈ s.delivered,
    s.delivered.idxOf i < s.delivered.idxOf j → s.published.idxOf i < s.published.idxOf j

/-- Until the browser has read the list, messages come into it in the order of their publication;
from then on only those come that were published to the browser. -/
def InTime (s : Feed) : FeedAction → Prop
  | .push i =>
    match s.client with
    | .accepted => (s.history ++ [i]).Sublist s.published
    | .sending _ => False
    | .live buffer => i ∈ s.delivered ∨ i ∈ buffer
    | .gone => True
  | _ => True

/-! ### The invariant -/

/-- A call whose phase meets the condition. -/
def At (calls : List CallPhase) (p : CallPhase → Bool) (i : Nat) : Prop :=
  ∃ phase, calls[i]? = some phase ∧ p phase = true

theorem not_at {calls : List CallPhase} {p : CallPhase → Bool} {i : Nat} {phase : CallPhase}
    (h : calls[i]? = some phase) (hp : p phase = false) : ¬ At calls p i := by
  rintro ⟨other, hother, hmeets⟩
  rw [h, Option.some.injEq] at hother
  rw [← hother, hp] at hmeets
  cases hmeets

theorem at_append {calls : List CallPhase} {p : CallPhase → Bool} (hp : p .called = false)
    (i : Nat) : At (calls ++ [.called]) p i ↔ At calls p i := by
  unfold At
  constructor
  · rintro ⟨phase, hphase, hmeets⟩
    rw [List.getElem?_append] at hphase
    split at hphase
    · exact ⟨phase, hphase, hmeets⟩
    · rw [List.getElem?_singleton, Option.ite_none_right_eq_some, Option.some.injEq] at hphase
      rw [← hphase.2, hp] at hmeets
      cases hmeets
  · rintro ⟨phase, hphase, hmeets⟩
    refine ⟨phase, ?_, hmeets⟩
    rw [List.getElem?_append_left (List.getElem?_eq_some_iff.mp hphase).1, hphase]

theorem at_set {calls : List CallPhase} {p : CallPhase → Bool} {i : Nat} {before after : CallPhase}
    (h : calls[i]? = some before) (j : Nat) :
    At (calls.set i after) p j ↔ j = i ∧ p after = true ∨ j ≠ i ∧ At calls p j := by
  have hlt := (List.getElem?_eq_some_iff.mp h).1
  unfold At
  by_cases hj : j = i
  · subst hj
    simp [List.getElem?_set_self hlt]
  · simp [List.getElem?_set_ne (Ne.symm hj), hj]

/-- The list and the publications follow the calls; what is in the list has been delivered or is
pending; and deliveries, with what is pending, follow the publications. -/
structure Steady (historyMax : Nat) (s : Feed) : Prop where
  few : s.calls.length ≤ historyMax
  published_nodup : s.published.Nodup
  published : ∀ i, i ∈ s.published ↔ At s.calls (· ≠ .called) i
  history_nodup : s.history.Nodup
  history : ∀ i, i ∈ s.history ↔ At s.calls CallPhase.isPushed i
  waits : s.client ≠ .gone → ∀ i ∈ s.history, i ∈ s.delivered ∨ i ∈ s.pending
  ordered : (s.delivered ++ s.pending).Sublist s.published
  undelivered : s.client = .accepted → s.delivered = []

section Step

variable {historyMax : Nat} {s s' : Feed}

theorem noGap_of_steady (h : Steady historyMax s) : NoGap s := by
  have hwaits (hclient : s.client ≠ .gone) (i : Nat) (hreturned : s.calls[i]? = some .returned) :
      i ∈ s.delivered ∨ i ∈ s.pending :=
    h.waits hclient i ((h.history i).mpr ⟨_, hreturned, rfl⟩)
  refine ⟨hwaits, fun hlive i hreturned ↦ ?_, fun i hi j hj ↦ ?_⟩
  · have hclient : s.client ≠ .gone := by
      rw [hlive]
      intro heq
      cases heq
    rcases hwaits hclient i hreturned with hdelivered | hpending
    · exact hdelivered
    · simp [Feed.pending, hlive] at hpending
  · have hsub := (List.sublist_append_left s.delivered s.pending).trans h.ordered
    exact idxOf_lt_of_sublist hsub h.published_nodup hi hj

theorem at_iff_of_set {calls : List CallPhase} (p : CallPhase → Bool) {i : Nat}
    {before : CallPhase} (after : CallPhase) (h : calls[i]? = some before)
    (hsame : p before = p after) (j : Nat) : At (calls.set i after) p j ↔ At calls p j := by
  rw [at_set h]
  by_cases hj : j = i
  · subst hj
    simp [At, h, hsame]
  · simp [hj]

theorem Steady.call (h : Steady historyMax s) (hfew : s.calls.length < historyMax) :
    Steady historyMax { s with calls := s.calls ++ [.called] } where
  few := by
    rw [List.length_append]
    exact hfew
  published_nodup := h.published_nodup
  published i := (h.published i).trans (at_append rfl i).symm
  history_nodup := h.history_nodup
  history i := (h.history i).trans (at_append rfl i).symm
  waits := h.waits
  ordered := h.ordered
  undelivered := h.undelivered

/-- The subscription gets a message behind those that it has got. -/
theorem pending_receive (s : Feed) (i : Nat) (published : List Nat) :
    ({ s with published := published, client := Feed.receive s.client i } : Feed).pending =
      s.pending ∨
    ({ s with published := published, client := Feed.receive s.client i } : Feed).pending =
      s.pending ++ [i] := by
  unfold Feed.receive Feed.pending
  cases s.client with
  | live buffer => exact .inr rfl
  | _ => exact .inl rfl

theorem receive_eq {client : Client} {i : Nat} :
    (Feed.receive client i = .gone ↔ client = .gone) ∧
      (Feed.receive client i = .accepted ↔ client = .accepted) := by
  cases client <;> simp [Feed.receive]

theorem Steady.publish (h : Steady historyMax s) {i : Nat}
    (hstep : (feed historyMax).step s (.publish i) = some s') : Steady historyMax s' := by
  obtain ⟨hcalled, rfl⟩ := System.guarded_eq_some hstep
  have hnew : i ∉ s.published := fun hi ↦ not_at hcalled rfl ((h.published i).mp hi)
  constructor
  · simpa using h.few
  · rw [← List.concat_eq_append]
    exact h.published_nodup.concat hnew
  · intro j
    rw [at_set hcalled, List.mem_append, List.mem_singleton, h.published]
    by_cases hj : j = i <;> simp [hj]
  · exact h.history_nodup
  · intro j
    exact (h.history j).trans (at_iff_of_set _ .published hcalled rfl j).symm
  · intro hclient j hj
    have hclient : s.client ≠ .gone := fun hgone ↦ hclient (receive_eq.1.mpr hgone)
    refine (h.waits hclient j hj).imp id fun hpending ↦ ?_
    rcases pending_receive s i (s.published ++ [i]) with heq | heq
    · exact heq ▸ hpending
    · exact heq ▸ List.mem_append_left _ hpending
  · rcases pending_receive s i (s.published ++ [i]) with heq | heq
    · exact (heq ▸ h.ordered.trans (List.sublist_append_left _ _))
    · have hboth := h.ordered.append (List.Sublist.refl [i])
      rw [List.append_assoc] at hboth
      exact heq ▸ hboth
  · exact fun hclient ↦ h.undelivered (receive_eq.2.mp hclient)

theorem Steady.push (h : Steady historyMax s) {i : Nat} (htime : InTime s (.push i))
    (hstep : (feed historyMax).step s (.push i) = some s') : Steady historyMax s' := by
  obtain ⟨hpublished, rfl⟩ := System.guarded_eq_some hstep
  have hnew : i ∉ s.history := fun hi ↦ not_at hpublished rfl ((h.history i).mp hi)
  have hwaits (hclient : s.client ≠ .gone) (j : Nat) (hj : j ∈ s.history ++ [i]) :
      j ∈ s.delivered ∨
        j ∈ ({ s with history := s.history ++ [i], calls := s.calls.set i .pushed } :
          Feed).pending := by
    rw [List.mem_append, List.mem_singleton] at hj
    unfold InTime at htime
    have hold := h.waits hclient
    unfold Feed.pending at hold ⊢
    cases hphase : s.client with
    | accepted =>
      simp only [hphase] at hold ⊢
      rcases hj with hj | rfl
      · exact (hold j hj).imp id (List.mem_append_left _)
      · exact .inr (List.mem_append_right _ (List.mem_singleton.mpr rfl))
    | sending rest =>
      simp only [hphase] at htime
    | live buffer =>
      simp only [hphase] at hold htime ⊢
      rcases hj with hj | rfl
      · exact hold j hj
      · exact htime
    | gone => exact absurd hphase hclient
  constructor
  · simpa using h.few
  · exact h.published_nodup
  · intro j
    exact (h.published j).trans (at_iff_of_set _ .pushed hpublished rfl j).symm
  · rw [← List.concat_eq_append]
    exact h.history_nodup.concat hnew
  · intro j
    rw [at_set hpublished, List.mem_append, List.mem_singleton, h.history]
    by_cases hj : j = i <;> simp [hj, CallPhase.isPushed]
  · exact hwaits
  · have hold := h.ordered
    unfold InTime at htime
    unfold Feed.pending at hold ⊢
    cases hphase : s.client with
    | accepted =>
      simp only [hphase] at htime ⊢
      rw [h.undelivered hphase]
      exact htime
    | sending rest => simpa only [hphase] using hold
    | live buffer => simpa only [hphase] using hold
    | gone => simpa only [hphase] using hold
  · exact h.undelivered

/-- With fewer messages than `HISTORY_MAX` the list is not trimmed. -/
theorem Steady.trim (h : Steady historyMax s) {i : Nat}
    (hstep : (feed historyMax).step s (.trim i) = some s') : Steady historyMax s' := by
  obtain ⟨hpushed, rfl⟩ := System.guarded_eq_some hstep
  have hlength : s.history.length ≤ historyMax := by
    have hsub : s.history ⊆ List.range s.calls.length := by
      intro j hj
      obtain ⟨phase, hphase, -⟩ := (h.history j).mp hj
      exact List.mem_range.mpr (List.getElem?_eq_some_iff.mp hphase).1
    have hle := (List.subperm_of_subset h.history_nodup hsub).length_le
    rw [List.length_range] at hle
    exact hle.trans h.few
  rw [Nat.sub_eq_zero_of_le hlength, List.drop_zero]
  exact ⟨by simpa using h.few, h.published_nodup,
    fun j ↦ (h.published j).trans (at_iff_of_set _ .trimmed hpushed rfl j).symm, h.history_nodup,
    fun j ↦ (h.history j).trans (at_iff_of_set _ .trimmed hpushed rfl j).symm, h.waits, h.ordered,
    h.undelivered⟩

theorem Steady.expire (h : Steady historyMax s) {i : Nat}
    (hstep : (feed historyMax).step s (.expire i) = some s') : Steady historyMax s' := by
  obtain ⟨htrimmed, rfl⟩ := System.guarded_eq_some hstep
  exact ⟨by simpa using h.few, h.published_nodup,
    fun j ↦ (h.published j).trans (at_iff_of_set _ .returned htrimmed rfl j).symm, h.history_nodup,
    fun j ↦ (h.history j).trans (at_iff_of_set _ .returned htrimmed rfl j).symm, h.waits, h.ordered,
    h.undelivered⟩

/-- A step of the browser's handler: what it had to send it has sent or has still to send. -/
theorem Steady.browse (h : Steady historyMax s) {client : Client} {delivered : List Nat}
    (haccepted : client ≠ .accepted)
    (hwaits : client ≠ .gone → s.client ≠ .gone ∧
      delivered ++ ({ s with client := client, delivered := delivered } : Feed).pending =
        s.delivered ++ s.pending)
    (hordered : (delivered ++
      ({ s with client := client, delivered := delivered } : Feed).pending).Sublist
        (s.delivered ++ s.pending)) :
    Steady historyMax { s with client := client, delivered := delivered } := by
  refine ⟨h.few, h.published_nodup, h.published, h.history_nodup, h.history, ?_,
    hordered.trans h.ordered, fun hclient ↦ absurd hclient haccepted⟩
  intro hclient j hj
  obtain ⟨hbefore, heq⟩ := hwaits hclient
  rw [← List.mem_append, heq, List.mem_append]
  exact h.waits hbefore j hj

theorem Steady.browse_same (h : Steady historyMax s) {client : Client} {delivered : List Nat}
    (haccepted : client ≠ .accepted) (hstays : s.client ≠ .gone)
    (hsame : delivered ++ ({ s with client := client, delivered := delivered } : Feed).pending =
      s.delivered ++ s.pending) :
    Steady historyMax { s with client := client, delivered := delivered } :=
  h.browse haccepted (fun _ ↦ ⟨hstays, hsame⟩) (hsame ▸ List.Sublist.refl _)

theorem Steady.disconnect (h : Steady historyMax s) :
    Steady historyMax { s with client := .gone } := by
  refine h.browse (by simp) (fun hclient ↦ absurd rfl hclient) ?_
  exact (List.append_nil s.delivered).symm ▸ List.sublist_append_left s.delivered s.pending

/-- One step. -/
theorem Steady.step (h : Steady historyMax s) {a : FeedAction} (htime : InTime s a)
    (hstep : (feed historyMax).step s a = some s') : Steady historyMax s' := by
  cases a with
  | call =>
    obtain ⟨hfew, rfl⟩ := System.guarded_eq_some hstep
    exact h.call hfew
  | publish i => exact h.publish hstep
  | push i => exact h.push htime hstep
  | trim i => exact h.trim hstep
  | expire i => exact h.expire hstep
  | read =>
    simp only [feed] at hstep
    split at hstep
    · next hclient =>
      cases hstep
      exact h.browse_same (by simp) (by simp [hclient]) (by simp [Feed.pending, hclient])
    · cases hstep
  | send =>
    simp only [feed] at hstep
    split at hstep
    · next i rest hclient =>
      cases hstep
      exact h.browse_same (by simp) (by simp [hclient]) (by simp [Feed.pending, hclient])
    · cases hstep
  | subscribe =>
    simp only [feed] at hstep
    split at hstep
    · next hclient =>
      cases hstep
      exact h.browse_same (by simp) (by simp [hclient]) (by simp [Feed.pending, hclient])
    · cases hstep
  | forward =>
    simp only [feed] at hstep
    split at hstep
    · next i buffer hclient =>
      cases hstep
      exact h.browse_same (by simp) (by simp [hclient]) (by simp [Feed.pending, hclient])
    · cases hstep
  | disconnect =>
    cases hstep
    exact h.disconnect

end Step

/-- What waits for a browser that stays is delivered by the handler's own steps. -/
theorem runWhen_forward (historyMax : Nat) {s : Feed} {buffer : List Nat}
    (h : s.client = .live buffer) :
    (feed historyMax).runWhen System.always s (List.replicate buffer.length .forward) =
      some { s with client := .live [], delivered := s.delivered ++ buffer } := by
  induction buffer generalizing s with
  | nil =>
    obtain ⟨calls, published, history, client, delivered⟩ := s
    cases h
    simp [System.runWhen]
  | cons i buffer ih =>
    have hstep : (feed historyMax).step s .forward =
        some { s with client := .live buffer, delivered := s.delivered ++ [i] } := by
      simp [feed, h]
    have hok : System.always s FeedAction.forward := trivial
    rw [List.length_cons, List.replicate_succ, System.runWhen, if_pos hok, hstep,
      Option.bind_some, ih rfl]
    simp

/-- In the runs in which messages come into the list in time, the browser misses none of them, and
gets them in order. -/
theorem noGap_of_inTime (historyMax : Nat) {s : Feed}
    (h : (feed historyMax).ReachWhen InTime s) : NoGap s := by
  refine noGap_of_steady (h.invariant (P := Steady historyMax) ?_ ?_)
  · rintro t ⟨hcalls, hpublished, hhistory, hclient, hdelivered⟩
    constructor <;> simp [hcalls, hpublished, hhistory, hclient, hdelivered, At, Feed.pending]
  · exact fun t a t' ht htime hstep ↦ ht.step htime hstep

/-- The session before its first message. -/
def silent : Feed := ⟨[], [], [], .accepted, []⟩

instance : (s : Feed) → (a : FeedAction) → Decidable (InTime s a)
  | ⟨_, published, history, .accepted, _⟩, .push i =>
    inferInstanceAs (Decidable ((history ++ [i]).Sublist published))
  | ⟨_, _, _, .sending _, _⟩, .push _ => .isFalse id
  | ⟨_, _, _, .live buffer, delivered⟩, .push i =>
    inferInstanceAs (Decidable (i ∈ delivered ∨ i ∈ buffer))
  | ⟨_, _, _, .gone, _⟩, .push _ => .isTrue trivial
  | _, .call | _, .publish _ | _, .trim _ | _, .expire _ | _, .read | _, .send | _, .subscribe
  | _, .forward | _, .disconnect => .isTrue trivial

/-- A message before the list is read, and one after the subscription. -/
theorem noGap_twoMessages :
    ∃ s, (feed 2000).ReachWhen InTime s ∧ s.delivered = [0, 1] ∧ NoGap s := by
  have hrun := System.exists_reachWhen (feed 2000) InTime (fun s ↦ s.delivered = [0, 1])
    [.call, .publish 0, .push 0, .trim 0, .expire 0, .read, .send, .subscribe, .call, .publish 1,
      .push 1, .forward] (s := silent) ⟨rfl, rfl, rfl, rfl, rfl⟩ (by decide)
  obtain ⟨s, hreach, hdelivered⟩ := hrun
  exact ⟨s, hreach, hdelivered, noGap_of_inTime 2000 hreach⟩

/-- The message is published before the browser has subscribed, and comes into the list after the
browser has read it. -/
theorem not_noGap :
    ¬ ∀ (historyMax : Nat) (s : Feed), (feed historyMax).Reach s → NoGap s := by
  intro h
  have hrun := System.exists_reachWhen (feed 2000) System.always
    (fun s ↦ s = ⟨[.returned], [0], [0], .live [], []⟩)
    [.call, .publish 0, .read, .push 0, .trim 0, .expire 0, .subscribe] (s := silent)
    ⟨rfl, rfl, rfl, rfl, rfl⟩ (by decide)
  obtain ⟨s, hreach, rfl⟩ := hrun
  have hdelivered := (h 2000 _ hreach).delivered rfl 0 rfl
  cases hdelivered

end GithubAgent.Session.History
