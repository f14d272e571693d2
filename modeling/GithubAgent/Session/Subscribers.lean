import GithubAgent.Base.Transition
import GithubAgent.Session.Records

/-!
# The subscriber count

`websocket_session` of `src/services/session_proxy/main.py` counts the browsers of a session in a
Redis key: a handler increments it before it sends the history and decrements it at the end of the
live phase, in a `finally` that the history is not under. The key has an expiry, which only the
first subscriber sets, and which `set_ttl` changes with the session's.
-/

namespace GithubAgent.Session

open GithubAgent.Base

/-- Where a handler stands: before the increment, between the increment and the `try`, inside the
`try`, or at its end. -/
inductive HandlerPhase where
  | accepted
  | sending
  | live
  | gone
  deriving DecidableEq

/-- The handler has passed the increment, and has neither passed the decrement nor exited. -/
def HandlerPhase.counted : HandlerPhase → Bool
  | .sending | .live => true
  | _ => false

/-- The keys, the clock, and the handlers of one token in the order in which they came. -/
structure Watched where
  records : Records
  now : Nat
  handlers : List HandlerPhase

/-- What handlers, the stores and the clock do. -/
inductive WatchAction where
  | connect
  | leave (i : Nat)
  | increment (i : Nat) (historySent : Bool)
  | fail (i : Nat)
  | historySent (i : Nat)
  | disconnect (i : Nat)
  | setTtl (ttlSeconds : Nat)
  | deleteSession
  | tick (milliseconds : Nat)

namespace Watched

/-- The handlers that should be counted. -/
def subscribed (s : Watched) : Nat := s.handlers.countP (·.counted)

/-- A handler goes from one phase to another. -/
def move (s : Watched) (i : Nat) (before after : HandlerPhase) (records : Records) :
    Option Watched :=
  if s.handlers[i]? = some before then
    some { s with records := records, handlers := s.handlers.set i after }
  else none

end Watched

/-- The handlers of a token: only the branches before the increment and after the `try` end
without an effect on the count (`session_proxy/main.py:473-665`). -/
def watch (sessionTtl : Nat) (token : String) : System Watched WatchAction where
  init s := s.records = .empty ∧ s.handlers = []
  step s
    | .connect => some { s with handlers := s.handlers ++ [.accepted] }
    | .leave i => s.move i .accepted .gone s.records
    | .increment i historySent =>
      s.move i .accepted (if historySent then .live else .sending)
        (s.records.incrementSubscribers s.now sessionTtl token)
    | .fail i => s.move i .sending .gone s.records
    | .historySent i => s.move i .sending .live s.records
    | .disconnect i => s.move i .live .gone (s.records.decrementSubscribers s.now token)
    | .setTtl ttlSeconds => some { s with records := s.records.setTtl s.now token ttlSeconds }
    | .deleteSession => some { s with records := s.records.deleteSession token }
    | .tick milliseconds => some { s with now := s.now + milliseconds }

/-- The stored count, absent counting as zero, is the number of subscribed handlers; it is not
negative, and `has_subscribers` says whether there is one. -/
structure ExactCount (token : String) (s : Watched) : Prop where
  count : (s.records.subscribers.get s.now token).getD 0 = s.subscribed
  nonneg : 0 ≤ (s.records.subscribers.get s.now token).getD 0
  has : s.records.hasSubscribers s.now token = true ↔ ∃ phase ∈ s.handlers, phase.counted = true

/-- No handler fails while it sends the history, and the key does not go away under a subscribed
one: it does not expire, and no deletion and no expiry of zero seconds meets it. -/
def CountStays (sessionTtl : Nat) (token : String) (s : Watched) : WatchAction → Prop
  | .increment _ _ => s.subscribed = 0 → sessionTtl ≠ 0
  | .fail _ => False
  | .setTtl ttlSeconds => s.subscribed ≠ 0 → ttlSeconds ≠ 0
  | .deleteSession => s.subscribed = 0
  | .tick milliseconds =>
    s.subscribed ≠ 0 → s.records.subscribers.has (s.now + milliseconds) token = true
  | _ => True

section Count

variable {token : String} {s s' : Watched} {r : Records} {now : Nat}

/-- The stored count, absent counting as zero. -/
def Records.count (r : Records) (now : Nat) (token : String) : Int :=
  (r.subscribers.get now token).getD 0

/-- Everything follows from the count itself. -/
theorem exactCount_iff : ExactCount token s ↔ s.records.count s.now token = s.subscribed := by
  constructor
  · exact ExactCount.count
  · intro h
    have hcount : (s.records.subscribers.get s.now token).getD 0 = s.subscribed := h
    refine ⟨h, hcount ▸ Int.natCast_nonneg _, ?_⟩
    have hhas : s.records.hasSubscribers s.now token = true ↔
        0 < (s.records.subscribers.get s.now token).getD 0 := by
      cases hget : s.records.subscribers.get s.now token <;> simp [Records.hasSubscribers, hget]
    rw [hhas, hcount, Int.natCast_pos]
    exact List.countP_pos_iff

/-- The first subscriber starts the key with the given expiry. -/
theorem count_incrementSubscribers (sessionTtl : Nat) :
    (r.incrementSubscribers now sessionTtl token).count now token =
      if r.count now token = 0 ∧ sessionTtl = 0 then 0 else r.count now token + 1 := by
  simp only [Records.incrementSubscribers, Records.count, Keys.get_modify_self,
    Option.some.injEq, Keys.expire_modify]
  by_cases hone : (r.subscribers.get now token).getD 0 = 0
  · rcases Nat.eq_zero_or_pos sessionTtl with hzero | hpos
    · simp [hone, hzero]
    · simp [hone, hpos, hpos.ne']
  · have hne : ¬ (r.subscribers.get now token).getD 0 + 1 = 1 := by omega
    simp [hone, hne]

theorem count_decrementSubscribers (h : 0 < r.count now token) :
    (r.decrementSubscribers now token).count now token = r.count now token - 1 := by
  simp only [Records.decrementSubscribers, Records.count, Keys.get_modify_self,
    Option.any_some, decide_eq_true_eq] at h ⊢
  split
  · next hle =>
    simp
    omega
  · simp

/-- A new expiry keeps the count, unless it is one of zero seconds. -/
theorem count_setTtl (r : Records) (now : Nat) (token : String) (ttlSeconds : Nat) :
    (r.setTtl now token ttlSeconds).count now token =
      if ttlSeconds ≠ 0 then r.count now token else 0 := by
  simp only [Records.setTtl, Records.count]
  cases hget : r.subscribers.get now token with
  | none =>
    rw [Keys.expire_of_none hget, hget]
    simp
  | some count =>
    rw [Keys.expire_of_some hget, Keys.get_setex_self]
    by_cases hzero : ttlSeconds = 0
    · simp [hzero]
    · have hlater : now < now + 1000 * ttlSeconds := by omega
      simp [hzero, hlater]

/-- Time keeps the count while the key exists. -/
theorem count_later (r : Records) (token : String) {now later : Nat} (hle : now ≤ later) :
    r.count later token =
      if r.subscribers.has later token = true then r.count now token else 0 := by
  unfold Records.count Keys.has
  cases hget : r.subscribers.get later token with
  | none => simp
  | some count => simp [Keys.get_eq_some_of_le hle hget]

/-- A count that is kept or goes is right where it is kept, or is of nobody. -/
theorem count_stays_iff {kept : Prop} [Decidable kept] {subscribed : Nat} :
    (if kept then (subscribed : Int) else 0) = subscribed ↔ (subscribed ≠ 0 → kept) := by
  split
  · next h => exact iff_of_true rfl fun _ ↦ h
  · next h =>
    rw [eq_comm, Int.natCast_eq_zero]
    exact ⟨fun hzero hne ↦ absurd hzero hne, fun hkept ↦ by_contra fun hne ↦ h (hkept hne)⟩

/-- Moving a handler changes the number that should be counted by its own share. -/
theorem subscribed_move {i : Nat} {before after : HandlerPhase} {records : Records}
    (h : s.move i before after records = some s') :
    s'.subscribed + (if before.counted then 1 else 0) =
      s.subscribed + (if after.counted then 1 else 0) ∧
      s'.records = records ∧ s'.now = s.now ∧ (before.counted = true → 0 < s.subscribed) := by
  unfold Watched.move at h
  obtain ⟨hat, rfl⟩ := System.guarded_eq_some h
  obtain ⟨hlt, hbefore⟩ := List.getElem?_eq_some_iff.mp hat
  have hpos : before.counted = true → 0 < s.subscribed := fun hcounted ↦
    List.countP_pos_iff.mpr ⟨before, List.mem_of_getElem? hat, hcounted⟩
  refine ⟨?_, rfl, rfl, hpos⟩
  have hset := List.countP_set (p := fun phase : HandlerPhase ↦ phase.counted) (a := after) hlt
  simp only [Watched.subscribed] at hpos ⊢
  rw [hset, hbefore]
  split
  · next hcounted =>
    have hpos := hpos hcounted
    omega
  · omega

/-- One step from an exact count: it stays exact when the condition is met, and only then. -/
theorem exactCount_step_iff {sessionTtl : Nat} {a : WatchAction} (h : ExactCount token s)
    (hstep : (watch sessionTtl token).step s a = some s') :
    ExactCount token s' ↔ CountStays sessionTtl token s a := by
  rw [exactCount_iff] at h ⊢
  cases a with
  | connect =>
    cases hstep
    refine iff_of_true ?_ trivial
    simpa [Watched.subscribed, HandlerPhase.counted] using h
  | leave i =>
    obtain ⟨hsub, hrecords, hnow, -⟩ := subscribed_move hstep
    refine iff_of_true ?_ trivial
    rw [hrecords, hnow, h]
    simp [HandlerPhase.counted] at hsub
    omega
  | increment i historySent =>
    obtain ⟨hsub, hrecords, hnow, -⟩ := subscribed_move hstep
    have hnew : s'.subscribed = s.subscribed + 1 := by
      cases historySent <;> simpa [HandlerPhase.counted] using hsub
    rw [hrecords, hnow, count_incrementSubscribers, h, hnew]
    simp only [CountStays, Int.natCast_eq_zero]
    by_cases hzero : s.subscribed = 0
    · by_cases httl : sessionTtl = 0 <;> simp [hzero, httl]
    · simp [hzero]
  | fail i =>
    obtain ⟨hsub, hrecords, hnow, -⟩ := subscribed_move hstep
    refine iff_of_false ?_ not_false
    rw [hrecords, hnow, h]
    simp [HandlerPhase.counted] at hsub
    omega
  | historySent i =>
    obtain ⟨hsub, hrecords, hnow, -⟩ := subscribed_move hstep
    refine iff_of_true ?_ trivial
    rw [hrecords, hnow, h]
    simp [HandlerPhase.counted] at hsub
    omega
  | disconnect i =>
    obtain ⟨hsub, hrecords, hnow, hpos⟩ := subscribed_move hstep
    refine iff_of_true ?_ trivial
    have hcount : 0 < s.records.count s.now token := by
      rw [h]
      exact Int.natCast_pos.mpr (hpos rfl)
    rw [hrecords, hnow, count_decrementSubscribers hcount, h]
    simp [HandlerPhase.counted] at hsub
    omega
  | setTtl ttlSeconds =>
    cases hstep
    show (s.records.setTtl s.now token ttlSeconds).count s.now token = (s.subscribed : Int) ↔
      (s.subscribed ≠ 0 → ttlSeconds ≠ 0)
    rw [count_setTtl, h]
    exact count_stays_iff
  | deleteSession =>
    cases hstep
    have hdel : (s.records.deleteSession token).count s.now token = 0 := by
      simp [Records.deleteSession, Records.count]
    simp only [CountStays, hdel]
    exact eq_comm.trans Int.natCast_eq_zero
  | tick milliseconds =>
    cases hstep
    show s.records.count (s.now + milliseconds) token = (s.subscribed : Int) ↔
      (s.subscribed ≠ 0 → s.records.subscribers.has (s.now + milliseconds) token = true)
    rw [count_later s.records token (Nat.le_add_right s.now milliseconds), h]
    exact count_stays_iff

end Count

/-- The count stays exact in the runs that meet the condition, and a step that does not meet it
makes it wrong. -/
theorem exactCount_of_countStays (sessionTtl : Nat) (token : String) {s : Watched}
    (h : (watch sessionTtl token).ReachWhen (CountStays sessionTtl token) s) :
    ExactCount token s ∧ ∀ a s', (watch sessionTtl token).step s a = some s' →
      (ExactCount token s' ↔ CountStays sessionTtl token s a) := by
  have hexact : ExactCount token s := by
    refine h.invariant (P := ExactCount token) ?_ ?_
    · rintro t ⟨hrecords, hhandlers⟩
      rw [exactCount_iff, hrecords]
      simp [Records.count, Records.empty, Watched.subscribed, hhandlers]
    · exact fun t a t' ht hok hstep ↦ (exactCount_step_iff ht hstep).mpr hok
  exact ⟨hexact, fun a s' hstep ↦ exactCount_step_iff hexact hstep⟩

/-- Two browsers come, one with its history sent already, and one goes. -/
theorem exactCount_twoBrowsers :
    ∃ s, (watch 2592000 "t0").ReachWhen (CountStays 2592000 "t0") s ∧
      s.handlers = [.gone, .live] ∧ ExactCount "t0" s := by
  have hinit : (watch 2592000 "t0").ReachWhen (CountStays 2592000 "t0") ⟨.empty, 0, []⟩ :=
    .init ⟨rfl, rfl⟩
  have hfst := (hinit.step WatchAction.connect trivial rfl).step
    (WatchAction.increment 0 true) (fun _ ↦ by decide) rfl
  have hsnd := (hfst.step WatchAction.connect trivial rfl).step
    (WatchAction.increment 1 false) (fun _ ↦ by decide) rfl
  have hlast := (hsnd.step (WatchAction.disconnect 0) trivial rfl).step
    (WatchAction.historySent 1) trivial rfl
  exact ⟨_, hlast, rfl, (exactCount_of_countStays 2592000 "t0" hlast).1⟩

/-- The first browser goes while its history is sent: it stays counted. -/
theorem not_exactCount :
    ¬ ∀ (sessionTtl : Nat) (token : String) (s : Watched),
      (watch sessionTtl token).Reach s → ExactCount token s := by
  intro h
  have hinit : (watch 2592000 "t0").Reach ⟨.empty, 0, []⟩ := .init ⟨rfl, rfl⟩
  have hrun := ((hinit.step WatchAction.connect trivial rfl).step
    (WatchAction.increment 0 false) trivial rfl).step (WatchAction.fail 0) trivial rfl
  exact absurd (h _ _ _ hrun).count (by decide)

end GithubAgent.Session
