import GithubAgent.Base.AsyncLock
import GithubAgent.Base.Transition
import GithubAgent.Base.Window
import Mathlib.Algebra.Order.Ring.Rat
import Mathlib.Data.List.TakeWhile

/-!
# The in-memory rate limiter

`InMemoryRateLimiterBackend.acquire` of `src/shared/rate_limiter.py` for one key: the deque of
the grant times and the lock of the key, and any number of tasks. The event loop runs a task from
one `await` to the next; here the tasks are interleaved at every operation on the lock as well, so
a task may find the lock held. Seconds are exact rationals.
-/

namespace GithubAgent.RateLimit

open GithubAgent.Base

/-- The arguments of the calls for the key, and how much too early the event loop may end a
sleep. -/
structure Limit where
  maxRequests : Nat
  timeWindow : ℚ
  resolution : ℚ

/-- How a call of `acquire` ends. -/
inductive Outcome where
  | granted
  | timeout
  | cancelled
  | indexError
  | runtimeError
  deriving DecidableEq

/-- Which `lock.acquire()` it is: that of `async with`, or that of the `finally`, after a sleep
that may have been cancelled (`rate_limiter.py:53`, `:80-82`). -/
inductive Entry where
  | first
  | again (cancelled : Bool)
  deriving DecidableEq

/-- Where a task stands. -/
inductive Pc where
  | idle (last : Option Outcome)
  | acquiring (entry : Entry)
  | waiting (entry : Entry)
  | inside
  | pausing (waitTime : ℚ)
  | sleeping (wakeAt : ℚ)
  | leaving (outcome : Outcome)
  deriving DecidableEq

/-- The task is in the body of `async with`, before a `lock.release()`. -/
def Pc.critical : Pc → Bool
  | .inside | .pausing _ | .leaving _ => true
  | .idle _ | .acquiring _ | .waiting _ | .sleeping _ => false

/-- The locals of a call of `acquire`. -/
structure Task where
  pc : Pc
  startTime : ℚ
  timeout : Option ℚ

/-- The entries of the key in `_locks` and `_requests`, the grant times so far, and the tasks. -/
structure Memory (C : Type) where
  now : ℚ
  lock : Option (AsyncLock C)
  requests : Option (List ℚ)
  grants : List ℚ
  tasks : C → Task

section Model

variable {C : Type}

/-- `_get_lock` (`rate_limiter.py:34-38`). -/
def Memory.getLock (s : Memory C) : AsyncLock C := s.lock.getD .new

/-- `_get_requests` (`rate_limiter.py:40-44`). -/
def Memory.getRequests (s : Memory C) : List ℚ := s.requests.getD []

/-- `elapsed >= timeout` (`rate_limiter.py:68-71`). -/
def Task.timedOut (t : Task) (now : ℚ) : Bool :=
  match t.timeout with
  | none => false
  | some timeout => timeout ≤ now - t.startTime

/-- The requests that have not expired (`rate_limiter.py:58-60`). -/
def dropExpired (cfg : Limit) (now : ℚ) (requests : List ℚ) : List ℚ :=
  requests.dropWhile fun r ↦ r ≤ now - cfg.timeWindow

/-- One turn of the loop up to where the lock is released (`rate_limiter.py:54-78`); reading
`requests[0]` of an empty deque raises. -/
def turn (cfg : Limit) (now : ℚ) (requests : List ℚ) (t : Task) : List ℚ × Pc :=
  if (dropExpired cfg now requests).length < cfg.maxRequests then
    (dropExpired cfg now requests ++ [now], .leaving .granted)
  else if t.timedOut now then (dropExpired cfg now requests, .leaving .timeout)
  else
    match dropExpired cfg now requests with
    | [] => ([], .leaving .indexError)
    | oldest :: rest => (oldest :: rest, .pausing ((oldest + cfg.timeWindow) - now))

/-- Where a task goes on once it has the lock: a sleep that was cancelled raises. -/
def Entry.entered : Entry → Pc
  | .first | .again false => .inside
  | .again true => .leaving .cancelled

variable [DecidableEq C]

/-- The locals of one task change. -/
def Memory.setPc (s : Memory C) (c : C) (pc : Pc) : Memory C :=
  { s with tasks := Function.update s.tasks c { s.tasks c with pc := pc } }

/-- A task calls `acquire`, runs to its next stop or is cancelled, or time passes. -/
inductive Event (C : Type) where
  | call (c : C) (timeout : Option ℚ)
  | run (c : C)
  | cancel (c : C)
  | tick (seconds : ℚ)

/-- What a task does when it runs; a second `release` of a lock raises once more on the way out of
`async with`. -/
def Memory.run (cfg : Limit) (s : Memory C) (c : C) : Option (Memory C) :=
  match (s.tasks c).pc with
  | .idle _ => none
  | .acquiring entry =>
    match s.getLock.acquire c with
    | (lock, true) => some { s.setPc c entry.entered with lock := some lock }
    | (lock, false) => some { s.setPc c (.waiting entry) with lock := some lock }
  | .waiting entry =>
    (s.getLock.resume c).map fun lock ↦ { s.setPc c entry.entered with lock := some lock }
  | .inside =>
    match turn cfg s.now s.getRequests (s.tasks c) with
    | (requests, pc) => some { s.setPc c pc with
        requests := some requests,
        grants := if pc = .leaving .granted then s.grants ++ [s.now] else s.grants }
  | .pausing waitTime =>
    match s.getLock.release with
    | some lock => some { s.setPc c (.sleeping (s.now + waitTime)) with lock := some lock }
    | none => some (s.setPc c (.idle (some .runtimeError)))
  | .sleeping wakeAt =>
    if wakeAt < s.now + cfg.resolution then some (s.setPc c (.acquiring (.again false))) else none
  | .leaving outcome =>
    match s.getLock.release with
    | some lock => some { s.setPc c (.idle (some outcome)) with lock := some lock }
    | none => some (s.setPc c (.idle (some .runtimeError)))

/-- One step. A task is cancelled at its sleep or while `async with` waits. -/
def Memory.step (cfg : Limit) (s : Memory C) : Event C → Option (Memory C)
  | .call c timeout =>
    match (s.tasks c).pc with
    | .idle _ => some { s with
        lock := some s.getLock,
        tasks := Function.update s.tasks c ⟨.acquiring .first, s.now, timeout⟩ }
    | _ => none
  | .run c => s.run cfg c
  | .cancel c =>
    match (s.tasks c).pc with
    | .sleeping _ => some (s.setPc c (.acquiring (.again true)))
    | .waiting .first =>
      some { s.setPc c (.idle (some .cancelled)) with lock := some (s.getLock.cancel c) }
    | _ => none
  | .tick seconds => if 0 ≤ seconds then some { s with now := s.now + seconds } else none

/-- No entry for the key, and no call yet. -/
def Memory.initial (now : ℚ) : Memory C where
  now := now
  lock := none
  requests := none
  grants := []
  tasks := fun _ ↦ ⟨.idle none, now, none⟩

/-- The tasks that use the key. -/
def inMemory (C : Type) [DecidableEq C] (cfg : Limit) : System (Memory C) (Event C) where
  init := fun s ↦ ∃ now, s = .initial now
  step := Memory.step cfg

/-- The limit is kept, and the lock is held by whoever is inside. Reading an empty deque or
releasing a free lock would have ended a call with an error. -/
structure Limited (cfg : Limit) (s : Memory C) : Prop where
  sorted : s.getRequests.Pairwise (· ≤ ·)
  limit : WithinLimit cfg.maxRequests cfg.timeWindow s.grants
  nonempty : ∀ c, (s.tasks c).pc ≠ .leaving .indexError ∧ (s.tasks c).pc ≠ .idle (some .indexError)
  held : s.getLock.Guards fun c ↦ (s.tasks c).pc.critical = true

end Model

/-! ### One turn of the loop -/

section Turn

variable {cfg : Limit} {now : ℚ} {requests old grants : List ℚ} {t : Task}

/-- An ordered deque loses exactly the requests that have expired. -/
theorem dropExpired_split (cfg : Limit) (now : ℚ) (requests : List ℚ) :
    ∃ expired, requests = expired ++ dropExpired cfg now requests ∧
      ∀ r ∈ expired, r + cfg.timeWindow ≤ now := by
  refine ⟨requests.takeWhile fun r ↦ r ≤ now - cfg.timeWindow,
    (List.takeWhile_append_dropWhile).symm, fun r hr ↦ ?_⟩
  have hle := List.mem_takeWhile_imp (p := fun r ↦ r ≤ now - cfg.timeWindow) hr
  exact le_sub_iff_add_le.mp (of_decide_eq_true hle)

/-- A call has read an empty deque or released a free lock. -/
def Pc.faulty : Pc → Bool
  | .leaving .indexError | .leaving .runtimeError => true
  | .idle (some .indexError) | .idle (some .runtimeError) => true
  | _ => false

/-- What a turn makes of the deque, and where it leaves the task: it never reads an empty deque
if the limit is positive. -/
inductive Turned (cfg : Limit) (now : ℚ) (requests : List ℚ) : List ℚ × Pc → Prop where
  | granted (hroom : (dropExpired cfg now requests).length < cfg.maxRequests) :
      Turned cfg now requests (dropExpired cfg now requests ++ [now], .leaving .granted)
  | full {pc : Pc} (hcritical : pc.critical = true) (hgranted : pc ≠ .leaving .granted)
      (hfault : pc.faulty = false) :
      Turned cfg now requests (dropExpired cfg now requests, pc)

theorem turn_turned (hmax : 1 ≤ cfg.maxRequests) : Turned cfg now requests
    (turn cfg now requests t) := by
  unfold turn
  split
  · next hroom => exact .granted hroom
  · next hfull =>
    split
    · exact .full rfl (by simp) rfl
    · split
      · next hempty =>
        rw [hempty, List.length_nil] at hfull
        omega
      · next oldest rest hrest =>
        rw [← hrest]
        exact .full rfl (by simp) rfl

/-- The deque holds the last grants, in order, and the ones it does not hold have expired. -/
structure Counts (cfg : Limit) (now : ℚ) (requests grants : List ℚ) : Prop where
  sorted : requests.Pairwise (· ≤ ·)
  past : ∀ r ∈ requests, r ≤ now
  expired : ∃ old, grants = old ++ requests ∧ ∀ g ∈ old, g + cfg.timeWindow ≤ now
  limit : WithinLimit cfg.maxRequests cfg.timeWindow grants

theorem Counts.drop (h : Counts cfg now requests grants) :
    Counts cfg now (dropExpired cfg now requests) grants := by
  obtain ⟨expired, hsplit, hexpired⟩ := dropExpired_split cfg now requests
  have hsuffix : dropExpired cfg now requests <:+ requests := ⟨expired, hsplit.symm⟩
  obtain ⟨old, hgrants, hold⟩ := h.expired
  refine ⟨h.sorted.sublist hsuffix.sublist, fun r hr ↦ h.past r (hsuffix.subset hr),
    ⟨old ++ expired, ?_, ?_⟩, h.limit⟩
  · rw [hgrants, List.append_assoc, ← hsplit]
  · intro g hg
    rcases List.mem_append.mp hg with hg | hg
    · exact hold g hg
    · exact hexpired g hg

/-- A deque with room takes the request of this moment. -/
theorem Counts.grant (h : Counts cfg now requests grants)
    (hroom : requests.length < cfg.maxRequests) :
    Counts cfg now (requests ++ [now]) (grants ++ [now]) := by
  obtain ⟨old, rfl, hold⟩ := h.expired
  refine ⟨?_, ?_, ⟨old, by rw [List.append_assoc], hold⟩, h.limit.concat ?_⟩
  · refine List.pairwise_append.mpr ⟨h.sorted, List.pairwise_singleton _ _, fun r hr t ht ↦ ?_⟩
    cases List.mem_singleton.mp ht
    exact h.past r hr
  · intro r hr
    rcases List.mem_append.mp hr with hr | hr
    · exact h.past r hr
    · exact (List.mem_singleton.mp hr).le
  · calc near cfg.timeWindow now (old ++ requests)
        = near cfg.timeWindow now requests := by
          rw [near_append, near_eq_zero hold, Nat.zero_add]
      _ ≤ requests.length := List.countP_le_length
      _ < cfg.maxRequests := hroom

theorem Counts.later {later : ℚ} (h : Counts cfg now requests grants) (hle : now ≤ later) :
    Counts cfg later requests grants := by
  obtain ⟨old, hgrants, hold⟩ := h.expired
  exact ⟨h.sorted, fun r hr ↦ (h.past r hr).trans hle,
    ⟨old, hgrants, fun g hg ↦ (hold g hg).trans hle⟩, h.limit⟩

end Turn

/-! ### The runs -/

section Run

variable {C : Type} {cfg : Limit} {s s' : Memory C} {c : C}

/-- What every step keeps. -/
structure Kept (cfg : Limit) (s : Memory C) : Prop where
  counts : Counts cfg s.now s.getRequests s.grants
  faultless : ∀ c, (s.tasks c).pc.faulty = false
  guards : s.getLock.Guards fun c ↦ (s.tasks c).pc.critical = true

variable [DecidableEq C]

/-- A step of one task that leaves deque and clock. -/
theorem Kept.moved (h : Kept cfg s) {lock : Option (AsyncLock C)} {t : Task}
    (hfault : t.pc.faulty = false)
    (hguards : (lock.getD .new).Guards fun x ↦ (Function.update s.tasks c t x).pc.critical = true) :
    Kept cfg { s with lock := lock, tasks := Function.update s.tasks c t } := by
  refine ⟨h.counts, fun x ↦ ?_, hguards⟩
  by_cases hx : x = c
  · subst hx
    simpa using hfault
  · simpa [Function.update_of_ne hx] using h.faultless x

omit [DecidableEq C] in
theorem Entry.entered_critical (entry : Entry) : entry.entered.critical = true := by
  rcases entry with _ | ⟨_ | _⟩ <;> rfl

omit [DecidableEq C] in
theorem Entry.entered_faulty (entry : Entry) : entry.entered.faulty = false := by
  rcases entry with _ | ⟨_ | _⟩ <;> rfl

/-- A task that gets the free lock enters. -/
theorem Kept.enter (h : Kept cfg s) {lock : AsyncLock C} {entry : Entry}
    (hfree : s.getLock.locked = false) (hheld : lock.locked = true) :
    Kept cfg { s.setPc c entry.entered with lock := some lock } :=
  h.moved entry.entered_faulty (h.guards.enter (x := c) hfree hheld
    (by simpa using entry.entered_critical) fun y hy hcrit ↦ by
      rwa [Function.update_of_ne hy] at hcrit)

/-- A task that is not inside stays outside. -/
theorem Kept.outside (h : Kept cfg s) {lock : Option (AsyncLock C)} {t : Task}
    (hfault : t.pc.faulty = false) (hbefore : (s.tasks c).pc.critical = false)
    (hafter : t.pc.critical = false) (hlock : (lock.getD .new).locked = s.getLock.locked) :
    Kept cfg { s with lock := lock, tasks := Function.update s.tasks c t } := by
  refine h.moved hfault (h.guards.congr hlock fun y ↦ ?_)
  by_cases hy : y = c
  · subst hy
    simp [hbefore, hafter]
  · rw [Function.update_of_ne hy]

/-- A task that is inside can release the lock, and does so. -/
theorem Kept.leave (h : Kept cfg s) (hcritical : (s.tasks c).pc.critical = true) :
    ∃ lock, s.getLock.release = some lock ∧ ∀ t : Task, t.pc.faulty = false →
      t.pc.critical = false →
      Kept cfg { s with lock := some lock, tasks := Function.update s.tasks c t } := by
  obtain ⟨lock, hrelease, hfree⟩ := AsyncLock.release_of_locked (h.guards.held.mpr ⟨c, hcritical⟩)
  refine ⟨lock, hrelease, fun t hfault hout ↦ h.moved hfault ?_⟩
  refine h.guards.leave hcritical hfree ?_ fun y hy hcrit ↦ by
    rwa [Function.update_of_ne hy] at hcrit
  simp [hout]

/-- The task that is inside carries out a turn. -/
theorem Kept.turned (h : Kept cfg s) {requests grants : List ℚ} {pc : Pc}
    (hinside : (s.tasks c).pc.critical = true) (hcritical : pc.critical = true)
    (hfault : pc.faulty = false) (hcounts : Counts cfg s.now requests grants) :
    Kept cfg { s.setPc c pc with requests := some requests, grants := grants } := by
  refine ⟨hcounts, fun x ↦ ?_, h.guards.congr rfl fun x ↦ ?_⟩
  · by_cases hx : x = c
    · subst hx
      simpa [Memory.setPc] using hfault
    · simpa [Memory.setPc, Function.update_of_ne hx] using h.faultless x
  · by_cases hx : x = c
    · subst hx
      simp [Memory.setPc, hinside, hcritical]
    · simp [Memory.setPc, Function.update_of_ne hx]

theorem Kept.run (h : Kept cfg s) (hmax : 1 ≤ cfg.maxRequests) (hs : s.run cfg c = some s') :
    Kept cfg s' := by
  unfold Memory.run at hs
  split at hs
  · cases hs
  · next entry hpc =>
    split at hs
    · next lock hacquire =>
      cases hs
      obtain ⟨hfree, hheld⟩ := AsyncLock.acquire_locked hacquire
      exact h.enter hfree hheld
    · next lock hacquire =>
      cases hs
      exact h.outside rfl (by rw [hpc]; rfl) rfl (AsyncLock.acquire_waits hacquire)
  · next entry hpc =>
    obtain ⟨lock, hresume, rfl⟩ := Option.map_eq_some_iff.mp hs
    obtain ⟨hfree, hheld⟩ := AsyncLock.resume_locked hresume
    exact h.enter hfree hheld
  · next hpc =>
    have hinside : (s.tasks c).pc.critical = true := by rw [hpc]; rfl
    have hturned : Turned cfg s.now s.getRequests (turn cfg s.now s.getRequests (s.tasks c)) :=
      turn_turned hmax
    revert hs hturned
    generalize turn cfg s.now s.getRequests (s.tasks c) = reply
    intro hs hturned
    cases hturned with
    | granted hroom =>
      cases hs
      exact h.turned hinside rfl rfl (by simpa using h.counts.drop.grant hroom)
    | full hcritical hgranted hfault =>
      cases hs
      exact h.turned hinside hcritical hfault (by simpa [hgranted] using h.counts.drop)
  · next waitTime hpc =>
    obtain ⟨lock, hrelease, hleft⟩ := h.leave (c := c) (by rw [hpc]; rfl)
    rw [hrelease] at hs
    cases hs
    exact hleft _ rfl rfl
  · next wakeAt hpc =>
    obtain ⟨-, rfl⟩ := System.guarded_eq_some hs
    exact h.outside rfl (by rw [hpc]; rfl) rfl rfl
  · next outcome hpc =>
    obtain ⟨lock, hrelease, hleft⟩ := h.leave (c := c) (by rw [hpc]; rfl)
    rw [hrelease] at hs
    cases hs
    refine hleft _ ?_ rfl
    have hfault := h.faultless c
    rw [hpc] at hfault
    cases outcome with
    | granted | timeout | cancelled => rfl
    | indexError | runtimeError => cases hfault

theorem Kept.step (h : Kept cfg s) (hmax : 1 ≤ cfg.maxRequests) {e : Event C}
    (hs : s.step cfg e = some s') : Kept cfg s' := by
  cases e with
  | call c timeout =>
    simp only [Memory.step] at hs
    split at hs
    · next last hpc =>
      cases hs
      exact h.outside rfl (by rw [hpc]; rfl) rfl rfl
    · cases hs
  | run c => exact h.run hmax hs
  | cancel c =>
    simp only [Memory.step] at hs
    split at hs
    · next hpc =>
      cases hs
      exact h.outside rfl (by rw [hpc]; rfl) rfl rfl
    · next hpc =>
      cases hs
      exact h.outside rfl (by rw [hpc]; rfl) rfl (AsyncLock.cancel_locked _ _)
    · cases hs
  | tick seconds =>
    obtain ⟨hpos, rfl⟩ := System.guarded_eq_some hs
    exact ⟨h.counts.later (le_add_of_nonneg_right hpos), h.faultless, h.guards⟩

omit [DecidableEq C] in
theorem kept_initial (now : ℚ) : Kept cfg (.initial now : Memory C) :=
  ⟨⟨.nil, nofun, ⟨[], rfl, nofun⟩, withinLimit_nil⟩, fun _ ↦ rfl, AsyncLock.guards_new nofun⟩

end Run

end GithubAgent.RateLimit
