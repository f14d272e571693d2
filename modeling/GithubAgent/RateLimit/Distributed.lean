import GithubAgent.RateLimit.InMemory

/-!
# The distributed rate limiter

`RedisRateLimiterBackend.acquire` of `src/shared/rate_limiter.py` for one key: the sorted set of
the requests, which expires as a whole, and any number of workers. The check (the pipelined
`ZREMRANGEBYSCORE` and `ZCARD`), the insertion (`ZADD`) and the `EXPIRE` are steps of their own,
and the clock is read before each of them is sent. The time of a grant is its score.
-/

namespace GithubAgent.RateLimit.Distributed

open GithubAgent.Base GithubAgent.RateLimit

/-- `f"{now}:{id(object())}"`. -/
abbrev RequestId := ℚ × Nat

/-- The sorted set under the key: the members with their scores, and when the key expires. -/
structure SortedSet where
  entries : List (RequestId × ℚ)
  expireAt : Option ℚ

namespace SortedSet

/-- No key. -/
def empty : SortedSet := ⟨[], none⟩

/-- What a command finds under the key. -/
def live (z : SortedSet) (now : ℚ) : SortedSet :=
  if z.expireAt.any (fun deadline ↦ deadline ≤ now) then empty else z

/-- A key whose set is empty does not exist. -/
def ofEntries (entries : List (RequestId × ℚ)) (expireAt : Option ℚ) : SortedSet :=
  if entries.isEmpty then empty else ⟨entries, expireAt⟩

/-- `ZREMRANGEBYSCORE`. -/
def remRangeByScore (z : SortedSet) (low high : ℚ) : SortedSet :=
  ofEntries (z.entries.filter fun e ↦ ¬ (low ≤ e.2 ∧ e.2 ≤ high)) z.expireAt

/-- `ZCARD`. -/
def card (z : SortedSet) : Nat := z.entries.length

/-- `ZADD` of one member, and the number of new members. -/
def add (z : SortedSet) (member : RequestId) (score : ℚ) : SortedSet × Nat :=
  if z.entries.any (fun e ↦ e.1 = member) then
    (⟨z.entries.map fun e ↦ if e.1 = member then (member, score) else e, z.expireAt⟩, 0)
  else (⟨(member, score) :: z.entries, z.expireAt⟩, 1)

/-- `EXPIRE`; an expiry that is not positive deletes the key. -/
def expire (z : SortedSet) (now : ℚ) (seconds : Int) : SortedSet :=
  if seconds ≤ 0 ∨ z.entries.isEmpty then empty else ⟨z.entries, some (now + seconds)⟩

/-- The score of `ZRANGE key 0 0 WITHSCORES`. -/
def oldest (z : SortedSet) : Option ℚ := (z.entries.map (·.2)).min?

end SortedSet

/-- Where a worker stands in `acquire`: at the top of the loop, before one of the commands, before
the timeout is checked, or asleep. Beside `current_count` the number of grants at that moment is
kept. -/
inductive Pc where
  | idle (last : Option Outcome)
  | reading
  | counting (now : ℚ)
  | adding (now : ℚ) (currentCount made : Nat)
  | expiring
  | checking (now : ℚ)
  | ranging (now : ℚ)
  | sleeping (wakeAt : ℚ)
  deriving DecidableEq

/-- The locals of a call of `acquire`. -/
structure Worker where
  pc : Pc
  startTime : ℚ
  timeout : Option ℚ

/-- The clock, the sorted set, the grant times so far, and the workers. -/
structure Shared (C : Type) where
  now : ℚ
  set : SortedSet
  grants : List ℚ
  workers : C → Worker

/-- A worker calls `acquire` or runs its next command, or time passes. The `id` of the new object
is any number. -/
inductive Event (C : Type) where
  | call (c : C) (timeout : Option ℚ)
  | run (c : C) (objectId : Nat)
  | tick (seconds : ℚ)

/-- `int(time_window) + 60` (`rate_limiter.py:138`). -/
def expirySeconds (cfg : Limit) : Int := cfg.timeWindow.num.tdiv cfg.timeWindow.den + 60

/-- The wait before the next turn (`rate_limiter.py:148-157`). -/
def waitTime (cfg : Limit) (now : ℚ) : Option ℚ → ℚ
  | some oldest => max (1 / 10) ((oldest + cfg.timeWindow) - now)
  | none => 1 / 10

/-- `elapsed >= timeout` (`rate_limiter.py:142-145`). -/
def Worker.timedOut (w : Worker) (now : ℚ) : Bool :=
  match w.timeout with
  | none => false
  | some timeout => timeout ≤ now - w.startTime

section Model

variable {C : Type} [DecidableEq C]

/-- A worker goes on. -/
def Shared.setPc (s : Shared C) (c : C) (pc : Pc) : Shared C :=
  { s with workers := Function.update s.workers c { s.workers c with pc := pc } }

/-- The next command of a worker, and what it does with the reply (`rate_limiter.py:113-160`). -/
def Shared.run (cfg : Limit) (s : Shared C) (c : C) (objectId : Nat) : Option (Shared C) :=
  match (s.workers c).pc with
  | .idle _ => none
  | .reading => some (s.setPc c (.counting s.now))
  | .counting now =>
    let set := (s.set.live s.now).remRangeByScore 0 (now - cfg.timeWindow)
    let pc : Pc :=
      if set.card < cfg.maxRequests then .adding now set.card s.grants.length else .checking now
    some { s.setPc c pc with set := set }
  | .adding now _ _ =>
    match (s.set.live s.now).add (now, objectId) now with
    | (set, 0) => some { s.setPc c (.checking now) with set := set }
    | (set, _ + 1) => some { s.setPc c .expiring with set := set, grants := s.grants ++ [now] }
  | .expiring =>
    some { s.setPc c (.idle (some .granted)) with
      set := (s.set.live s.now).expire s.now (expirySeconds cfg) }
  | .checking now =>
    if (s.workers c).timedOut s.now then some (s.setPc c (.idle (some .timeout)))
    else some (s.setPc c (.ranging now))
  | .ranging now =>
    some (s.setPc c (.sleeping (s.now + waitTime cfg now (s.set.live s.now).oldest)))
  | .sleeping wakeAt =>
    if wakeAt < s.now + cfg.resolution then some (s.setPc c .reading) else none

/-- One step. -/
def Shared.step (cfg : Limit) (s : Shared C) : Event C → Option (Shared C)
  | .call c timeout =>
    match (s.workers c).pc with
    | .idle _ =>
      some { s with workers := Function.update s.workers c ⟨.reading, s.now, timeout⟩ }
    | _ => none
  | .run c objectId => s.run cfg c objectId
  | .tick seconds => if 0 ≤ seconds then some { s with now := s.now + seconds } else none

/-- No key, and no call yet. -/
def Shared.initial (now : ℚ) : Shared C where
  now := now
  set := .empty
  grants := []
  workers := fun _ ↦ ⟨.idle none, now, none⟩

end Model

/-- The workers that use the key. -/
def distributed (C : Type) [DecidableEq C] (cfg : Limit) : System (Shared C) (Event C) where
  init := fun s ↦ ∃ now, 0 ≤ now ∧ s = .initial now
  step := Shared.step cfg

section Checks

variable {C : Type} [DecidableEq C] {cfg : Limit} {s s' : Shared C} {c : C}

/-- The grants in the window that ends at `now`, and those after it. -/
def recent (cfg : Limit) (now : ℚ) (grants : List ℚ) : Nat :=
  grants.countP fun g ↦ now < g + cfg.timeWindow

/-- The pipeline of a worker finds an entry for every grant of the last `time_window`; and its
`ZADD` comes before so many other grants that, with what it counted, the limit is reached. -/
def Pc.CheckHolds (cfg : Limit) (s : Shared C) : Pc → Prop
  | .counting now => recent cfg now s.grants ≤
      ((s.set.live s.now).remRangeByScore 0 (now - cfg.timeWindow)).card
  | .adding now currentCount made =>
    currentCount + near cfg.timeWindow now (s.grants.drop made) < cfg.maxRequests
  | .idle _ | .reading | .expiring | .checking _ | .ranging _ | .sleeping _ => True

/-- The check of every worker that runs holds. -/
def ChecksHold (cfg : Limit) (s : Shared C) : Event C → Prop
  | .run c _ => (s.workers c).pc.CheckHolds cfg s
  | .call _ _ | .tick _ => True

instance (cfg : Limit) (s : Shared C) : (pc : Pc) → Decidable (pc.CheckHolds cfg s)
  | .counting _ => inferInstanceAs (Decidable (_ ≤ _))
  | .adding _ _ _ => inferInstanceAs (Decidable (_ < _))
  | .idle _ | .reading | .expiring | .checking _ | .ranging _ | .sleeping _ => .isTrue trivial

instance (cfg : Limit) (s : Shared C) : (e : Event C) → Decidable (ChecksHold cfg s e)
  | .run c _ => inferInstanceAs (Decidable ((s.workers c).pc.CheckHolds cfg s))
  | .call _ _ | .tick _ => .isTrue trivial

/-- A worker before its `ZADD` has counted what was granted before its pipeline. -/
def Pc.counted (cfg : Limit) (grants : List ℚ) : Pc → Prop
  | .adding now currentCount made =>
    made ≤ grants.length ∧ recent cfg now (grants.take made) ≤ currentCount
  | _ => True

/-- The limit holds, and every check counted enough. -/
structure Checked (cfg : Limit) (s : Shared C) : Prop where
  limit : WithinLimit cfg.maxRequests cfg.timeWindow s.grants
  counted : ∀ c, (s.workers c).pc.counted cfg s.grants

/-- Further grants do not matter for a check that was made. -/
theorem Pc.counted_append {pc : Pc} {grants : List ℚ} (h : pc.counted cfg grants)
    (later : List ℚ) : pc.counted cfg (grants ++ later) := by
  cases pc with
  | adding now currentCount made =>
    obtain ⟨hmade, hcount⟩ := h
    refine ⟨by rw [List.length_append]; omega, ?_⟩
    rwa [List.take_append_of_le_length hmade]
  | idle | reading | counting | expiring | checking | ranging | sleeping => trivial

/-- A worker goes on, and perhaps its request is granted. -/
theorem Checked.moved (h : Checked cfg s) {now : ℚ} {set : SortedSet} {w : Worker}
    (later : List ℚ) (hlimit : WithinLimit cfg.maxRequests cfg.timeWindow (s.grants ++ later))
    (hw : w.pc.counted cfg (s.grants ++ later)) :
    Checked cfg ⟨now, set, s.grants ++ later, Function.update s.workers c w⟩ := by
  refine ⟨hlimit, fun x ↦ ?_⟩
  by_cases hx : x = c
  · subst hx
    simpa using hw
  · have hcounted := Pc.counted_append (h.counted x) later
    simpa [Function.update_of_ne hx] using hcounted

/-- A worker goes on without a grant. -/
theorem Checked.kept (h : Checked cfg s) {now : ℚ} {set : SortedSet} {w : Worker}
    (hw : w.pc.counted cfg s.grants) :
    Checked cfg ⟨now, set, s.grants, Function.update s.workers c w⟩ := by
  have hlimit := h.limit
  rw [← List.append_nil s.grants] at hlimit hw ⊢
  exact h.moved [] hlimit hw

/-- The points near `now` are those that were counted and those that came since. -/
theorem near_le (cfg : Limit) (now : ℚ) (grants : List ℚ) (made : Nat) :
    near cfg.timeWindow now grants ≤
      recent cfg now (grants.take made) + near cfg.timeWindow now (grants.drop made) := by
  calc near cfg.timeWindow now grants
      = near cfg.timeWindow now (grants.take made) + near cfg.timeWindow now (grants.drop made) := by
        rw [← near_append, List.take_append_drop]
    _ ≤ recent cfg now (grants.take made) + near cfg.timeWindow now (grants.drop made) := by
        refine Nat.add_le_add_right (List.countP_mono_left fun g _ hg ↦ ?_) _
        exact decide_eq_true (of_decide_eq_true hg).1

theorem Checked.run (h : Checked cfg s) {objectId : Nat}
    (hok : ChecksHold cfg s (.run c objectId)) (hs : s.run cfg c objectId = some s') :
    Checked cfg s' := by
  have hcounted := h.counted c
  unfold Shared.run at hs
  simp only [ChecksHold] at hok
  split at hs
  · cases hs
  · cases hs
    exact h.kept trivial
  · next now hpc =>
    rw [hpc] at hok
    dsimp only at hs hok
    cases hs
    refine h.kept ?_
    dsimp only
    split
    · exact ⟨le_rfl, by rwa [List.take_length]⟩
    · trivial
  · next now currentCount made hpc =>
    rw [hpc] at hok hcounted
    split at hs
    · cases hs
      exact h.kept trivial
    · cases hs
      refine h.moved [now] (h.limit.concat ?_) trivial
      calc near cfg.timeWindow now s.grants
          ≤ recent cfg now (s.grants.take made) +
              near cfg.timeWindow now (s.grants.drop made) := near_le cfg now s.grants made
        _ ≤ currentCount + near cfg.timeWindow now (s.grants.drop made) :=
            Nat.add_le_add_right hcounted.2 _
        _ < cfg.maxRequests := hok
  · cases hs
    exact h.kept trivial
  · split at hs <;>
    · cases hs
      exact h.kept trivial
  · cases hs
    exact h.kept trivial
  · obtain ⟨-, rfl⟩ := System.guarded_eq_some hs
    exact h.kept trivial

theorem Checked.step (h : Checked cfg s) {e : Event C} (hok : ChecksHold cfg s e)
    (hs : s.step cfg e = some s') : Checked cfg s' := by
  cases e with
  | call c timeout =>
    simp only [Shared.step] at hs
    split at hs
    · cases hs
      exact h.kept trivial
    · cases hs
  | run c objectId => exact h.run hok hs
  | tick seconds =>
    obtain ⟨-, rfl⟩ := System.guarded_eq_some hs
    exact ⟨h.limit, h.counted⟩

/-- In the runs in which the checks still hold at the insertions, the limit does. -/
theorem withinLimit_of_checksHold (cfg : Limit)
    (h : (distributed C cfg).ReachWhen (ChecksHold cfg) s) :
    WithinLimit cfg.maxRequests cfg.timeWindow s.grants := by
  have hchecked : Checked cfg s := by
    refine h.invariant ?_ fun t e t' ht hok hs ↦ ht.step hok hs
    rintro _ ⟨now, -, rfl⟩
    exact ⟨withinLimit_nil, fun c ↦ trivial⟩
  exact hchecked.limit

/-- Two of three workers in a minute, of two that are allowed. -/
theorem withinLimit_of_checksHold_minute :
    ∃ s : Shared (Fin 3), s.grants = [0, 1] ∧ (s.workers 2).pc = .idle (some .timeout) ∧
      WithinLimit 2 60 s.grants := by
  obtain ⟨s, hs, hgrants, htimeout⟩ := System.exists_reachWhen (distributed (Fin 3) ⟨2, 60, 1⟩)
    (ChecksHold ⟨2, 60, 1⟩)
    (fun s ↦ s.grants = [0, 1] ∧ (s.workers 2).pc = .idle (some .timeout))
    [.call 0 none, .run 0 7, .run 0 7, .run 0 7, .tick 1, .call 1 none, .call 2 (some 0),
      .run 1 7, .run 2 7, .run 1 7, .run 1 7, .run 0 7, .run 2 7, .run 2 7, .run 1 7]
    ⟨0, le_rfl, rfl⟩ (by decide +kernel)
  exact ⟨s, hgrants, htimeout, withinLimit_of_checksHold ⟨2, 60, 1⟩ hs⟩

/-- Two workers count no request before either of them adds its own, and both are granted the one
request of the window. -/
theorem not_withinLimit : ∃ s : Shared (Fin 2), (distributed (Fin 2) ⟨1, 60, 1⟩).Reach s ∧
    (∀ c, (s.workers c).pc = .idle (some .granted)) ∧ ¬ WithinLimit 1 60 s.grants := by
  obtain ⟨s, hs, hgrants, hgranted⟩ := System.exists_reachWhen (distributed (Fin 2) ⟨1, 60, 1⟩)
    System.always
    (fun s ↦ s.grants = [0, 0] ∧ ∀ c, (s.workers c).pc = .idle (some .granted))
    [.call 0 none, .call 1 none, .run 0 1, .run 1 2, .run 0 1, .run 1 2, .run 0 1, .run 1 2,
      .run 0 1, .run 1 2]
    ⟨0, le_rfl, rfl⟩ (by decide +kernel)
  refine ⟨s, hs, hgranted, fun hlimit ↦ ?_⟩
  have htwo := (hlimit 0).1
  rw [hgrants] at htwo
  revert htwo
  decide +kernel

end Checks

end GithubAgent.RateLimit.Distributed
