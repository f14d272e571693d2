import GithubAgent.Lock.WorktreeLock

/-!
# Mutual exclusion of the worktree lock

`SET NX` gives the lock to one client while the key lives, and only `release` deletes it. The
key lives for the time given to `acquire`; `set_session_id` and `set_interrupted` write it
back with what remains of that time, and nothing extends it.
-/

namespace GithubAgent.Lock

open GithubAgent.Base GithubAgent.Shared

/-- The client is between a successful `acquire` and the completion of its `release`. -/
def Client.Holds (cl : Client) : Prop := cl.alive = true ∧ cl.lockAcquired = true

instance (cl : Client) : Decidable cl.Holds := inferInstanceAs (Decidable (_ ∧ _))

section Exclusion

variable {C : Type} {cfg : Config C} {s s' : State C}

/-- At most one client of a worktree key holds its lock. -/
def MutualExclusion (cfg : Config C) (s : State C) : Prop :=
  ∀ c c', cfg.key c = cfg.key c' → (s.clients c).Holds → (s.clients c').Holds → c = c'

/-- Time does not carry a live holder's lock key to its expiry. -/
def HoldersInTime (cfg : Config C) (s : State C) : Action C → Prop
  | .tick ms => ∀ c, (s.clients c).Holds →
      s.redis.locks.has (s.now + ms) (cfg.key c).lockKey = true
  | _ => True

instance [Fintype C] (cfg : Config C) (s : State C) :
    (a : Action C) → Decidable (HoldersInTime cfg s a)
  | .call _ _ => .isTrue trivial
  | .command _ => .isTrue trivial
  | .error _ => .isTrue trivial
  | .crash _ => .isTrue trivial
  | .tick _ => inferInstanceAs (Decidable (∀ _, _))

variable [DecidableEq C]

/-- A holder that runs longer than the 600 s of its lock, and a second client. -/
theorem not_mutualExclusion : ¬ ∀ s : State (Fin 2),
    (system ⟨fun _ ↦ ⟨"octo/repo", .pr, "7", "review-pr"⟩, fun _ ↦ 1⟩).Reach s →
    MutualExclusion ⟨fun _ ↦ ⟨"octo/repo", .pr, "7", "review-pr"⟩, fun _ ↦ 1⟩ s := by
  obtain ⟨s, hs, hzero, hone⟩ := System.exists_reachWhen
    (system (⟨fun _ ↦ ⟨"octo/repo", .pr, "7", "review-pr"⟩, fun _ ↦ 1⟩ : Config (Fin 2)))
    System.always
    (fun s ↦ (s.clients 0).Holds ∧ (s.clients 1).Holds)
    [.call 0 (.acquire "a" 0 600), .command 0, .tick 600000, .call 1 (.acquire "b" 0 600),
      .command 1]
    rfl (by decide)
  intro h
  exact absurd (h s hs 0 1 rfl hzero hone) (by decide)

/-! ### What a command does to the lock keys -/

section Command

variable {r r' : Redis} {cl cl' : Client} {pid now : Nat} {key : WorktreeKey}

theorem updateLockField_has {field : LockUpdate} {k : String} (h : r.locks.has now k = true) :
    (updateLockField r now key field).1.locks.has now k = true := by
  unfold updateLockField
  split
  · exact h
  · dsimp only
    split
    · exact h
    · next httl => exact Keys.has_setex (by omega) h

/-- The script of `release` deletes no other key. -/
theorem releaseScript_has {jobId k : String} (hk : k ≠ key.lockKey)
    (h : r.locks.has now k = true) : (releaseScript r now key jobId).1.locks.has now k = true := by
  unfold releaseScript
  split
  · exact h
  · split
    · rwa [Keys.has_del_of_ne _ now hk]
    · exact h

/-- A lock key disappears only when a client of that key releases it. -/
theorem Commanded.has (h : Commanded pid key now r cl r' cl') {k : String}
    (hk : r.locks.has now k = true) :
    r'.locks.has now k = true ∨
      (k = key.lockKey ∧ (∃ jobId, cl.pc = .release jobId) ∧ cl'.lockAcquired = false) := by
  cases h with
  | granted pos free => exact .inl (Keys.has_setex pos hk)
  | moved | pended => exact .inl hk
  | @released jobId atRelease =>
    by_cases hkey : k = key.lockKey
    · exact .inr ⟨hkey, ⟨jobId, atRelease⟩, rfl⟩
    · exact .inl (releaseScript_has hkey hk)
  | updated => exact .inl (updateLockField_has hk)

/-- A client comes to hold the lock only by creating its key. -/
theorem Commanded.acquired (h : Commanded pid key now r cl r' cl')
    (hacq : cl'.lockAcquired = true) :
    cl.lockAcquired = true ∨
      (r.locks.has now key.lockKey = false ∧ r'.locks.has now key.lockKey = true) := by
  cases h with
  | granted pos free => exact .inr ⟨free, Keys.has_setex_self _ now _ _ pos⟩
  | moved | pended | updated => exact .inl hacq
  | released => cases hacq

theorem Commanded.alive (h : Commanded pid key now r cl r' cl') : cl'.alive = cl.alive := by
  cases h <;> rfl

theorem Commanded.not_release (h : Commanded pid key now r cl r' cl') (jobId : String) :
    cl'.pc ≠ .release jobId := by
  cases h with
  | moved other => exact other jobId
  | granted | pended | released | updated => nofun

end Command

/-! ### The invariant of runs whose holders are in time -/

/-- A holder's key is live, no two holders share one, and only a holder releases. -/
structure Exclusive (cfg : Config C) (s : State C) : Prop where
  live : ∀ c, (s.clients c).Holds → s.redis.locks.has s.now (cfg.key c).lockKey = true
  unique : ∀ c c', (cfg.key c).lockKey = (cfg.key c').lockKey →
    (s.clients c).Holds → (s.clients c').Holds → c = c'
  releasing : ∀ c jobId, (s.clients c).pc = .release jobId → (s.clients c).lockAcquired = true

omit [DecidableEq C] in
theorem exclusive_initial : Exclusive cfg (initial : State C) := by
  constructor <;> simp [initial, Client.Holds]

/-- Replacing a client's state by one that holds no lock it did not hold keeps the invariant. -/
theorem Exclusive.setClient (h : Exclusive cfg s) {c : C} {cl : Client}
    (hholds : cl.Holds → (s.clients c).Holds)
    (hrel : ∀ jobId, cl.pc = .release jobId → cl.lockAcquired = true) :
    Exclusive cfg { s with clients := Function.update s.clients c cl } := by
  have hold (x : C) (hx : (Function.update s.clients c cl x).Holds) : (s.clients x).Holds := by
    by_cases hxc : x = c
    · subst hxc
      rw [Function.update_self] at hx
      exact hholds hx
    · rwa [Function.update_of_ne hxc] at hx
  refine ⟨?_, ?_, ?_⟩
  · intro x hx
    exact h.live x (hold x hx)
  · intro x y hkey hx hy
    exact h.unique x y hkey (hold x hx) (hold y hy)
  · intro x jobId hx
    by_cases hxc : x = c
    · subst hxc
      simp only [Function.update_self] at hx ⊢
      exact hrel jobId hx
    · simp only [Function.update_of_ne hxc] at hx ⊢
      exact h.releasing x jobId hx

/-- A command of a live client keeps the invariant. -/
theorem Exclusive.command (h : Exclusive cfg s) {c : C} {r : Redis} {cl : Client}
    (halive : (s.clients c).alive = true)
    (hc : Commanded (cfg.pid c) (cfg.key c) s.now s.redis (s.clients c) r cl) :
    Exclusive cfg { s with redis := r, clients := Function.update s.clients c cl } := by
  -- another holder's key survives, since a client that releases is itself a holder
  have hother (x : C) (hxc : x ≠ c) (hx : (s.clients x).Holds) :
      r.locks.has s.now (cfg.key x).lockKey = true := by
    rcases hc.has (h.live x hx) with hlive | ⟨hkey, ⟨jobId, hpc⟩, -⟩
    · exact hlive
    · exact absurd (h.unique x c hkey hx ⟨halive, h.releasing c jobId hpc⟩) hxc
  have hown (hcl : cl.Holds) : r.locks.has s.now (cfg.key c).lockKey = true := by
    rcases hc.acquired hcl.2 with hbefore | ⟨-, hafter⟩
    · rcases hc.has (h.live c ⟨halive, hbefore⟩) with hlive | ⟨-, -, hrel⟩
      · exact hlive
      · rw [hcl.2] at hrel
        cases hrel
    · exact hafter
  -- no other client holds a lock with the key that this one acquires
  have hdistinct (x : C) (hxc : x ≠ c) (hkey : (cfg.key x).lockKey = (cfg.key c).lockKey)
      (hcl : cl.Holds) (hx : (s.clients x).Holds) : False := by
    rcases hc.acquired hcl.2 with hbefore | ⟨hfree, -⟩
    · exact hxc (h.unique x c hkey hx ⟨halive, hbefore⟩)
    · have hlive := h.live x hx
      rw [hkey, hfree] at hlive
      cases hlive
  refine ⟨?_, ?_, ?_⟩
  · intro x hx
    by_cases hxc : x = c
    · subst hxc
      simp only [Function.update_self] at hx
      exact hown hx
    · simp only [Function.update_of_ne hxc] at hx
      exact hother x hxc hx
  · intro x y hkey hx hy
    by_cases hxc : x = c
    · subst hxc
      by_cases hyx : y = x
      · exact hyx.symm
      · simp only [Function.update_self, Function.update_of_ne hyx] at hx hy
        exact (hdistinct y hyx hkey.symm hx hy).elim
    · by_cases hyc : y = c
      · subst hyc
        simp only [Function.update_self, Function.update_of_ne hxc] at hx hy
        exact (hdistinct x hxc hkey hy hx).elim
      · simp only [Function.update_of_ne hxc, Function.update_of_ne hyc] at hx hy
        exact h.unique x y hkey hx hy
  · intro x jobId hx
    by_cases hxc : x = c
    · subst hxc
      simp only [Function.update_self] at hx
      exact absurd hx (hc.not_release jobId)
    · simp only [Function.update_of_ne hxc] at hx ⊢
      exact h.releasing x jobId hx

/-- A call acquires nothing, and `release` is called by a holder only. -/
theorem call_holds {cl : Client} {op : Call} (h : (cl.call op).Holds) : cl.Holds := by
  cases op with
  | acquire => exact h
  | setSessionId | setInterrupted =>
    simp only [Client.call] at h
    split at h <;> exact h
  | release =>
    simp only [Client.call] at h
    split at h
    · split at h
      · exact absurd h.2 nofun
      · exact h
    · exact h

theorem call_release {cl : Client} {op : Call} {jobId : String} (hidle : cl.pc = .idle)
    (h : (cl.call op).pc = .release jobId) : (cl.call op).lockAcquired = true := by
  cases op with
  | acquire => cases h
  | setSessionId | setInterrupted =>
    simp only [Client.call] at h
    split at h
    · cases h
    · rw [hidle] at h
      cases h
  | release =>
    simp only [Client.call] at h ⊢
    split at h
    · next hacq =>
      rw [if_pos hacq]
      split
      · next hnone => simp [hnone, hidle] at h
      · exact hacq
    · rw [hidle] at h
      cases h

/-- A permitted step keeps the invariant. -/
theorem Exclusive.step (h : Exclusive cfg s) {a : Action C} (hok : HoldersInTime cfg s a)
    (hs : step cfg s a = some s') : Exclusive cfg s' := by
  cases a with
  | call c op =>
    simp only [Lock.step] at hs
    split at hs
    · next halive hidle =>
      cases hs
      exact h.setClient call_holds fun jobId hpc ↦ call_release hidle hpc
    · cases hs
  | command c =>
    simp only [Lock.step] at hs
    split at hs
    · next halive =>
      obtain ⟨⟨r, cl⟩, hcmd, rfl⟩ := Option.map_eq_some_iff.mp hs
      exact h.command halive (command_cases hcmd)
    · cases hs
  | error c =>
    simp only [Lock.step] at hs
    split at hs
    · cases hs
      exact h.setClient id nofun
    · cases hs
  | crash c =>
    simp only [Lock.step] at hs
    split at hs
    · cases hs
      exact h.setClient (fun hx ↦ absurd hx.1 nofun) (h.releasing c)
    · cases hs
  | tick ms =>
    cases hs
    exact ⟨hok, h.unique, h.releasing⟩

/-- In a run whose holders are in time, at most one client holds the lock of a worktree. -/
theorem mutualExclusion_of_holdersInTime
    (h : (system cfg).ReachWhen (HoldersInTime cfg) s) : MutualExclusion cfg s := by
  have hexcl : Exclusive cfg s := by
    apply h.invariant
    · intro t ht
      rw [ht]
      exact exclusive_initial
    · intro t a t' ht hok hs
      exact ht.step hok hs
  intro c c' hkey hc hc'
  exact hexcl.unique c c' (congrArg WorktreeKey.lockKey hkey) hc hc'

/-- A holder that releases in time, and the client that acquires after it. -/
theorem mutualExclusion_of_holdersInTime_release :
    ∃ s : State (Fin 2), (s.clients 1).Holds ∧
      MutualExclusion ⟨fun _ ↦ ⟨"octo/repo", .pr, "7", "review-pr"⟩, fun _ ↦ 1⟩ s := by
  obtain ⟨s, hs, hone⟩ := System.exists_reachWhen
    (system (⟨fun _ ↦ ⟨"octo/repo", .pr, "7", "review-pr"⟩, fun _ ↦ 1⟩ : Config (Fin 2)))
    (HoldersInTime ⟨fun _ ↦ ⟨"octo/repo", .pr, "7", "review-pr"⟩, fun _ ↦ 1⟩)
    (fun s ↦ (s.clients 1).Holds)
    [.call 0 (.acquire "a" 0 600), .command 0, .call 0 (.setSessionId "s"), .command 0,
      .tick 300000, .call 0 .release, .command 0, .call 1 (.acquire "b" 0 600), .command 1]
    rfl (by decide)
  exact ⟨s, hone, mutualExclusion_of_holdersInTime hs⟩

end Exclusion

end GithubAgent.Lock
