import GithubAgent.Lock.WorktreeLock

/-!
# Only the holder touches the lock

Beside the system of the lock's clients it is recorded which `acquire` created the value under
each key, and whether a call of a client that is not the stored job has changed a key. The script
of `release` compares the job id; the one of `set_session_id` and `set_interrupted` does not, and
writes whatever is under the key, with the rest of its expiry in whole seconds.
-/

namespace GithubAgent.Lock

open GithubAgent.Base GithubAgent.Shared

/-- The client runs the script of `release`, `set_session_id` or `set_interrupted`. -/
def Pc.isScript : Pc → Bool
  | .release _ | .update _ => true
  | _ => false

/-- The job to which the next command of a client gives the lock, if it does. -/
def granted (key : WorktreeKey) (now : Nat) (r : Redis) (cl : Client) : Option String :=
  match cl.pc with
  | .acquire jobId _ ttl | .retry jobId ttl =>
    if ttl = 0 ∨ r.locks.has now key.lockKey = true then none else some jobId
  | _ => none

/-- The clients, the `acquire` calls that succeeded (key, job id and pid, the last one first), and
whether a client has changed or deleted what was stored for another job. -/
structure Witnessed (C : Type) where
  state : State C
  acquired : List (String × String × Nat)
  touched : Bool

section Witness

variable {C : Type}

/-- The call is of a client other than the stored job, and the key is not as before. -/
def Touches (cfg : Config C) (s s' : State C) : Action C → Prop
  | .command c =>
    (s.clients c).pc.isScript = true ∧
      (s.redis.locks.get s.now (cfg.key c).lockKey).any
        (fun data ↦ some data.jobId ≠ (s.clients c).jobId) = true ∧
      s'.redis.locks (cfg.key c).lockKey ≠ s.redis.locks (cfg.key c).lockKey
  | _ => False

instance (cfg : Config C) (s s' : State C) : (a : Action C) → Decidable (Touches cfg s s' a)
  | .command _ => inferInstanceAs (Decidable (_ ∧ _ ∧ _))
  | .call _ _ | .error _ | .crash _ | .tick _ => .isFalse id

/-- The lock that a step creates. -/
def acquiredIn (cfg : Config C) (s : State C) : Action C → Option (String × String × Nat)
  | .command c => (granted (cfg.key c) s.now s.redis (s.clients c)).map fun jobId ↦
      ((cfg.key c).lockKey, jobId, cfg.pid c)
  | _ => none

variable [DecidableEq C]

/-- The clients of the lock, with the record of their steps. -/
def witness (cfg : Config C) : System (Witnessed C) (Action C) where
  init := fun w ↦ w = ⟨initial, [], false⟩
  step := fun w a ↦ (step cfg w.state a).map fun s' ↦
    ⟨s', (acquiredIn cfg w.state a).toList ++ w.acquired,
      w.touched || decide (Touches cfg w.state s' a)⟩

end Witness

/-- No client has touched the lock of another job, and every stored value has the job id and the
pid of the `acquire` that created it. -/
structure OnlyHolder {C : Type} (w : Witnessed C) : Prop where
  untouched : w.touched = false
  created : ∀ key cell, w.state.redis.locks key = some cell →
    ∃ pid, w.acquired.lookup key = some (cell.value.jobId, pid) ∧ cell.value.pid = some pid

/-- A write of `field` by the client meets no live lock, or one of the client's own job, or one
with less than half a second to live, or it writes back what is there with the same expiry. -/
def OwnsUpdate {C : Type} (cfg : Config C) (w : Witnessed C) (c : C) (field : LockUpdate) : Prop :=
  ∀ data ∈ w.state.redis.locks.get w.state.now (cfg.key c).lockKey,
    some data.jobId = (w.state.clients c).jobId ∨
      w.state.redis.locks.ttl w.state.now (cfg.key c).lockKey ≤ 0 ∨
      w.state.redis.locks (cfg.key c).lockKey = some ⟨data.update field, some (w.state.now +
        1000 * (w.state.redis.locks.ttl w.state.now (cfg.key c).lockKey).toNat)⟩

/-- Every `set_session_id` and `set_interrupted` is such a write. -/
def OwnsUpdates {C : Type} (cfg : Config C) (w : Witnessed C) : Action C → Prop
  | .command c => ∀ field, (w.state.clients c).pc = .update field → OwnsUpdate cfg w c field
  | _ => True

section Decidable

variable {C : Type} (cfg : Config C) (w : Witnessed C)

instance (c : C) (field : LockUpdate) : Decidable (OwnsUpdate cfg w c field) :=
  inferInstanceAs (Decidable (∀ data ∈ w.state.redis.locks.get w.state.now (cfg.key c).lockKey, _))

instance (P : LockUpdate → Prop) [DecidablePred P] :
    (pc : Pc) → Decidable (∀ field, pc = .update field → P field)
  | .update field =>
    decidable_of_iff (P field) ⟨fun h _ hf ↦ Pc.update.inj hf ▸ h, fun h ↦ h field rfl⟩
  | .idle | .acquire _ _ _ | .wait _ _ _ | .retry _ _ | .setPending _ | .release _ =>
    .isTrue fun _ h ↦ nomatch h

instance : (a : Action C) → Decidable (OwnsUpdates cfg w a)
  | .command c => inferInstanceAs
    (Decidable (∀ field, (w.state.clients c).pc = .update field → OwnsUpdate cfg w c field))
  | .call _ _ | .error _ | .crash _ | .tick _ => .isTrue trivial

end Decidable

/-! ### What a command does to the lock keys -/

section Command

variable {r r' : Redis} {cl cl' : Client} {pid now : Nat} {key : WorktreeKey}

/-- A command creates the lock, deletes it, writes a field of it, or leaves the lock keys. -/
inductive LockWrite (pid : Nat) (key : WorktreeKey) (now : Nat) (r : Redis) (cl : Client)
    (locks : Keys String LockInfo) : Prop where
  | created {jobId : String} {ttl : Nat} (hgranted : granted key now r cl = some jobId)
      (hlocks : locks = r.locks.setex now key.lockKey ttl { jobId := jobId, pid := some pid }) :
      LockWrite pid key now r cl locks
  | same (hgranted : granted key now r cl = none) (hlocks : locks = r.locks)
      (hupdate : ∀ field data, cl.pc = .update field →
        r.locks.get now key.lockKey = some data → r.locks.ttl now key.lockKey ≤ 0) :
      LockWrite pid key now r cl locks
  | deleted {jobId : String} {data : LockInfo} (hpc : cl.pc = .release jobId)
      (hget : r.locks.get now key.lockKey = some data) (hjob : data.jobId = jobId)
      (hlocks : locks = r.locks.del key.lockKey) : LockWrite pid key now r cl locks
  | written {field : LockUpdate} {data : LockInfo} (hpc : cl.pc = .update field)
      (hget : r.locks.get now key.lockKey = some data)
      (hpos : ¬ r.locks.ttl now key.lockKey ≤ 0)
      (hlocks : locks = r.locks.setex now key.lockKey (r.locks.ttl now key.lockKey).toNat
        (data.update field)) : LockWrite pid key now r cl locks

theorem tryLock_write {jobId : String} {ttl : Nat} {held : Pc}
    (hpc : cl.pc.isScript = false) (hgranted : granted key now r cl =
      if ttl = 0 ∨ r.locks.has now key.lockKey = true then none else some jobId)
    (h : tryLock pid key now r cl jobId ttl held = (r', cl')) :
    LockWrite pid key now r cl r'.locks := by
  have hupdate (field : LockUpdate) (data : LockInfo) (hfield : cl.pc = .update field)
      (_ : r.locks.get now key.lockKey = some data) : r.locks.ttl now key.lockKey ≤ 0 := by
    rw [hfield] at hpc
    cases hpc
  unfold tryLock at h
  split at h
  · next hzero =>
    cases h
    exact .same (by rw [hgranted, if_pos (.inl hzero)]) rfl hupdate
  · next hpos =>
    cases hhas : r.locks.has now key.lockKey with
    | true =>
      simp only [setLock, Keys.setnx_of_has hhas, Prod.mk.injEq] at h
      obtain ⟨rfl, -⟩ := h
      exact .same (by rw [hgranted, if_pos (.inr hhas)]) rfl hupdate
    | false =>
      simp only [setLock, Keys.setnx_of_not_has hhas, Prod.mk.injEq] at h
      obtain ⟨rfl, -⟩ := h
      refine .created ?_ rfl
      rw [hgranted, if_neg]
      simp [hpos, hhas]

theorem command_write (h : command pid key now r cl = some (r', cl')) :
    LockWrite pid key now r cl r'.locks := by
  -- a command that is neither an `acquire` nor a script
  have hleaves {locks : Keys String LockInfo} (hgranted : granted key now r cl = none)
      (hpc : ∀ field, cl.pc ≠ .update field) (hlocks : locks = r.locks) :
      LockWrite pid key now r cl locks :=
    .same hgranted hlocks fun field _ hfield ↦ absurd hfield (hpc field)
  unfold command at h
  split at h
  · cases h
  · next hpc =>
    exact tryLock_write (by rw [hpc]; rfl) (by simp only [granted, hpc]) (Option.some.inj h)
  · next hpc =>
    have hnone : granted key now r cl = none := by simp only [granted, hpc]
    have hfield (field : LockUpdate) : cl.pc ≠ .update field := by simp [hpc]
    split at h
    · cases h
    · split at h <;> cases h <;> exact hleaves hnone hfield rfl
  · next hpc =>
    exact tryLock_write (by rw [hpc]; rfl) (by simp only [granted, hpc]) (Option.some.inj h)
  · next hpc =>
    cases h
    exact hleaves (by simp only [granted, hpc]) (by simp [hpc]) rfl
  · next jobId hpc =>
    have hnone : granted key now r cl = none := by simp only [granted, hpc]
    have hfield (field : LockUpdate) : cl.pc ≠ .update field := by simp [hpc]
    cases h
    unfold releaseScript
    split
    · exact hleaves hnone hfield rfl
    · next data hget =>
      split
      · next hjob => exact .deleted hpc hget hjob rfl
      · exact hleaves hnone hfield rfl
  · next field hpc =>
    have hnone : granted key now r cl = none := by simp only [granted, hpc]
    cases h
    unfold updateLockField
    split
    · next hget =>
      refine .same hnone rfl fun field' data _ hdata ↦ ?_
      rw [hget] at hdata
      cases hdata
    · next data hget =>
      dsimp only
      split
      · next hexpired => exact .same hnone rfl fun _ _ _ _ ↦ hexpired
      · next hpos => exact .written hpc hget hpos rfl

/-- A field that is written leaves the job id and the pid. -/
theorem LockInfo.update_owner (info : LockInfo) (field : LockUpdate) :
    (info.update field).jobId = info.jobId ∧ (info.update field).pid = info.pid := by
  cases field <;> exact ⟨rfl, rfl⟩

end Command

/-! ### The record of a run -/

section Record

variable {C : Type} {cfg : Config C} {w w' : Witnessed C} {s s' : State C}

/-- A client that runs the script of `release` gives it its own job id. -/
def Releasing (s : State C) : Prop :=
  ∀ c jobId, (s.clients c).pc = .release jobId → (s.clients c).jobId = some jobId

theorem call_releasing {cl : Client} {op : Call} {jobId : String} (hidle : cl.pc = .idle)
    (h : (cl.call op).pc = .release jobId) : (cl.call op).jobId = some jobId := by
  cases op with
  | acquire => cases h
  | setSessionId | setInterrupted =>
    simp only [Client.call] at h
    split at h
    · cases h
    · rw [hidle] at h
      cases h
  | release =>
    simp only [Client.call] at h ⊢
    split at h
    · next hacq =>
      rw [if_pos hacq]
      split at h
      · next hnone =>
        rw [hidle] at h
        cases h
      · next hjob =>
        cases h
        exact hjob
    · rw [hidle] at h
      cases h

variable [DecidableEq C]

theorem Releasing.setClient (h : Releasing s) {c : C} {cl : Client}
    (hcl : ∀ jobId, cl.pc = .release jobId → cl.jobId = some jobId) :
    Releasing { s with clients := Function.update s.clients c cl } := by
  intro x jobId hx
  by_cases hxc : x = c
  · subst hxc
    simp only [Function.update_self] at hx ⊢
    exact hcl jobId hx
  · simp only [Function.update_of_ne hxc] at hx ⊢
    exact h x jobId hx

/-- What a step does to the clients and to the lock keys. -/
theorem step_writes {a : Action C} (h : Releasing s) (hs : step cfg s a = some s') :
    Releasing s' ∧
      ((∃ c, a = .command c ∧ LockWrite (cfg.pid c) (cfg.key c) s.now s.redis (s.clients c)
        s'.redis.locks) ∨ (∀ c, a ≠ .command c) ∧ s'.redis.locks = s.redis.locks) := by
  cases a with
  | call c op =>
    simp only [Lock.step] at hs
    split at hs
    · next hidle =>
      cases hs
      exact ⟨h.setClient fun jobId ↦ call_releasing hidle, .inr ⟨fun _ ↦ nofun, rfl⟩⟩
    · cases hs
  | command c =>
    simp only [Lock.step] at hs
    split at hs
    · obtain ⟨⟨r, cl⟩, hcmd, rfl⟩ := Option.map_eq_some_iff.mp hs
      refine ⟨h.setClient fun jobId hpc ↦ ?_, .inl ⟨c, rfl, command_write hcmd⟩⟩
      cases command_cases hcmd with
      | moved other => exact absurd hpc (other jobId)
      | granted | pended | released | updated => cases hpc
    · cases hs
  | error c =>
    simp only [Lock.step] at hs
    split at hs
    · cases hs
      exact ⟨h.setClient nofun, .inr ⟨fun _ ↦ nofun, rfl⟩⟩
    · cases hs
  | crash c =>
    simp only [Lock.step] at hs
    split at hs
    · cases hs
      exact ⟨h.setClient (h c), .inr ⟨fun _ ↦ nofun, rfl⟩⟩
    · cases hs
  | tick ms =>
    cases hs
    exact ⟨h, .inr ⟨fun _ ↦ nofun, rfl⟩⟩

/-- Whoever writes, the job id and the pid under a key are those of the last `acquire` of it. -/
structure Recorded (w : Witnessed C) : Prop where
  releasing : Releasing w.state
  created : ∀ key cell, w.state.redis.locks key = some cell →
    ∃ pid, w.acquired.lookup key = some (cell.value.jobId, pid) ∧ cell.value.pid = some pid

theorem Recorded.step (h : Recorded w) {a : Action C} (hs : (witness cfg).step w a = some w') :
    Recorded w' := by
  obtain ⟨s', hstep, rfl⟩ := Option.map_eq_some_iff.mp hs
  obtain ⟨hreleasing, ⟨c, rfl, hwrite⟩ | ⟨hother, hlocks⟩⟩ := step_writes h.releasing hstep
  · refine ⟨hreleasing, fun key cell hcell ↦ ?_⟩
    cases hwrite with
    | @created jobId ttl hgranted hnew =>
      rw [hnew] at hcell
      simp only [acquiredIn, hgranted, Option.map_some, Option.toList_some, List.singleton_append]
      by_cases hkey : key = (cfg.key c).lockKey
      · subst hkey
        rw [Keys.setex_apply_self, Option.some.injEq] at hcell
        subst hcell
        exact ⟨cfg.pid c, by rw [List.lookup_cons_self], rfl⟩
      · rw [Keys.setex_apply_of_ne _ _ hkey] at hcell
        rw [List.lookup_cons, beq_false_of_ne hkey]
        exact h.created key cell hcell
    | same hgranted hsame _ =>
      rw [hsame] at hcell
      simpa [acquiredIn, hgranted] using h.created key cell hcell
    | deleted hpc hget hjob hdel =>
      have hgranted : granted (cfg.key c) w.state.now w.state.redis (w.state.clients c) = none := by
        simp only [granted, hpc]
      rw [hdel] at hcell
      by_cases hkey : key = (cfg.key c).lockKey
      · subst hkey
        simp [Keys.del] at hcell
      · rw [Keys.del_apply_of_ne _ hkey] at hcell
        simpa [acquiredIn, hgranted] using h.created key cell hcell
    | @written field data hpc hget hpos hnew =>
      have hgranted : granted (cfg.key c) w.state.now w.state.redis (w.state.clients c) = none := by
        simp only [granted, hpc]
      simp only [acquiredIn, hgranted, Option.map_none, Option.toList_none, List.nil_append]
      rw [hnew] at hcell
      by_cases hkey : key = (cfg.key c).lockKey
      · subst hkey
        rw [Keys.setex_apply_self, Option.some.injEq] at hcell
        subst hcell
        obtain ⟨deadline, hbefore, -⟩ := Keys.get_eq_some.mp hget
        obtain ⟨hjobId, hpid⟩ := data.update_owner field
        rw [hjobId, hpid]
        exact h.created _ _ hbefore
      · rw [Keys.setex_apply_of_ne _ _ hkey] at hcell
        exact h.created key cell hcell
  · refine ⟨hreleasing, fun key cell hcell ↦ ?_⟩
    rw [hlocks] at hcell
    cases a with
    | command c => exact absurd rfl (hother c)
    | call | error | crash | tick => exact h.created key cell hcell

/-- A step touches the lock of another job exactly when it is an update that the condition
forbids. -/
theorem touches_iff {a : Action C} (h : Recorded w) (hs : step cfg w.state a = some s') :
    Touches cfg w.state s' a ↔ ¬ OwnsUpdates cfg w a := by
  obtain ⟨-, ⟨c, rfl, hwrite⟩ | ⟨hother, -⟩⟩ := step_writes h.releasing hs
  · have hown {data : LockInfo}
        (hget : w.state.redis.locks.get w.state.now (cfg.key c).lockKey = some data) :
        (w.state.redis.locks.get w.state.now (cfg.key c).lockKey).any
          (fun data ↦ some data.jobId ≠ (w.state.clients c).jobId) = true ↔
          some data.jobId ≠ (w.state.clients c).jobId := by
      rw [hget, Option.any_some, decide_eq_true_eq]
    cases hwrite with
    | created hgranted hlocks =>
      unfold granted at hgranted
      split at hgranted
      · next hpc => simp [Touches, OwnsUpdates, hpc, Pc.isScript]
      · next hpc => simp [Touches, OwnsUpdates, hpc, Pc.isScript]
      · cases hgranted
    | same hgranted hlocks hupdate =>
      exact iff_of_false (fun htouches ↦ htouches.2.2 (by rw [hlocks])) (not_not_intro
        fun field hpc data hget ↦ .inr (.inl (hupdate field data hpc hget)))
    | @deleted jobId data hpc hget hjob hlocks =>
      refine iff_of_false ?_ (by simp [OwnsUpdates, hpc])
      rintro ⟨-, hforeign, -⟩
      exact (hown hget).mp hforeign (by rw [hjob, h.releasing c jobId hpc])
    | @written field data hpc hget hpos hlocks =>
      have hafter := Keys.setex_apply_self w.state.redis.locks w.state.now (cfg.key c).lockKey
        (w.state.redis.locks.ttl w.state.now (cfg.key c).lockKey).toNat (data.update field)
      rw [← hlocks] at hafter
      simp only [Touches, OwnsUpdates, OwnsUpdate, hpc, Pc.isScript, hafter, true_and,
        Pc.update.injEq, forall_eq', hget, Option.mem_some_iff, hpos, false_or, not_or, ne_eq]
      exact and_congr (by rw [Option.any_some, decide_eq_true_eq]) (not_congr eq_comm)
  · cases a with
    | command c => exact absurd rfl (hother c)
    | call | error | crash | tick => exact iff_of_false id (not_not_intro trivial)

omit [DecidableEq C] in
/-- In a recorded state the property is about the flag only. -/
theorem Recorded.onlyHolder_iff (h : Recorded w) : OnlyHolder w ↔ w.touched = false :=
  ⟨fun hholder ↦ hholder.untouched, fun huntouched ↦ ⟨huntouched, h.created⟩⟩

/-- The flag is raised exactly by the steps that do not meet the condition. -/
theorem untouched_step_iff {a : Action C} (h : Recorded w) (huntouched : w.touched = false)
    (hs : (witness cfg).step w a = some w') : w'.touched = false ↔ OwnsUpdates cfg w a := by
  obtain ⟨s', hstep, rfl⟩ := Option.map_eq_some_iff.mp hs
  rw [huntouched, Bool.false_or, decide_eq_false_iff_not, touches_iff h hstep, not_not]

theorem recorded_init (h : (witness cfg).init w) : Recorded w := by
  cases h
  exact ⟨by simp [Releasing, initial], fun key cell hcell ↦ by cases hcell⟩

/-- In the runs whose updates meet the condition nobody but the holder touches the lock, and a
step that does not meet it does touch the lock of another job. The job id and the pid of a stored
value are those of its `acquire` in every run. -/
theorem onlyHolder_of_ownsUpdates (cfg : Config C) {w : Witnessed C}
    (h : (witness cfg).ReachWhen (OwnsUpdates cfg) w) :
    OnlyHolder w ∧ ∀ a w', (witness cfg).step w a = some w' →
      (OnlyHolder w' ↔ OwnsUpdates cfg w a) := by
  have hrecorded : Recorded w :=
    h.invariant (fun _ ↦ recorded_init) fun _ _ _ ht _ ↦ ht.step
  have huntouched : w.touched = false := by
    refine h.invariant_of (P := fun t ↦ t.touched = false) (Q := Recorded)
      (fun t ht ↦ ht.invariant (fun _ ↦ recorded_init) fun _ _ _ hu _ ↦ hu.step) ?_
      fun t a t' ht hu ha hs ↦ (untouched_step_iff ht hu hs).mpr ha
    rintro _ rfl
    rfl
  refine ⟨hrecorded.onlyHolder_iff.mpr huntouched, fun a w' hs ↦ ?_⟩
  rw [(hrecorded.step hs).onlyHolder_iff, untouched_step_iff hrecorded huntouched hs]

end Record

/-- Two workers on one worktree. -/
def twoWorkers : Config (Fin 2) := ⟨fun _ ↦ ⟨"octo/repo", .pr, "7", "review-pr"⟩, fun _ ↦ 1⟩

/-- A holder notes its session and releases, and the next one is not disturbed. -/
theorem onlyHolder_of_ownsUpdates_release :
    ∃ w : Witnessed (Fin 2), w.acquired.map (·.2.1) = ["b", "a"] ∧ OnlyHolder w := by
  obtain ⟨w, hw, hacquired⟩ := System.exists_reachWhen (witness twoWorkers)
    (OwnsUpdates twoWorkers) (fun w ↦ w.acquired.map (·.2.1) = ["b", "a"])
    [.call 0 (.acquire "a" 0 600), .command 0, .call 0 (.setSessionId "s"), .command 0,
      .tick 300000, .call 0 .release, .command 0, .call 1 (.acquire "b" 0 600), .command 1]
    rfl (by decide)
  exact ⟨w, hacquired, (onlyHolder_of_ownsUpdates twoWorkers hw).1⟩

/-- The lock of the first worker expires and is taken over, and then the first worker notes its
session in the lock of the second. -/
theorem not_onlyHolder : ∃ w : Witnessed (Fin 2), (witness twoWorkers).Reach w ∧
    ¬ OnlyHolder w := by
  obtain ⟨w, hw, htouched⟩ := System.exists_reachWhen (witness twoWorkers) System.always
    (fun w ↦ w.touched = true)
    [.call 0 (.acquire "a" 0 600), .command 0, .tick 600000, .call 1 (.acquire "b" 0 600),
      .command 1, .tick 1000, .call 0 (.setSessionId "s"), .command 0]
    rfl (by decide)
  exact ⟨w, hw, fun h ↦ by simp [h.untouched] at htouched⟩

end GithubAgent.Lock
