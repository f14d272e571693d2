import GithubAgent.Queue.SingleHand

/-!
# When a terminal status is final

`complete_job` deletes the backup last but one, and neither `get_next_job` nor
`reclaim_stale_jobs` looks at the status. A completed job therefore comes back when, at the
time `complete_job` returns, its id is still pending, another client is past the command
that read it, or a backup remains for a later reclaimer.
-/

namespace GithubAgent.Queue

open GithubAgent.Base

section Locals

variable {J : Type}

/-- The popped job a client may still return from `get_next_job`. -/
def Pc.pulling : Pc J → Option J
  | .next (.expired _) => none
  | .next (.corrupt _) => none
  | .next p => p.hand
  | _ => none

/-- The jobs a reclaimer has yet to decide on. -/
def Pc.visiting : Pc J → List J
  | .reclaim f j .exists => j :: f.rest
  | .reclaim f j .backup => j :: f.rest
  | .reclaim f _ _ => f.rest
  | _ => []

theorem nextTurn_pulling (f : Frame J) : (nextTurn f).pulling = none := by
  unfold nextTurn
  split <;> rfl

theorem nextTurn_visiting (f : Frame J) : (nextTurn f).visiting = f.rest := by
  unfold nextTurn
  split
  · next hr => exact hr.symm
  · next hr => exact hr.symm

/-- The two statuses of a job that is not done. -/
def JobStatus.unfinished : JobStatus → Bool
  | .pending => true
  | .processing => true
  | .done _ => false

end Locals

section Terminal

variable {C J : Type} [DecidableEq J]

/-- A step gives the job no unfinished status it did not have, does not push it, and does not
return it from `get_next_job`. -/
structure Final (s s' : State C J) (j : J) : Prop where
  status : ∀ v, v.unfinished = true → s'.redis.status.get s'.now j = some v →
    s.redis.status.get s.now j = some v
  pushed : s'.redis.pending.count j ≤ s.redis.pending.count j
  pulled : s'.log.count (.pulled j) = s.log.count (.pulled j)

/-- No client can bring the job back: it is not pending, no live client is about to return or
push it, and it has no backup that a reclaimer could find. -/
structure Quiet (s : State C J) (j : J) : Prop where
  pending : j ∉ s.redis.pending
  pulling : ∀ c, (s.clients c).alive = true → (s.clients c).pc.pulling ≠ some j
  pushing : ∀ c, (s.clients c).alive = true → (s.clients c).pc.pushing ≠ some j
  backup : s.redis.backup.get s.now j = none ∨ (j ∉ s.redis.processing ∧
    ∀ c, (s.clients c).alive = true → j ∉ (s.clients c).pc.visiting)

instance [Fintype C] (s : State C J) (j : J) : Decidable (Quiet s j) :=
  decidable_of_iff
    (j ∉ s.redis.pending ∧
      (∀ c, (s.clients c).alive = true → (s.clients c).pc.pulling ≠ some j) ∧
      (∀ c, (s.clients c).alive = true → (s.clients c).pc.pushing ≠ some j) ∧
      (s.redis.backup.get s.now j = none ∨ (j ∉ s.redis.processing ∧
        ∀ c, (s.clients c).alive = true → j ∉ (s.clients c).pc.visiting)))
    ⟨fun ⟨h₁, h₂, h₃, h₄⟩ ↦ ⟨h₁, h₂, h₃, h₄⟩,
      fun ⟨h₁, h₂, h₃, h₄⟩ ↦ ⟨h₁, h₂, h₃, h₄⟩⟩

/-- The last command of `complete_job` runs only on a job that no client can bring back. -/
def QuietReturns (s : State C J) : Action C J → Prop
  | .command c =>
    match (s.clients c).pc with
    | .complete j _ .started => Quiet s j
    | _ => True
  | _ => True

instance decidableQuietReturn [Fintype C] (s : State C J) : (pc : Pc J) →
    Decidable (match pc with
      | .complete j _ .started => Quiet s j
      | _ => True)
  | .idle | .create _ _ | .next _ | .members | .reclaim _ _ _ => instDecidableTrue
  | .complete _ _ (.result _) | .complete _ _ .status | .complete _ _ .remove
  | .complete _ _ .backup => instDecidableTrue
  | .complete j _ .started => inferInstanceAs (Decidable (Quiet s j))

instance [Fintype C] (s : State C J) : (a : Action C J) → Decidable (QuietReturns s a)
  | .command c => decidableQuietReturn s (s.clients c).pc
  | .call _ _ | .scan _ _ | .error _ | .crash _ | .tick _ => instDecidableTrue

variable [DecidableEq C]

/-- A reclaimer that read the backup before `complete_job` deleted it pushes the job after
`complete_job` has returned. -/
theorem not_final : ¬ ∀ s a s' j,
    (system (⟨fun _ ↦ 3600, fun _ ↦ true⟩ : Config (Fin 2) Nat)).Reach s → .completed j ∈ s.log →
    step ⟨fun _ ↦ 3600, fun _ ↦ true⟩ s a = some s' → Final s s' j := by
  obtain ⟨s, hs, hdone, hpush⟩ := System.exists_reachWhen
    (system (⟨fun _ ↦ 3600, fun _ ↦ true⟩ : Config (Fin 2) Nat)) System.always
    (fun s ↦ Event.completed 7 ∈ s.log ∧
      (step ⟨fun _ ↦ 3600, fun _ ↦ true⟩ s (.command 1)).any fun s' ↦
        s.redis.pending.count 7 < s'.redis.pending.count 7)
    [.call 0 (.create 7 (.obj [])), .command 0, .command 0, .command 0,
      .call 0 .next, .command 0, .command 0, .command 0, .command 0, .command 0, .command 0,
      .tick 3600000, .call 1 .reclaim, .scan 1 [7], .command 1, .command 1,
      .call 0 (.complete 7 (.obj []) "success"), .command 0, .command 0, .command 0, .command 0,
      .command 0, .command 1, .command 1]
    rfl (by decide)
  obtain ⟨s', hs', hlt⟩ := (Option.any_eq_true _ _).mp hpush
  intro h
  have hle := (h s _ s' 7 hs hdone hs').pushed
  have hlt := of_decide_eq_true hlt
  omega

/-! ### Commands of a client that neither returns nor pushes the job -/

section Command

variable {valid : J → Bool} {ttl now : Nat} {r : Redis J} {pc : Pc J} {o : Outcome J} {j : J}

/-- What such a command leaves as it was. -/
structure Leaves (r : Redis J) (now : Nat) (o : Outcome J) (j : J) : Prop where
  pending : o.redis.pending.count j ≤ r.pending.count j
  processing : j ∈ o.redis.processing → j ∈ r.processing
  backup : ∀ t, o.redis.backup.get now j = some t → r.backup.get now j = some t
  status : ∀ v, v.unfinished = true → o.redis.status.get now j = some v →
    r.status.get now j = some v
  event : o.event ≠ some (.pulled j)

omit [DecidableEq J] in
/-- A command that leaves Redis alone leaves every job alone. -/
theorem leaves_of_redis_eq [DecidableEq J] (hr : o.redis = r) (he : o.event ≠ some (.pulled j)) :
    Leaves r now o j := by
  refine ⟨?_, ?_, ?_, ?_, he⟩ <;> simp [hr]

/-- A write for another job, or an unfinished status that is not written, is not seen. -/
theorem status_setex_left {m : Keys J JobStatus} {i : J} {w : JobStatus}
    (h : i = j → w.unfinished = false) (v : JobStatus) (hv : v.unfinished = true)
    (hget : (m.setex now i ttl w).get now j = some v) : m.get now j = some v := by
  by_cases hij : j = i
  · subst hij
    rw [Keys.get_setex_self] at hget
    split at hget
    · cases hget
      rw [h rfl] at hv
      cases hv
    · cases hget
  · rwa [Keys.get_setex_of_ne m now now hij] at hget

/-- Only a client on the way to return a job returns it. -/
theorem command_pulled (h : command valid ttl now r pc = some o)
    (hj : o.event = some (.pulled j)) : pc.pulling = some j := by
  cases pc with
  | idle | members => cases h
  | create i p =>
    cases h
    cases p <;> cases hj
  | complete i label p =>
    cases h
    cases p <;> cases hj
  | next p =>
    cases h
    cases p with
    | pop =>
      simp only [getNextJob] at hj
      split at hj <;> cases hj
    | started i t =>
      cases hj
      rfl
    | data | expired | corrupt | add | status | backup => cases hj
  | reclaim f i p =>
    cases h
    cases p <;> cases hj

/-- A client that neither returns nor pushes a job leaves it as it was. -/
theorem command_leaves (h : command valid ttl now r pc = some o) (hpull : pc.pulling ≠ some j)
    (hpush : pc.pushing ≠ some j) : Leaves r now o j := by
  have hevent : o.event ≠ some (.pulled j) := fun hj ↦ hpull (command_pulled h hj)
  cases pc with
  | idle | members => cases h
  | create i p =>
    cases h
    have hij : i ≠ j := fun hi ↦ hpush (congrArg some hi)
    cases p with
    | data => exact ⟨le_rfl, id, fun _ ↦ id, fun _ _ ↦ id, hevent⟩
    | status =>
      exact ⟨le_rfl, id, fun _ ↦ id, status_setex_left fun hi ↦ absurd hi hij, hevent⟩
    | push =>
      refine ⟨?_, id, fun _ ↦ id, fun _ _ ↦ id, hevent⟩
      simp [createJob, hij]
  | complete i label p =>
    cases h
    cases p with
    | result | started => exact ⟨le_rfl, id, fun _ ↦ id, fun _ _ ↦ id, hevent⟩
    | status => exact ⟨le_rfl, id, fun _ ↦ id, status_setex_left fun _ ↦ rfl, hevent⟩
    | remove => exact ⟨le_rfl, Finset.mem_of_mem_erase, fun _ ↦ id, fun _ _ ↦ id, hevent⟩
    | backup =>
      refine ⟨le_rfl, id, ?_, fun _ _ ↦ id, hevent⟩
      intro t ht
      by_cases hji : j = i
      · rw [hji] at ht
        simp [completeJob] at ht
      · rwa [completeJob, Keys.get_del_of_ne _ _ hji] at ht
  | next p =>
    cases h
    cases p with
    | pop =>
      simp only [getNextJob] at hevent ⊢
      cases hp : r.pending with
      | nil =>
        rw [hp] at hevent
        exact leaves_of_redis_eq rfl hevent
      | cons i rest =>
        rw [hp] at hevent
        refine ⟨?_, id, fun _ ↦ id, fun _ _ ↦ id, hevent⟩
        rw [hp]
        exact List.count_le_count_cons
    | data i => exact leaves_of_redis_eq rfl hevent
    | expired i | corrupt i => exact ⟨le_rfl, id, fun _ ↦ id, fun _ _ ↦ id, hevent⟩
    | add i t =>
      have hij : i ≠ j := fun hi ↦ hpull (congrArg some hi)
      refine ⟨le_rfl, ?_, fun _ ↦ id, fun _ _ ↦ id, hevent⟩
      intro hj
      rcases Finset.mem_insert.mp hj with hj | hj
      · exact absurd hj.symm hij
      · exact hj
    | status i t =>
      have hij : i ≠ j := fun hi ↦ hpull (congrArg some hi)
      exact ⟨le_rfl, id, fun _ ↦ id, status_setex_left fun hi ↦ absurd hi hij, hevent⟩
    | backup i t =>
      have hij : i ≠ j := fun hi ↦ hpull (congrArg some hi)
      refine ⟨le_rfl, id, ?_, fun _ _ ↦ id, hevent⟩
      intro u hu
      rwa [getNextJob, Keys.get_setex_of_ne _ _ _ hij.symm] at hu
    | started i t => exact ⟨le_rfl, id, fun _ ↦ id, fun _ _ ↦ id, hevent⟩
  | reclaim f i p =>
    cases h
    cases p with
    | «exists» => exact leaves_of_redis_eq rfl hevent
    | backup => exact leaves_of_redis_eq rfl hevent
    | restore | dropStarted => exact ⟨le_rfl, id, fun _ ↦ id, fun _ _ ↦ id, hevent⟩
    | status =>
      have hij : i ≠ j := fun hi ↦ hpush (congrArg some hi)
      exact ⟨le_rfl, id, fun _ ↦ id, status_setex_left fun hi ↦ absurd hi hij, hevent⟩
    | push =>
      have hij : i ≠ j := fun hi ↦ hpush (congrArg some hi)
      refine ⟨?_, id, fun _ ↦ id, fun _ _ ↦ id, hevent⟩
      simp [reclaimStaleJob, hij]
    | remove | zombie => exact ⟨le_rfl, Finset.mem_of_mem_erase, fun _ ↦ id, fun _ _ ↦ id, hevent⟩
    | dropBackup =>
      refine ⟨le_rfl, id, ?_, fun _ _ ↦ id, hevent⟩
      intro t ht
      by_cases hji : j = i
      · rw [hji] at ht
        simp [reclaimStaleJob] at ht
      · rwa [reclaimStaleJob, Keys.get_del_of_ne _ _ hji] at ht

/-- A client gets on the way to return a job only by popping it. -/
theorem command_pulling (h : command valid ttl now r pc = some o) (hj : o.pc.pulling = some j) :
    pc.pulling = some j ∨ j ∈ r.pending := by
  cases pc with
  | idle | members => cases h
  | create i p =>
    cases h
    cases p <;> cases hj
  | complete i label p =>
    cases h
    cases p <;> cases hj
  | next p =>
    cases h
    cases p with
    | pop =>
      right
      simp only [getNextJob] at hj
      cases hp : r.pending with
      | nil =>
        rw [hp] at hj
        cases hj
      | cons i rest =>
        simp only [hp] at hj
        split at hj <;> cases hj
        exact List.mem_cons_self
    | data i =>
      left
      simp only [getNextJob] at hj
      split at hj
      · cases hj
      · split at hj <;> cases hj
        rfl
    | expired | corrupt | started => cases hj
    | add | status | backup => exact .inl hj
  | reclaim f i p =>
    cases h
    cases p with
    | «exists» =>
      simp only [reclaimStaleJob] at hj
      split at hj
      · rw [nextTurn_pulling] at hj
        cases hj
      · cases hj
    | backup =>
      simp only [reclaimStaleJob] at hj
      split at hj <;> cases hj
    | dropStarted | zombie =>
      simp only [reclaimStaleJob, nextTurn_pulling] at hj
      cases hj
    | restore | status | push | remove | dropBackup => cases hj

/-- A command gives a reclaimer no further job to decide on. -/
theorem command_visiting (h : command valid ttl now r pc = some o) (hj : j ∈ o.pc.visiting) :
    j ∈ pc.visiting := by
  cases pc with
  | idle | members => cases h
  | create i p =>
    cases h
    cases p <;> cases hj
  | complete i label p =>
    cases h
    cases p <;> cases hj
  | next p =>
    cases h
    cases p with
    | pop =>
      simp only [getNextJob] at hj
      split at hj
      · cases hj
      · dsimp only at hj
        split at hj <;> cases hj
    | data i =>
      simp only [getNextJob] at hj
      split at hj
      · cases hj
      · split at hj <;> cases hj
    | expired | corrupt | add | status | backup | started => cases hj
  | reclaim f i p =>
    cases h
    cases p with
    | «exists» =>
      simp only [reclaimStaleJob] at hj
      split at hj
      · rw [nextTurn_visiting] at hj
        exact List.mem_cons_of_mem _ hj
      · exact hj
    | backup =>
      simp only [reclaimStaleJob] at hj
      split at hj <;> exact List.mem_cons_of_mem _ hj
    | dropStarted | zombie =>
      simp only [reclaimStaleJob, nextTurn_visiting] at hj
      exact hj
    | restore | status | push | remove | dropBackup => exact hj

end Command

/-! ### The invariant of runs whose completions are quiet -/

variable {cfg : Config C J} {s s' : State C J} {a : Action C J} {j : J}

omit [DecidableEq J] in
/-- Replacing a client's state by one that cannot bring the job back keeps it quiet. -/
theorem Quiet.setClient (h : Quiet s j) {c : C} {cl : Client J} {log : List (Event J)}
    (hpull : cl.alive = true → cl.pc.pulling = some j →
      (s.clients c).alive = true ∧ (s.clients c).pc.pulling = some j)
    (hpush : cl.alive = true → cl.pc.pushing = some j →
      (s.clients c).alive = true ∧ (s.clients c).pc.pushing = some j)
    (hvisit : cl.alive = true → j ∈ cl.pc.visiting → j ∈ s.redis.processing ∨
      ((s.clients c).alive = true ∧ j ∈ (s.clients c).pc.visiting)) :
    Quiet { s.setClient c cl with log := log } j := by
  refine ⟨h.pending, ?_, ?_, ?_⟩
  · intro x hx hpx
    by_cases hxc : x = c
    · subst hxc
      simp only [State.setClient, Function.update_self] at hx hpx
      have hold := hpull hx hpx
      exact h.pulling x hold.1 hold.2
    · simp only [State.setClient, Function.update_of_ne hxc] at hx hpx
      exact h.pulling x hx hpx
  · intro x hx hpx
    by_cases hxc : x = c
    · subst hxc
      simp only [State.setClient, Function.update_self] at hx hpx
      have hold := hpush hx hpx
      exact h.pushing x hold.1 hold.2
    · simp only [State.setClient, Function.update_of_ne hxc] at hx hpx
      exact h.pushing x hx hpx
  · rcases h.backup with hb | ⟨hproc, hno⟩
    · exact .inl hb
    · refine .inr ⟨hproc, ?_⟩
      intro x hx hvx
      by_cases hxc : x = c
      · subst hxc
        simp only [State.setClient, Function.update_self] at hx hvx
        rcases hvisit hx hvx with hj | hold
        · exact hproc hj
        · exact hno x hold.1 hold.2
      · simp only [State.setClient, Function.update_of_ne hxc] at hx hvx
        exact hno x hx hvx

omit [DecidableEq J] in
/-- A client that is not on the way to a job leaves it quiet. -/
theorem Quiet.setClient_of_away (h : Quiet s j) {c : C} {cl : Client J} {log : List (Event J)}
    (hpull : cl.pc.pulling = none) (hpush : cl.pc.pushing = none) (hvisit : cl.pc.visiting = []) :
    Quiet { s.setClient c cl with log := log } j := by
  apply h.setClient
  · intro _ hj
    rw [hpull] at hj
    cases hj
  · intro _ hj
    rw [hpush] at hj
    cases hj
  · intro _ hj
    rw [hvisit] at hj
    cases hj

omit [DecidableEq C] in
/-- A step that leaves Redis, the clock and the history of the job alone is final for it. -/
theorem final_of_redis_eq (hr : s'.redis = s.redis) (hn : s.now ≤ s'.now)
    (hl : s'.log.count (.pulled j) = s.log.count (.pulled j)) : Final s s' j := by
  refine ⟨?_, ?_, hl⟩
  · intro v _ hv
    rw [hr] at hv
    exact Keys.get_eq_some_of_le hn hv
  · rw [hr]

/-- A command of any client leaves a quiet job quiet, and is final for it. -/
theorem Quiet.command (h : Quiet s j) {c : C} {o : Outcome J}
    (halive : (s.clients c).alive = true)
    (runs : command cfg.validateJobId (cfg.jobTtl c) s.now s.redis (s.clients c).pc = some o) :
    Quiet (s.after c o) j ∧ Final s (s.after c o) j := by
  have hleft := command_leaves runs (h.pulling c halive) (h.pushing c halive)
  have hnext : Quiet (s.after c o) j := by
    refine ⟨?_, ?_, ?_, ?_⟩
    · have hcount := hleft.pending
      rw [List.count_eq_zero_of_not_mem h.pending, Nat.le_zero] at hcount
      exact List.count_eq_zero.mp hcount
    · intro x hx hpx
      by_cases hxc : x = c
      · subst hxc
        rcases command_pulling runs (by simpa [State.after] using hpx) with hp | hp
        · exact h.pulling x halive hp
        · exact h.pending hp
      · simp only [State.after, Function.update_of_ne hxc] at hx hpx
        exact h.pulling x hx hpx
    · intro x hx hpx
      by_cases hxc : x = c
      · subst hxc
        rcases command_pushing runs (by simpa [State.after] using hpx) with hp | ⟨f, hp, htext⟩
        · exact h.pushing x halive hp.1
        · -- a reclaimer that reads the backup finds none
          rcases h.backup with hb | ⟨-, hno⟩
          · simp [readText, hb] at htext
          · exact hno x halive (by simp [hp, Pc.visiting])
      · simp only [State.after, Function.update_of_ne hxc] at hx hpx
        exact h.pushing x hx hpx
    · rcases h.backup with hb | ⟨hproc, hno⟩
      · left
        apply Option.eq_none_iff_forall_ne_some.mpr
        intro t ht
        rw [hleft.backup t ht] at hb
        cases hb
      · refine .inr ⟨fun hj ↦ hproc (hleft.processing hj), ?_⟩
        intro x hx hvx
        by_cases hxc : x = c
        · subst hxc
          exact hno x halive (command_visiting runs (by simpa [State.after] using hvx))
        · simp only [State.after, Function.update_of_ne hxc] at hx hvx
          exact hno x hx hvx
  refine ⟨hnext, hleft.status, hleft.pending, ?_⟩
  have hzero : o.event.toList.count (.pulled j) = 0 := by
    rw [List.count_eq_zero]
    simpa using hleft.event
  simp only [State.after, List.count_append, hzero, Nat.zero_add]

/-- A step of any client leaves a quiet job quiet, and is final for it. -/
theorem Quiet.step (h : Quiet s j) (hc : .issued j ∈ s.log)
    (hs : step cfg s a = some s') : Quiet s' j ∧ Final s s' j := by
  cases step_cases hs with
  | @create c i jobData alive idle fresh valid =>
    have hij : i ≠ j := by
      rintro rfl
      exact fresh hc
    refine ⟨h.setClient ?_ ?_ ?_, final_of_redis_eq rfl le_rfl ?_⟩
    · intro _ hi
      cases hi
    · intro _ hi
      exact absurd (Option.some.inj hi) hij
    · intro _ hi
      cases hi
    · simp
  | next alive idle | reclaim alive idle =>
    exact ⟨h.setClient_of_away rfl rfl rfl, final_of_redis_eq rfl le_rfl rfl⟩
  | complete alive idle created =>
    exact ⟨h.setClient_of_away rfl rfl rfl, final_of_redis_eq rfl le_rfl rfl⟩
  | command alive runs => exact h.command alive runs
  | @scan c jobIds alive atScan nodup members =>
    refine ⟨h.setClient ?_ ?_ ?_, final_of_redis_eq rfl le_rfl rfl⟩
    · intro _ hj
      rw [nextTurn_pulling] at hj
      cases hj
    · intro _ hj
      rw [nextTurn_pushing] at hj
      cases hj
    · intro _ hj
      rw [nextTurn_visiting] at hj
      rw [← members]
      exact .inl (List.mem_toFinset.mpr hj)
  | @error c pc alive raises =>
    rcases afterError_cases raises with rfl | ⟨f, i, p, hpc, rfl⟩
    · exact ⟨h.setClient_of_away rfl rfl rfl, final_of_redis_eq rfl le_rfl rfl⟩
    · refine ⟨h.setClient ?_ ?_ ?_, final_of_redis_eq rfl le_rfl rfl⟩
      · intro _ hj
        rw [nextTurn_pulling] at hj
        cases hj
      · intro _ hj
        rw [nextTurn_pushing] at hj
        cases hj
      · intro _ hj
        rw [nextTurn_visiting] at hj
        refine .inr ⟨alive, ?_⟩
        rw [hpc]
        cases p <;> simp [Pc.visiting, hj]
  | crash alive =>
    refine ⟨h.setClient ?_ ?_ ?_, final_of_redis_eq rfl le_rfl rfl⟩ <;>
      · intro hdead
        cases hdead
  | tick =>
    refine ⟨⟨h.pending, h.pulling, h.pushing, ?_⟩, final_of_redis_eq rfl (Nat.le_add_right _ _) rfl⟩
    rcases h.backup with hb | hb
    · exact .inl (Keys.get_eq_none_of_le (Nat.le_add_right _ _) hb)
    · exact .inr hb

/-- The job of a `complete_job` that returns is the one it was called on. -/
theorem command_completed {valid : J → Bool} {ttl now : Nat} {r : Redis J} {pc : Pc J}
    {o : Outcome J} (h : command valid ttl now r pc = some o)
    (hj : o.event = some (.completed j)) : ∃ label, pc = .complete j label .started := by
  cases pc with
  | idle | members => cases h
  | create i p =>
    cases h
    cases p <;> cases hj
  | complete i label p =>
    cases h
    cases p <;> cases hj
    exact ⟨label, rfl⟩
  | next p =>
    cases h
    cases p with
    | pop =>
      simp only [getNextJob] at hj
      split at hj <;> cases hj
    | data | expired | corrupt | add | status | backup | started => cases hj
  | reclaim f i p =>
    cases h
    cases p <;> cases hj

/-- The history only grows. -/
theorem log_subset (hs : step cfg s a = some s') : s.log ⊆ s'.log := by
  cases step_cases hs with
  | create => exact List.subset_cons_self _ _
  | command => exact List.subset_append_right _ _
  | next | complete | reclaim | scan | error | crash | tick => exact List.Subset.refl _

/-- A job is completed by the last command of a `complete_job` on it. -/
theorem completed_cases (hs : step cfg s a = some s') (hj : .completed j ∈ s'.log) :
    .completed j ∈ s.log ∨
      ∃ c label, a = .command c ∧ (s.clients c).pc = .complete j label .started := by
  cases step_cases hs with
  | create => exact .inl (by simpa [State.setClient] using hj)
  | @command c o alive runs =>
    rcases List.mem_append.mp hj with hj | hj
    · obtain ⟨label, hpc⟩ := command_completed runs (by simpa using hj)
      exact .inr ⟨c, label, rfl, hpc⟩
    · exact .inl hj
  | next | complete | reclaim | scan | error | crash | tick => exact .inl hj

/-- A permitted step keeps every completed job quiet. -/
theorem quiet_step (hsound : Sound cfg s)
    (h : ∀ j, .completed j ∈ s.log → .issued j ∈ s.log ∧ Quiet s j) (hok : QuietReturns s a)
    (hs : step cfg s a = some s') (hj : .completed j ∈ s'.log) :
    .issued j ∈ s'.log ∧ Quiet s' j := by
  have hbefore : .issued j ∈ s.log ∧ Quiet s j := by
    rcases completed_cases hs hj with hj | ⟨c, label, rfl, hpc⟩
    · exact h j hj
    · have hknown : j ∈ (s.clients c).mentions := by simp [Client.mentions, hpc, Pc.mentions]
      refine ⟨hsound.issued j (hsound.mentioned c j hknown), ?_⟩
      simpa only [QuietReturns, hpc] using hok
  exact ⟨log_subset hs hbefore.1, (hbefore.2.step hbefore.1 hs).1⟩

/-- In a run whose completions are quiet, every later step is final for the completed job. -/
theorem final_of_quietReturns (h : (system cfg).ReachWhen QuietReturns s)
    (hj : .completed j ∈ s.log) (hs : step cfg s a = some s') : Final s s' j := by
  have hquiet : ∀ i, .completed i ∈ s.log → .issued i ∈ s.log ∧ Quiet s i := by
    refine h.invariant_of (P := fun t ↦ ∀ i, .completed i ∈ t.log → .issued i ∈ t.log ∧ Quiet t i)
      (fun t ht ↦ sound_of_reachWhen ht) ?_ ?_
    · intro t ht i hi
      rw [ht] at hi
      cases hi
    · intro t b t' hsound ht hok hstep i hi
      exact quiet_step hsound ht hok hstep hi
  obtain ⟨hissued, hq⟩ := hquiet j hj
  exact (hq.step hissued hs).2

/-- A worker that completes its job in time, and a reclaimer that then finds nothing. -/
theorem final_of_quietReturns_scan :
    ∃ s s' : State (Fin 2) Nat, step ⟨fun _ ↦ 3600, fun _ ↦ true⟩ s (.scan 1 []) = some s' ∧
      Final s s' 7 := by
  obtain ⟨s, hs, hdone, hnext⟩ := System.exists_reachWhen
    (system (⟨fun _ ↦ 3600, fun _ ↦ true⟩ : Config (Fin 2) Nat)) QuietReturns
    (fun s ↦ Event.completed 7 ∈ s.log ∧
      (step ⟨fun _ ↦ 3600, fun _ ↦ true⟩ s (.scan 1 [])).isSome)
    [.call 0 (.create 7 (.obj [])), .command 0, .command 0, .command 0,
      .call 0 .next, .command 0, .command 0, .command 0, .command 0, .command 0, .command 0,
      .call 0 (.complete 7 (.obj []) "success"), .command 0, .command 0, .command 0, .command 0,
      .command 0, .call 1 .reclaim]
    rfl (by decide)
  obtain ⟨s', hs'⟩ := Option.isSome_iff_exists.mp hnext
  exact ⟨s, s', hs', final_of_quietReturns hs hdone hs'⟩

end Terminal

end GithubAgent.Queue
