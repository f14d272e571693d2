import GithubAgent.Queue.Issued

/-!
# Which jobs are lost

A job that `create_job` made and that has no result is lost when Redis and the clients have
forgotten it. `get_next_job` takes the id out of the pending list before it records it in the
processing set, and the reclaimer takes an id out of the processing set without looking
whether a worker has just put it there; each is one command wide.
-/

namespace GithubAgent.Queue

open GithubAgent.Base

section Locals

variable {J : Type}

/-- The job popped by a `get_next_job` that has neither recorded it nor given it up. -/
def Pc.popped : Pc J → Option J
  | .next (.data j) => some j
  | .next (.expired j) => some j
  | .next (.corrupt j) => some j
  | .next (.add j _) => some j
  | _ => none

/-- The job a client is about to add to the processing set. -/
def Pc.adding : Pc J → Option J
  | .next (.add j _) => some j
  | _ => none

/-- The job a reclaimer has re-queued and is about to take out of the processing set. -/
def Pc.removing : Pc J → Option J
  | .reclaim _ j .remove => some j
  | _ => none

/-- The job without a backup that a reclaimer is about to take out of the processing set. -/
def Pc.abandoning : Pc J → Option J
  | .reclaim _ j .zombie => some j
  | _ => none

/-- The job whose result a `complete_job` has stored. -/
def Pc.storing : Pc J → Option J
  | .complete _ _ (.result _) => none
  | .complete j _ _ => some j
  | _ => none

/-- The job ids in the locals of a client inside `get_next_job` or `reclaim_stale_jobs`. -/
def Pc.inside : Pc J → List J
  | .next p => p.hand.toList
  | .reclaim f j _ => j :: f.jobIds
  | _ => []

theorem nextTurn_removing (f : Frame J) : (nextTurn f).removing = none := by
  unfold nextTurn
  split <;> rfl

theorem nextTurn_storing (f : Frame J) : (nextTurn f).storing = none := by
  unfold nextTurn
  split <;> rfl

theorem mem_inside_of_popped {pc : Pc J} {j : J} (h : pc.popped = some j) : j ∈ pc.inside := by
  cases pc with
  | next p =>
    cases p with
    | data i | expired i | corrupt i | add i t =>
      cases h
      simp [Pc.inside, NextPc.hand]
    | pop | status | backup | started => cases h
  | idle | create | complete | members | reclaim => cases h

end Locals

section Loss

variable {C J : Type}

/-- A dead-letter entry of the job. -/
def Redis.Dead (r : Redis J) (j : J) : Prop := ∃ d ∈ r.deadLetter, d.jobId = j

/-- The job is in the pending list, the processing set, the dead-letter list or the locals of
a live client inside `get_next_job` or `reclaim_stale_jobs`. -/
def Tracked (s : State C J) (j : J) : Prop :=
  j ∈ s.redis.pending ∨ j ∈ s.redis.processing ∨ s.redis.Dead j ∨
    ∃ c, (s.clients c).alive = true ∧ j ∈ (s.clients c).pc.inside

variable [DecidableEq C] [DecidableEq J]

instance (r : Redis J) (j : J) : Decidable (r.Dead j) :=
  inferInstanceAs (Decidable (∃ d ∈ r.deadLetter, d.jobId = j))

instance [Fintype C] (s : State C J) (j : J) : Decidable (Tracked s j) :=
  inferInstanceAs (Decidable (_ ∨ _ ∨ _ ∨ _))

/-- Every created job without a stored result is tracked in every reachable state. -/
def NoJobLost (cfg : Config C J) : Prop :=
  ∀ s, (system cfg).Reach s → ∀ j, .created j ∈ s.log → .stored j ∉ s.log → Tracked s j

/-- A worker that crashes after its `BLPOP` takes the job with it. -/
theorem not_noJobLost : ¬ NoJobLost (⟨fun _ ↦ 3600, fun _ ↦ true⟩ : Config (Fin 1) Nat) := by
  obtain ⟨s, hs, hc, hn, hlost⟩ := System.exists_reachWhen
    (system (⟨fun _ ↦ 3600, fun _ ↦ true⟩ : Config (Fin 1) Nat)) System.always
    (fun s ↦ Event.created 7 ∈ s.log ∧ Event.stored 7 ∉ s.log ∧ ¬ Tracked s 7)
    [.call 0 (.create 7 (.obj [])), .command 0, .command 0, .command 0,
      .call 0 .next, .command 0, .crash 0]
    rfl (by decide)
  intro h
  exact hlost (h s hs 7 hc hn)

/-- No client fails with a job it popped and has not recorded, no worker records a job that a
reclaimer has re-queued and is about to remove, and no reclaimer removes a job for want of a
backup; jobs with a stored result are exempt. -/
def KeepsJobs (s : State C J) : Action C J → Prop
  | .crash c => ∀ j ∈ (s.clients c).pc.popped, .stored j ∈ s.log
  | .error c => ∀ j ∈ (s.clients c).pc.popped, .stored j ∈ s.log
  | .command c =>
    (∀ j ∈ (s.clients c).pc.adding, .stored j ∈ s.log ∨
      ∀ c', (s.clients c').alive = true → j ∉ (s.clients c').pc.removing) ∧
    ∀ j ∈ (s.clients c).pc.abandoning, .stored j ∈ s.log
  | _ => True

instance [Fintype C] (s : State C J) : (a : Action C J) → Decidable (KeepsJobs s a)
  | .call _ _ => .isTrue trivial
  | .command _ => inferInstanceAs (Decidable (_ ∧ _))
  | .scan _ _ => .isTrue trivial
  | .error _ => inferInstanceAs (Decidable (∀ j ∈ _, _))
  | .crash _ => inferInstanceAs (Decidable (∀ j ∈ _, _))
  | .tick _ => .isTrue trivial

/-- The job waits in the pending list, was given up, or is popped and not yet recorded. -/
def InTransit (s : State C J) (j : J) : Prop :=
  j ∈ s.redis.pending ∨ s.redis.Dead j ∨
    ∃ c, (s.clients c).alive = true ∧ (s.clients c).pc.popped = some j

/-! ### What a command does to the traces of a job -/

section Command

variable {valid : J → Bool} {ttl now : Nat} {r : Redis J} {pc : Pc J} {o : Outcome J} {j : J}

/-- A command leaves a job in transit, unless it records the job in the processing set. -/
theorem command_transit (h : command valid ttl now r pc = some o) (hv : valid j = true)
    (hadd : pc.adding ≠ some j) (hj : j ∈ r.pending ∨ r.Dead j ∨ pc.popped = some j) :
    j ∈ o.redis.pending ∨ o.redis.Dead j ∨ o.pc.popped = some j := by
  cases pc with
  | idle | members => cases h
  | create i p =>
    cases h
    rcases hj with hj | hj | hj
    · left
      cases p <;> first | exact hj | exact List.mem_append_left _ hj
    · cases p <;> exact .inr (.inl hj)
    · cases hj
  | complete i label p =>
    cases h
    rcases hj with hj | hj | hj
    · cases p <;> exact .inl hj
    · cases p <;> exact .inr (.inl hj)
    · cases hj
  | reclaim f i p =>
    cases h
    rcases hj with hj | hj | hj
    · left
      cases p <;> first | exact hj | exact List.mem_append_left _ hj
    · cases p <;> exact .inr (.inl hj)
    · cases hj
  | next p =>
    cases h
    cases p with
    | pop =>
      simp only [getNextJob]
      rcases hj with hj | hj | hj
      · cases hp : r.pending with
        | nil =>
          rw [hp] at hj
          cases hj
        | cons i rest =>
          rw [hp] at hj
          rcases List.mem_cons.mp hj with rfl | hj
          · right
            right
            simp [hv, Pc.popped]
          · exact .inl hj
      · right
        left
        split <;> exact hj
      · cases hj
    | data i =>
      rcases hj with hj | hj | hj
      · exact .inl hj
      · exact .inr (.inl hj)
      · right
        right
        simp only [getNextJob]
        split
        · exact hj
        · split <;> exact hj
    | expired i | corrupt i =>
      rcases hj with hj | ⟨d, hd, hdj⟩ | hj
      · exact .inl hj
      · exact .inr (.inl ⟨d, List.mem_append_left _ hd, hdj⟩)
      · exact .inr (.inl ⟨_, List.mem_append_right _ (List.mem_singleton_self _), Option.some.inj hj⟩)
    | add i t =>
      rcases hj with hj | hj | hj
      · exact .inl hj
      · exact .inr (.inl hj)
      · exact absurd hj hadd
    | status i t | backup i t | started i t =>
      rcases hj with hj | hj | hj
      · exact .inl hj
      · exact .inr (.inl hj)
      · cases hj

/-- A job leaves the processing set only by one of the three removals. -/
theorem command_keeps_processing (h : command valid ttl now r pc = some o)
    (hj : j ∈ r.processing) :
    j ∈ o.redis.processing ∨ pc.storing = some j ∨ pc.removing = some j ∨
      pc.abandoning = some j := by
  cases pc with
  | idle | members => cases h
  | create i p =>
    cases h
    cases p <;> exact .inl hj
  | complete i label p =>
    cases h
    cases p with
    | remove =>
      by_cases hji : j = i
      · exact .inr (.inl (hji ▸ rfl))
      · exact .inl (Finset.mem_erase.mpr ⟨hji, hj⟩)
    | result | status | backup | started => exact .inl hj
  | next p =>
    cases h
    cases p with
    | pop =>
      left
      simp only [getNextJob]
      split <;> exact hj
    | add i t => exact .inl (Finset.mem_insert_of_mem hj)
    | data | expired | corrupt | status | backup | started => exact .inl hj
  | reclaim f i p =>
    cases h
    cases p with
    | remove =>
      by_cases hji : j = i
      · exact .inr (.inr (.inl (hji ▸ rfl)))
      · exact .inl (Finset.mem_erase.mpr ⟨hji, hj⟩)
    | zombie =>
      by_cases hji : j = i
      · exact .inr (.inr (.inr (hji ▸ rfl)))
      · exact .inl (Finset.mem_erase.mpr ⟨hji, hj⟩)
    | «exists» | backup | restore | status | push | dropBackup | dropStarted => exact .inl hj

/-- The client that records a job puts it into the processing set. -/
theorem command_adding (h : command valid ttl now r pc = some o) (hj : pc.adding = some j) :
    j ∈ o.redis.processing := by
  cases pc with
  | next p =>
    cases p <;> cases hj
    cases h
    exact Finset.mem_insert_self _ _
  | idle | create | complete | members | reclaim => cases hj

/-- A reclaimer about to remove a job has just pushed it. -/
theorem command_removing (h : command valid ttl now r pc = some o) (hj : o.pc.removing = some j) :
    j ∈ o.redis.pending := by
  cases pc with
  | idle | members => cases h
  | create i p =>
    cases h
    cases p <;> cases hj
  | complete i label p =>
    cases h
    cases p <;> cases hj
  | next p =>
    cases h
    cases p with
    | pop =>
      simp only [getNextJob] at hj
      split at hj
      · cases hj
      · dsimp only at hj
        split at hj <;> cases hj
    | data i =>
      simp only [getNextJob] at hj
      split at hj
      · cases hj
      · split at hj <;> cases hj
    | expired | corrupt | add | status | backup | started => cases hj
  | reclaim f i p =>
    cases h
    cases p with
    | push =>
      cases hj
      exact List.mem_append_right _ (List.mem_singleton_self _)
    | «exists» =>
      simp only [reclaimStaleJob] at hj
      split at hj
      · rw [nextTurn_removing] at hj
        cases hj
      · cases hj
    | backup =>
      simp only [reclaimStaleJob] at hj
      split at hj <;> cases hj
    | dropStarted | zombie =>
      simp only [reclaimStaleJob, nextTurn_removing] at hj
      cases hj
    | restore | status | remove | dropBackup => cases hj

/-- A client past the first command of `complete_job` has stored the result. -/
theorem command_storing (h : command valid ttl now r pc = some o) (hj : o.pc.storing = some j) :
    pc.storing = some j ∨ o.event = some (.stored j) := by
  cases pc with
  | idle | members => cases h
  | create i p =>
    cases h
    cases p <;> cases hj
  | complete i label p =>
    cases h
    cases p with
    | result value =>
      cases hj
      exact .inr rfl
    | started => cases hj
    | status | remove | backup => exact .inl hj
  | next p =>
    cases h
    cases p with
    | pop =>
      simp only [getNextJob] at hj
      split at hj
      · cases hj
      · dsimp only at hj
        split at hj <;> cases hj
    | data i =>
      simp only [getNextJob] at hj
      split at hj
      · cases hj
      · split at hj <;> cases hj
    | expired | corrupt | add | status | backup | started => cases hj
  | reclaim f i p =>
    cases h
    cases p with
    | «exists» =>
      simp only [reclaimStaleJob] at hj
      split at hj
      · rw [nextTurn_storing] at hj
        cases hj
      · cases hj
    | backup =>
      simp only [reclaimStaleJob] at hj
      split at hj <;> cases hj
    | dropStarted | zombie =>
      simp only [reclaimStaleJob, nextTurn_storing] at hj
      cases hj
    | restore | status | push | remove | dropBackup => cases hj

/-- The command that creates a job pushes it. -/
theorem command_created_pending (h : command valid ttl now r pc = some o)
    (hj : o.event = some (.created j)) : j ∈ o.redis.pending := by
  obtain ⟨hpc, -⟩ := command_created h hj
  cases pc with
  | create i p =>
    cases h
    cases p <;> cases hj
    exact List.mem_append_right _ (List.mem_singleton_self _)
  | idle | complete | next | members | reclaim => cases hpc

end Command

/-! ### The invariant of runs that keep their jobs -/

variable {cfg : Config C J} {s s' : State C J}

/-- Where a job without a result stands: recorded or in transit, and in transit while a
reclaimer is about to take it out of the processing set. -/
structure Kept (s : State C J) : Prop where
  covered : ∀ j, .created j ∈ s.log → .stored j ∉ s.log → InTransit s j ∨ j ∈ s.redis.processing
  removing : ∀ c j, (s.clients c).alive = true → (s.clients c).pc.removing = some j →
    .created j ∈ s.log → .stored j ∉ s.log → InTransit s j
  storing : ∀ c j, (s.clients c).pc.storing = some j → .stored j ∈ s.log

omit [DecidableEq C] [DecidableEq J] in
theorem kept_initial : Kept (initial : State C J) := by
  constructor <;> simp [initial, Pc.storing]

omit [DecidableEq C] [DecidableEq J] in
/-- A recorded job and a job in transit are tracked. -/
theorem Kept.tracked (h : Kept s) {j : J} (hc : .created j ∈ s.log) (hn : .stored j ∉ s.log) :
    Tracked s j := by
  rcases h.covered j hc hn with (hp | hd | ⟨c, halive, hpop⟩) | hproc
  · exact .inl hp
  · exact .inr (.inr (.inl hd))
  · exact .inr (.inr (.inr ⟨c, halive, mem_inside_of_popped hpop⟩))
  · exact .inr (.inl hproc)

omit [DecidableEq J] in
/-- Replacing a client's state keeps the invariant, when it gives up no popped job without a
result and enters none of the windows. -/
theorem Kept.setClient (h : Kept s) {c : C} {cl : Client J} {log : List (Event J)}
    (hcreated : ∀ j, .created j ∈ log ↔ .created j ∈ s.log)
    (hstored : ∀ j, .stored j ∈ log ↔ .stored j ∈ s.log)
    (hpop : ∀ j, (s.clients c).pc.popped = some j → .stored j ∈ s.log)
    (hrem : cl.alive = true → cl.pc.removing = none)
    (hsto : ∀ j, cl.pc.storing = some j → (s.clients c).pc.storing = some j) :
    Kept { s.setClient c cl with log := log } := by
  have htransit (j : J) (hn : .stored j ∉ s.log) (hj : InTransit s j) :
      InTransit { s.setClient c cl with log := log } j := by
    rcases hj with hj | hj | ⟨x, halive, hx⟩
    · exact .inl hj
    · exact .inr (.inl hj)
    · have hxc : x ≠ c := by
        rintro rfl
        exact hn (hpop j hx)
      refine .inr (.inr ⟨x, ?_, ?_⟩)
      · simpa [State.setClient, hxc] using halive
      · simpa [State.setClient, hxc] using hx
  refine ⟨?_, ?_, ?_⟩
  · intro j hc hn
    rw [hcreated] at hc
    rw [hstored] at hn
    rcases h.covered j hc hn with hj | hj
    · exact .inl (htransit j hn hj)
    · exact .inr hj
  · intro x j halive hx hc hn
    rw [hcreated] at hc
    rw [hstored] at hn
    by_cases hxc : x = c
    · subst hxc
      simp only [State.setClient, Function.update_self] at halive hx
      rw [hrem halive] at hx
      cases hx
    · simp only [State.setClient, Function.update_of_ne hxc] at halive hx
      exact htransit j hn (h.removing x j halive hx hc hn)
  · intro x j hx
    rw [hstored]
    by_cases hxc : x = c
    · subst hxc
      exact h.storing x j (hsto j (by simpa [State.setClient] using hx))
    · exact h.storing x j (by simpa [State.setClient, hxc] using hx)

/-- A permitted command keeps the invariant. -/
theorem Kept.command (h : Kept s) (hsound : Sound cfg s) {c : C} {o : Outcome J}
    (halive : (s.clients c).alive = true)
    (runs : command cfg.validateJobId (cfg.jobTtl c) s.now s.redis (s.clients c).pc = some o)
    (hok : KeepsJobs s (.command c)) : Kept (s.after c o) := by
  have hold (j : J) (hn : .stored j ∉ (s.after c o).log) : .stored j ∉ s.log := by
    intro hs
    exact hn (List.mem_append_right _ hs)
  -- a job in transit stays so, unless this client records it
  have htransit (j : J) (hc : .created j ∈ s.log) (hj : InTransit s j)
      (hadd : (s.clients c).pc.adding ≠ some j) : InTransit (s.after c o) j := by
    have hv := hsound.valid j (hsound.issued j hc)
    have hown (hj : j ∈ s.redis.pending ∨ s.redis.Dead j ∨ (s.clients c).pc.popped = some j) :
        InTransit (s.after c o) j := by
      rcases command_transit runs hv hadd hj with hj | hj | hj
      · exact .inl hj
      · exact .inr (.inl hj)
      · exact .inr (.inr ⟨c, by simp [State.after, halive], by simp [State.after, hj]⟩)
    rcases hj with hj | hj | ⟨x, hx, hpop⟩
    · exact hown (.inl hj)
    · exact hown (.inr (.inl hj))
    · by_cases hxc : x = c
      · subst hxc
        exact hown (.inr (.inr hpop))
      · exact .inr (.inr ⟨x, by simp [State.after, hxc, hx], by simp [State.after, hxc, hpop]⟩)
  have hcases (j : J) (hc : .created j ∈ (s.after c o).log) :
      .created j ∈ s.log ∨ j ∈ o.redis.pending := by
    rcases List.mem_append.mp hc with hc | hc
    · exact .inr (command_created_pending runs (by simpa using hc))
    · exact .inl hc
  refine ⟨?_, ?_, ?_⟩
  · intro j hc hn
    rcases hcases j hc with hc | hpend
    · by_cases hadd : (s.clients c).pc.adding = some j
      · exact .inr (command_adding runs hadd)
      · rcases h.covered j hc (hold j hn) with hj | hj
        · exact .inl (htransit j hc hj hadd)
        · rcases command_keeps_processing runs hj with hj | hj | hj | hj
          · exact .inr hj
          · exact absurd (h.storing c j hj) (hold j hn)
          · exact .inl (htransit j hc (h.removing c j halive hj hc (hold j hn)) hadd)
          · exact absurd (hok.2 j hj) (hold j hn)
    · exact .inl (.inl hpend)
  · intro x j hx hrem hc hn
    rcases hcases j hc with hc | hpend
    · by_cases hxc : x = c
      · subst hxc
        exact .inl (command_removing runs (by simpa [State.after] using hrem))
      · simp only [State.after, Function.update_of_ne hxc] at hx hrem
        refine htransit j hc (h.removing x j hx hrem hc (hold j hn)) ?_
        intro hadd
        rcases hok.1 j hadd with hs | hno
        · exact hold j hn hs
        · exact hno x hx hrem
    · exact .inl hpend
  · intro x j hx
    by_cases hxc : x = c
    · subst hxc
      rcases command_storing runs (by simpa [State.after] using hx) with hx | hx
      · exact List.mem_append_right _ (h.storing x j hx)
      · exact List.mem_append_left _ (by simp [hx])
    · exact List.mem_append_right _ (h.storing x j (by simpa [State.after, hxc] using hx))

/-- A permitted step keeps the invariant. -/
theorem Kept.step (h : Kept s) (hsound : Sound cfg s) {a : Action C J} (hok : KeepsJobs s a)
    (hs : step cfg s a = some s') : Kept s' := by
  cases step_cases hs with
  | create alive idle fresh valid =>
    apply h.setClient
    · simp
    · simp
    · simp [idle, Pc.popped]
    · intro _
      rfl
    · nofun
  | next alive idle | complete alive idle _ | reclaim alive idle =>
    refine h.setClient (fun _ ↦ .rfl) (fun _ ↦ .rfl) ?_ ?_ ?_
    · simp [idle, Pc.popped]
    · intro _
      rfl
    · nofun
  | command alive runs => exact h.command hsound alive runs hok
  | scan alive atScan nodup members =>
    refine h.setClient (fun _ ↦ .rfl) (fun _ ↦ .rfl) ?_ ?_ ?_
    · simp [atScan, Pc.popped]
    · intro _
      exact nextTurn_removing _
    · simp [nextTurn_storing]
  | error alive raises =>
    refine h.setClient (fun _ ↦ .rfl) (fun _ ↦ .rfl) hok ?_ ?_
    · intro _
      rcases afterError_cases raises with rfl | ⟨f, i, p, -, rfl⟩
      · rfl
      · exact nextTurn_removing f
    · intro j hj
      rcases afterError_cases raises with rfl | ⟨f, i, p, -, rfl⟩
      · cases hj
      · rw [nextTurn_storing] at hj
        cases hj
  | crash alive =>
    refine h.setClient (fun _ ↦ .rfl) (fun _ ↦ .rfl) hok nofun ?_
    intro j hj
    exact hj
  | tick => exact ⟨h.covered, h.removing, h.storing⟩

/-- No job is lost in a run that keeps its jobs. -/
theorem no_job_lost_of_keepsJobs (h : (system cfg).ReachWhen KeepsJobs s) (j : J)
    (hc : .created j ∈ s.log) (hn : .stored j ∉ s.log) : Tracked s j := by
  have hkept : Kept s := by
    refine h.invariant_of (fun t ht ↦ sound_of_reachWhen ht) ?_ ?_
    · intro t ht
      rw [ht]
      exact kept_initial
    · intro t a t' hsound hkept hok hs
      exact hkept.step hsound hok hs
  exact hkept.tracked hc hn

/-- A worker that pulls a job and crashes only once the job is recorded. -/
theorem no_job_lost_of_keepsJobs_crash :
    ∃ s : State (Fin 1) Nat, (system ⟨fun _ ↦ 3600, fun _ ↦ true⟩).ReachWhen KeepsJobs s ∧
      (s.clients 0).alive = false ∧ Tracked s 7 := by
  obtain ⟨s, hs, hdead, hc, hn⟩ := System.exists_reachWhen
    (system (⟨fun _ ↦ 3600, fun _ ↦ true⟩ : Config (Fin 1) Nat)) KeepsJobs
    (fun s ↦ (s.clients 0).alive = false ∧ Event.created 7 ∈ s.log ∧ Event.stored 7 ∉ s.log)
    [.call 0 (.create 7 (.obj [])), .command 0, .command 0, .command 0,
      .call 0 .next, .command 0, .command 0, .command 0, .crash 0]
    rfl (by decide)
  exact ⟨s, hs, hdead, no_job_lost_of_keepsJobs hs 7 hc hn⟩

end Loss

end GithubAgent.Queue
