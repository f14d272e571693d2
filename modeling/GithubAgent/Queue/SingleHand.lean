import GithubAgent.Queue.Issued
import Mathlib.Tactic

/-!
# How many hands hold a job

The copies of a job are its entries in the pending list and the live clients that pulled it
and have not called `complete_job`. A job is stale for the reclaimer once its data key is
gone, and that key expires `job_ttl` after it was last written whether or not a worker runs
the job; so the reclaimer can add a copy of a job that a live worker holds.
-/

namespace GithubAgent.Queue

open GithubAgent.Base

section Locals

variable {J : Type}

/-- The job a client's next command pushes. -/
def Pc.pushes : Pc J → Option J
  | .create j .push => some j
  | .reclaim _ j .push => some j
  | _ => none

/-- The job a client is on the way to push: it creates it, or re-queues it. -/
def Pc.pushing : Pc J → Option J
  | .create j _ => some j
  | .reclaim _ j (.restore _) => some j
  | .reclaim _ j .status => some j
  | .reclaim _ j .push => some j
  | _ => none

theorem nextTurn_pushing (f : Frame J) : (nextTurn f).pushing = none := by
  unfold nextTurn
  split <;> rfl

theorem pushing_of_pushes {pc : Pc J} {j : J} (h : pc.pushes = some j) : pc.pushing = some j := by
  cases pc with
  | create i p => cases p <;> first | exact h | cases h
  | reclaim f i p => cases p <;> first | exact h | cases h
  | idle | next | complete | members => cases h

variable [DecidableEq J]

/-- The copies of a job in the hands of a client. -/
def Client.copies (cl : Client J) (j : J) : Nat :=
  if cl.alive then cl.pc.hand.toList.count j + (cl.jobs.map Prod.fst).count j else 0

/-- What a client holds, it knows. -/
theorem Client.copies_eq_zero {cl : Client J} {j : J} (h : j ∉ cl.mentions) : cl.copies j = 0 := by
  have hhand : j ∉ cl.pc.hand.toList := by
    intro hj
    apply h
    refine List.mem_append_left _ ?_
    cases hpc : cl.pc with
    | next p =>
      rw [hpc] at hj
      exact hj
    | idle | create | complete | members | reclaim => simp [hpc, Pc.hand] at hj
  have hjobs : j ∉ cl.jobs.map Prod.fst := fun hj ↦ h (List.mem_append_right _ hj)
  unfold Client.copies
  split
  · rw [List.count_eq_zero_of_not_mem hhand, List.count_eq_zero_of_not_mem hjobs]
  · rfl

end Locals

section SingleHand

variable {C J : Type} [Fintype C] [DecidableEq J]

/-- The entries of a job in the pending list and in the hands of live clients. -/
def copies (s : State C J) (j : J) : Nat :=
  s.redis.pending.count j + ∑ c, (s.clients c).copies j

/-- Every job has at most one copy; a reclaimer pushes only a job without one, and no two
reclaimers are about to push the same job. -/
structure SingleHand (s : State C J) : Prop where
  atMostOnce : ∀ j, copies s j ≤ 1
  requeued : ∀ c f j, (s.clients c).alive = true → (s.clients c).pc = .reclaim f j .push →
    copies s j = 0
  once : ∀ c c' f f' j, (s.clients c).alive = true → (s.clients c').alive = true →
    (s.clients c).pc = .reclaim f j .push → (s.clients c').pc = .reclaim f' j .push → c = c'

variable [DecidableEq C]

/-- A worker still runs its job when the data key expires, and a reclaimer re-queues it. -/
theorem not_singleHand : ¬ ∀ s, (system (⟨fun _ ↦ 3600, fun _ ↦ true⟩ : Config (Fin 2) Nat)).Reach s →
    SingleHand s := by
  obtain ⟨s, hs, htwo⟩ := System.exists_reachWhen
    (system (⟨fun _ ↦ 3600, fun _ ↦ true⟩ : Config (Fin 2) Nat)) System.always
    (fun s ↦ copies s 7 = 2)
    [.call 0 (.create 7 (.obj [])), .command 0, .command 0, .command 0,
      .call 0 .next, .command 0, .command 0, .command 0, .command 0, .command 0, .command 0,
      .tick 3600000, .call 1 .reclaim, .scan 1 [7], .command 1, .command 1, .command 1,
      .command 1, .command 1]
    rfl (by decide)
  intro h
  have hone := (h s hs).atMostOnce 7
  omega

/-- A reclaimer enters the branch that re-queues a job only when the job has no copy and no
other live client is on the way to push it. -/
def RequeuesStale (s : State C J) : Action C J → Prop
  | .command c =>
    match (s.clients c).pc with
    | .reclaim _ j .backup =>
      readText s.redis.backup s.now j = none ∨
        (copies s j = 0 ∧
          ∀ c', (s.clients c').alive = true → (s.clients c').pc.pushing ≠ some j)
    | _ => True
  | _ => True

instance (s : State C J) : (a : Action C J) → Decidable (RequeuesStale s a)
  | .call _ _ => .isTrue trivial
  | .command c => by
    unfold RequeuesStale
    dsimp only
    split <;> infer_instance
  | .scan _ _ => .isTrue trivial
  | .error _ => .isTrue trivial
  | .crash _ => .isTrue trivial
  | .tick _ => .isTrue trivial

/-! ### What a command does to the copies of a job -/

section Command

variable {valid : J → Bool} {ttl now : Nat} {r : Redis J} {pc : Pc J} {o : Outcome J} {j : J}

omit [Fintype C] [DecidableEq C] in
/-- A command adds a copy of a job only by pushing it. -/
theorem command_copies (h : command valid ttl now r pc = some o) :
    o.redis.pending.count j + o.pc.hand.toList.count j + ((pulledJob pc).map Prod.fst).count j ≤
      r.pending.count j + pc.hand.toList.count j + pc.pushes.toList.count j := by
  cases pc with
  | idle | members => cases h
  | create i p =>
    cases h
    cases p with
    | push => simp [createJob, Pc.hand, pulledJob, Pc.pushes]
    | data | status => simp [createJob, Pc.hand, pulledJob]
  | complete i label p =>
    cases h
    cases p <;> simp [completeJob, Pc.hand, pulledJob]
  | next p =>
    cases h
    cases p with
    | pop =>
      cases hp : r.pending with
      | nil => simp [getNextJob, hp, Pc.hand, pulledJob]
      | cons i rest =>
        by_cases hv : valid i = true
        · simp [getNextJob, hp, hv, Pc.hand, NextPc.hand, pulledJob, List.count_cons]
        · simp [getNextJob, hp, hv, Pc.hand, pulledJob, List.count_cons]
          omega
    | data i =>
      have hhand : (getNextJob valid ttl now r (.data i)).pc.hand = some i := by
        simp only [getNextJob]
        split
        · rfl
        · split <;> rfl
      rw [hhand]
      simp [getNextJob, Pc.hand, NextPc.hand, pulledJob]
    | expired i | corrupt i | add i t | status i t | backup i t | started i t =>
      simp [getNextJob, Pc.hand, NextPc.hand, pulledJob, Nat.add_assoc]
  | reclaim f i p =>
    cases h
    cases p with
    | push => simp [reclaimStaleJob, Pc.hand, pulledJob, Pc.pushes]
    | «exists» =>
      simp only [reclaimStaleJob]
      split
      · rw [nextTurn_hand]
        simp [Pc.hand, pulledJob]
      · simp [Pc.hand, pulledJob]
    | backup =>
      simp only [reclaimStaleJob]
      split <;> simp [Pc.hand, pulledJob]
    | dropStarted | zombie =>
      simp only [reclaimStaleJob]
      rw [nextTurn_hand]
      simp [Pc.hand, pulledJob]
    | restore | status | remove | dropBackup => simp [reclaimStaleJob, Pc.hand, pulledJob]

omit [Fintype C] [DecidableEq C] in
/-- A client gets on the way to push a job only through the backup of a stale one, and stays
on it without pushing. -/
theorem command_pushing (h : command valid ttl now r pc = some o) (hj : o.pc.pushing = some j) :
    (pc.pushing = some j ∧ pc.pushes = none) ∨
      ∃ f, pc = .reclaim f j .backup ∧ readText r.backup now j ≠ none := by
  cases pc with
  | idle | members => cases h
  | create i p =>
    cases h
    cases p with
    | data | status => exact .inl ⟨hj, rfl⟩
    | push => cases hj
  | complete i label p =>
    cases h
    cases p <;> cases hj
  | next p =>
    cases h
    cases p with
    | pop =>
      simp only [getNextJob] at hj
      split at hj
      · cases hj
      · dsimp only at hj
        split at hj <;> cases hj
    | data i =>
      simp only [getNextJob] at hj
      split at hj
      · cases hj
      · split at hj <;> cases hj
    | expired | corrupt | add | status | backup | started => cases hj
  | reclaim f i p =>
    cases h
    cases p with
    | restore | status => exact .inl ⟨hj, rfl⟩
    | backup =>
      simp only [reclaimStaleJob] at hj
      split at hj
      · next text ht =>
        cases hj
        exact .inr ⟨f, rfl, by simp [ht]⟩
      · cases hj
    | «exists» =>
      simp only [reclaimStaleJob] at hj
      split at hj
      · rw [nextTurn_pushing] at hj
        cases hj
      · cases hj
    | dropStarted | zombie =>
      simp only [reclaimStaleJob, nextTurn_pushing] at hj
      cases hj
    | push | remove | dropBackup => cases hj

end Command

/-! ### The invariant of runs that re-queue only stale jobs -/

variable {cfg : Config C J} {s s' : State C J}

/-- A job on the way to be pushed has no copy, and one client pushes it. -/
structure OneCopy (s : State C J) : Prop where
  atMostOnce : ∀ j, copies s j ≤ 1
  pushing : ∀ c j, (s.clients c).alive = true → (s.clients c).pc.pushing = some j → copies s j = 0
  unique : ∀ c c' j, (s.clients c).alive = true → (s.clients c').alive = true →
    (s.clients c).pc.pushing = some j → (s.clients c').pc.pushing = some j → c = c'

omit [DecidableEq C] in
theorem oneCopy_initial : OneCopy (initial : State C J) := by
  constructor <;> simp [copies, initial, Redis.empty, Client.copies, Pc.hand, Pc.pushing]

omit [DecidableEq C] in
theorem OneCopy.singleHand (h : OneCopy s) : SingleHand s := by
  refine ⟨h.atMostOnce, ?_, ?_⟩
  · intro c f j halive hpc
    exact h.pushing c j halive (by simp [hpc, Pc.pushing])
  · intro c c' f f' j halive halive' hpc hpc'
    exact h.unique c c' j halive halive' (by simp [hpc, Pc.pushing]) (by simp [hpc', Pc.pushing])

/-- Replacing one client changes the copies by that client's share. -/
theorem copies_setClient (s : State C J) (c : C) (cl : Client J) (j : J) :
    copies (s.setClient c cl) j + (s.clients c).copies j = copies s j + cl.copies j := by
  have hsum := sum_update s.clients c cl fun x ↦ x.copies j
  simp only [copies, State.setClient]
  omega

/-- Replacing a client's state by one that holds no more, and is on the way to push only what
it was already or what has no copy and no other client pushing it, keeps the invariant. -/
theorem OneCopy.setClient (h : OneCopy s) {c : C} {cl : Client J} {log : List (Event J)}
    (hcopies : ∀ j, cl.copies j ≤ (s.clients c).copies j)
    (hpush : ∀ j, cl.alive = true → cl.pc.pushing = some j →
      copies s j = 0 ∧ ∀ x, x ≠ c → (s.clients x).alive = true → (s.clients x).pc.pushing ≠ some j) :
    OneCopy { s.setClient c cl with log := log } := by
  have hle (j : J) : copies { s.setClient c cl with log := log } j ≤ copies s j := by
    have heq : copies { s.setClient c cl with log := log } j = copies (s.setClient c cl) j := rfl
    have hset := copies_setClient s c cl j
    have hc := hcopies j
    omega
  have hone (x y : C) (j : J) (hxc : x = c)
      (hx : ((s.setClient c cl).clients x).alive = true)
      (hy : ((s.setClient c cl).clients y).alive = true)
      (hpx : ((s.setClient c cl).clients x).pc.pushing = some j)
      (hpy : ((s.setClient c cl).clients y).pc.pushing = some j) : x = y := by
    subst hxc
    simp only [State.setClient, Function.update_self] at hx hpx
    by_cases hyx : y = x
    · exact hyx.symm
    · simp only [State.setClient, Function.update_of_ne hyx] at hy hpy
      exact absurd hpy ((hpush j hx hpx).2 y hyx hy)
  refine ⟨?_, ?_, ?_⟩
  · intro j
    exact (hle j).trans (h.atMostOnce j)
  · intro x j hx hpx
    apply Nat.le_zero.mp
    apply (hle j).trans
    apply Nat.le_zero.mpr
    by_cases hxc : x = c
    · subst hxc
      simp only [State.setClient, Function.update_self] at hx hpx
      exact (hpush j hx hpx).1
    · simp only [State.setClient, Function.update_of_ne hxc] at hx hpx
      exact h.pushing x j hx hpx
  · intro x y j hx hy hpx hpy
    by_cases hxc : x = c
    · exact hone x y j hxc hx hy hpx hpy
    · by_cases hyc : y = c
      · exact (hone y x j hyc hy hx hpy hpx).symm
      · simp only [State.setClient, Function.update_of_ne hxc] at hx hpx
        simp only [State.setClient, Function.update_of_ne hyc] at hy hpy
        exact h.unique x y j hx hy hpx hpy

/-- A client that is not on the way to push a job may hold what it held. -/
theorem OneCopy.setClient_of_pushing_eq_none (h : OneCopy s) {c : C} {cl : Client J}
    {log : List (Event J)} (hcopies : ∀ j, cl.copies j ≤ (s.clients c).copies j)
    (hpush : cl.pc.pushing = none) : OneCopy { s.setClient c cl with log := log } := by
  apply h.setClient hcopies
  intro j _ hj
  rw [hpush] at hj
  cases hj

/-- A permitted command keeps the invariant. -/
theorem OneCopy.command (h : OneCopy s) {c : C} {o : Outcome J}
    (halive : (s.clients c).alive = true)
    (runs : command cfg.validateJobId (cfg.jobTtl c) s.now s.redis (s.clients c).pc = some o)
    (hok : RequeuesStale s (.command c)) : OneCopy (s.after c o) := by
  have hcopies (j : J) :
      copies (s.after c o) j ≤ copies s j + (s.clients c).pc.pushes.toList.count j := by
    have hown := command_copies runs (j := j)
    have hsum := sum_update s.clients c ((s.clients c).replied o) fun x ↦ x.copies j
    have hbefore : (s.clients c).copies j =
        (s.clients c).pc.hand.toList.count j + ((s.clients c).jobs.map Prod.fst).count j := by
      simp [Client.copies, halive]
    have hafter : ((s.clients c).replied o).copies j =
        o.pc.hand.toList.count j + (((pulledJob (s.clients c).pc).map Prod.fst).count j +
          ((s.clients c).jobs.map Prod.fst).count j) := by
      simp [Client.copies, halive]
    simp only [copies, State.after]
    omega
  have hnone {j : J} (hp : (s.clients c).pc.pushes ≠ some j) :
      (s.clients c).pc.pushes.toList.count j = 0 := by
    rw [List.count_eq_zero]
    simpa using hp
  have hother {x : C} {j : J} (hxc : x ≠ c) (hx : (s.clients x).alive = true)
      (hpx : (s.clients x).pc.pushing = some j) : copies (s.after c o) j = 0 := by
    have hp : (s.clients c).pc.pushes ≠ some j := by
      intro hp
      exact hxc (h.unique x c j hx halive hpx (pushing_of_pushes hp))
    have hle := hcopies j
    rw [hnone hp, h.pushing x j hx hpx] at hle
    omega
  -- the job this client is on the way to push after its command
  have hself {j : J} (hpc : o.pc.pushing = some j) :
      copies (s.after c o) j = 0 ∧
        ∀ x, x ≠ c → (s.clients x).alive = true → (s.clients x).pc.pushing ≠ some j := by
    have hle := hcopies j
    rcases command_pushing runs hpc with ⟨hpush, hnot⟩ | ⟨f, hback, htext⟩
    · rw [hnone (by simp [hnot]), h.pushing c j halive hpush] at hle
      refine ⟨by omega, ?_⟩
      intro x hxc hx hpx
      exact hxc (h.unique x c j hx halive hpx hpush)
    · simp only [RequeuesStale, hback] at hok
      rcases hok with hok | ⟨hzero, hno⟩
      · exact absurd hok htext
      · rw [hnone (by simp [hback, Pc.pushes]), hzero] at hle
        exact ⟨by omega, fun x _ hx ↦ hno x hx⟩
  refine ⟨?_, ?_, ?_⟩
  · intro j
    have hle := hcopies j
    have hone := h.atMostOnce j
    by_cases hp : (s.clients c).pc.pushes = some j
    · have hzero := h.pushing c j halive (pushing_of_pushes hp)
      simp only [hp, Option.toList_some, List.count_singleton_self] at hle
      omega
    · rw [hnone hp] at hle
      omega
  · intro x j hx hpx
    by_cases hxc : x = c
    · subst hxc
      exact (hself (by simpa [State.after] using hpx)).1
    · simp only [State.after, Function.update_of_ne hxc] at hx hpx
      exact hother hxc hx hpx
  · intro x y j hx hy hpx hpy
    by_cases hxc : x = c
    · subst hxc
      by_cases hyx : y = x
      · exact hyx.symm
      · simp only [State.after, Function.update_of_ne hyx] at hy hpy
        exact absurd hpy ((hself (by simpa [State.after] using hpx)).2 y hyx hy)
    · simp only [State.after, Function.update_of_ne hxc] at hx hpx
      by_cases hyc : y = c
      · subst hyc
        exact absurd hpx ((hself (by simpa [State.after] using hpy)).2 x hxc hx)
      · simp only [State.after, Function.update_of_ne hyc] at hy hpy
        exact h.unique x y j hx hy hpx hpy

/-- A permitted step keeps the invariant. -/
theorem OneCopy.step (h : OneCopy s) (hsound : Sound cfg s) {a : Action C J}
    (hok : RequeuesStale s a) (hs : step cfg s a = some s') : OneCopy s' := by
  cases step_cases hs with
  | @create c j jobData alive idle fresh valid =>
    have hnew : .created j ∉ s.log := fun hj ↦ fresh (hsound.issued j hj)
    apply h.setClient
    · intro i
      simp [Client.copies, Pc.hand, idle]
    · intro i _ hi
      cases hi
      refine ⟨?_, ?_⟩
      · unfold copies
        rw [List.count_eq_zero_of_not_mem fun hj ↦ hnew (hsound.pending j hj), Nat.zero_add]
        apply Finset.sum_eq_zero
        intro x _
        exact Client.copies_eq_zero fun hj ↦ hnew (hsound.mentioned x j hj)
      · intro x _ _ hx
        cases hpc : (s.clients x).pc with
        | create i p =>
          rw [hpc] at hx
          cases hx
          exact fresh (hsound.creating x j (by simp [hpc, Pc.creating])).1
        | reclaim f i p =>
          have hi : i = j := by
            rw [hpc] at hx
            cases p <;> cases hx <;> rfl
          exact hnew (hsound.mentioned x j (by simp [Client.mentions, hpc, Pc.mentions, hi]))
        | idle | next | complete | members =>
          rw [hpc] at hx
          cases hx
  | next alive idle | reclaim alive idle =>
    refine h.setClient_of_pushing_eq_none ?_ rfl
    intro i
    simp [Client.copies, Pc.hand, NextPc.hand, idle]
  | @complete c j result label alive idle created =>
    refine h.setClient_of_pushing_eq_none ?_ rfl
    intro i
    simp only [Client.copies, Pc.hand, idle, alive, if_true]
    have hsub : ((s.clients c).jobs.filter fun job ↦ job.1 ≠ j).map Prod.fst |>.Sublist
        ((s.clients c).jobs.map Prod.fst) := List.Sublist.map _ List.filter_sublist
    have hcount := hsub.count_le i
    omega
  | command alive runs => exact h.command alive runs hok
  | scan alive atScan nodup members =>
    refine h.setClient_of_pushing_eq_none ?_ (nextTurn_pushing _)
    intro i
    simp only [Client.copies]
    rw [nextTurn_hand]
    simp [atScan, Pc.hand]
  | error alive raises =>
    rcases afterError_cases raises with rfl | ⟨f, i, p, hpc, rfl⟩
    · refine h.setClient_of_pushing_eq_none ?_ rfl
      intro j
      simp [Client.copies, Pc.hand, alive]
    · refine h.setClient_of_pushing_eq_none ?_ (nextTurn_pushing _)
      intro j
      simp only [Client.copies]
      rw [nextTurn_hand]
      simp [alive]
  | crash alive =>
    apply h.setClient
    · intro j
      simp [Client.copies]
    · intro j hdead
      cases hdead
  | tick => exact ⟨h.atMostOnce, h.pushing, h.unique⟩

/-- In a run that re-queues only stale jobs, no job is in two hands. -/
theorem singleHand_of_requeuesStale (h : (system cfg).ReachWhen RequeuesStale s) :
    SingleHand s := by
  have hone : OneCopy s := by
    refine h.invariant_of (fun t ht ↦ sound_of_reachWhen ht) ?_ ?_
    · intro t ht
      rw [ht]
      exact oneCopy_initial
    · intro t a t' hsound hone hok hs
      exact hone.step hsound hok hs
  exact hone.singleHand

/-- A worker that crashed with its job, which a reclaimer then pushes back. -/
theorem singleHand_of_requeuesStale_crash :
    ∃ s : State (Fin 2) Nat, SingleHand s ∧ s.redis.pending = [7] ∧ (s.clients 0).alive = false := by
  obtain ⟨s, hs, hpending, hcrashed⟩ := System.exists_reachWhen
    (system (⟨fun _ ↦ 3600, fun _ ↦ true⟩ : Config (Fin 2) Nat)) RequeuesStale
    (fun s ↦ s.redis.pending = [7] ∧ (s.clients 0).alive = false)
    [.call 0 (.create 7 (.obj [])), .command 0, .command 0, .command 0,
      .call 0 .next, .command 0, .command 0, .command 0, .command 0, .command 0, .command 0,
      .crash 0, .tick 3600000, .call 1 .reclaim, .scan 1 [7], .command 1, .command 1,
      .command 1, .command 1, .command 1]
    rfl (by decide)
  exact ⟨s, singleHand_of_requeuesStale hs, hpending, hcrashed⟩

end SingleHand

end GithubAgent.Queue
