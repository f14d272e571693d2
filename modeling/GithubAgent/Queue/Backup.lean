import GithubAgent.Queue.Issued

/-!
# When a backup outlives the data

The data key of a job expires one `job_ttl` of the creating client after its creation, the
backup two `job_ttl` of the pulling client after the pull. A reclaimer re-queues a job only in
the interval in which the data key is gone and the backup is not. `_create_job` of the session
proxy writes the same keys as `create_job`, so that it is one more client here.
-/

namespace GithubAgent.Queue

open GithubAgent.Base

section Locals

variable {J : Type}

/-- The text of a job that `get_next_job` read and has not yet returned. -/
def Pc.carried : Pc J → Option (J × JsonText)
  | .next (.add j text) => some (j, text)
  | .next (.status j text) => some (j, text)
  | .next (.backup j text) => some (j, text)
  | .next (.started j text) => some (j, text)
  | _ => none

/-- The job that a client completes or, having found its backup, re-queues. -/
def Pc.ending : Pc J → Option J
  | .complete j _ _ => some j
  | .reclaim _ j (.restore _) => some j
  | .reclaim _ j .status => some j
  | .reclaim _ j .push => some j
  | .reclaim _ j .remove => some j
  | .reclaim _ j .dropBackup => some j
  | .reclaim _ j .dropStarted => some j
  | _ => none

theorem nextTurn_carried (f : Frame J) : (nextTurn f).carried = none := by
  unfold nextTurn
  split <;> rfl

theorem nextTurn_ne_create (f : Frame J) (j : J) (p : CreatePc) : nextTurn f ≠ .create j p := by
  unfold nextTurn
  split <;> intro h <;> cases h

end Locals

/-! ### The times of creation and pull -/

section Watch

variable {C J : Type} [DecidableEq J]

/-- Who wrote the data key of a job on its creation, and its backup, and when. -/
structure Watch (C : Type) where
  created : Option (C × Nat) := none
  pulled : Option (C × Nat) := none

/-- What the next command of a client adds. -/
def Watch.see (w : Watch C) (j : J) (now : Nat) (c : C) : Pc J → Watch C
  | .create i (.data _) => if i = j then { w with created := some (c, now) } else w
  | .next (.backup i _) => if i = j then { w with pulled := some (c, now) } else w
  | _ => w

variable [DecidableEq C]

/-- The system of all clients, with the times of one job. -/
def watched (cfg : Config C J) (j : J) : System (State C J × Watch C) (Action C J) where
  init p := p = (initial, {})
  step p a := (step cfg p.1 a).map fun s' ↦
    (s', match a with
      | .command c => p.2.see j p.1.now c (p.1.clients c).pc
      | _ => p.2)

/-- No client completes the job or re-queues it. -/
def LeftAlone (j : J) (p : State C J × Watch C) : Action C J → Prop
  | .command c => (p.1.clients c).pc.ending ≠ some j
  | _ => True

instance (j : J) (p : State C J × Watch C) : (a : Action C J) → Decidable (LeftAlone j p a)
  | .command c => inferInstanceAs (Decidable ((p.1.clients c).pc.ending ≠ some j))
  | .call _ _ | .scan _ _ | .error _ | .crash _ | .tick _ => instDecidableTrue

omit [DecidableEq C] in
/-- For the given time from the expiry of the data key on, the backup is there, and a
reclaimer that looks then re-queues the job. -/
def RequeuedFor (s : State C J) (j : J) (window : Nat) : Prop :=
  ∃ expiry, ((s.redis.data j).bind Cell.deadline) = some expiry ∧
    ∀ t, expiry ≤ t → t < expiry + window →
      s.redis.data.has t j = false ∧ s.redis.backup.has t j = true ∧
        ∀ ttl f, (reclaimStaleJob ttl t s.redis f j .exists).pc = .reclaim f j .backup ∧
          ∃ text, (reclaimStaleJob ttl t s.redis f j .backup).pc = .reclaim f j (.restore text)

omit [DecidableEq C] in
/-- The backup of a job created by one client and pulled by another outlives its data, by one
TTL at least when the two have the same. -/
def Outlives (cfg : Config C J) (s : State C J) (j : J) (creator puller : C) : Prop :=
  ∃ window, 0 < window ∧ RequeuedFor s j window ∧
    (cfg.jobTtl creator = cfg.jobTtl puller → 1000 * cfg.jobTtl puller ≤ window)

end Watch

/-! ### What a command does to the two keys -/

section Command

variable {J : Type} [DecidableEq J] {valid : J → Bool} {ttl now : Nat} {r : Redis J} {pc : Pc J}
  {o : Outcome J} {j : J}

theorem setex_of_ne {V : Type} {m : Keys J V} {i : J} (h : j ≠ i) (seconds : Nat) (v : V) :
    m.setex now i seconds v j = m j := Function.update_of_ne h _ _

theorem del_of_ne {V : Type} {m : Keys J V} {i : J} (h : j ≠ i) : m.del i j = m j :=
  Function.update_of_ne h _ _

/-- The data key of a job that nobody ends is written on its creation only. -/
theorem command_data (h : command valid ttl now r pc = some o) (hend : pc.ending ≠ some j) :
    (o.redis.data j = r.data j ∧ ∀ jobData, pc ≠ .create j (.data jobData)) ∨
      ∃ jobData, pc = .create j (.data jobData) ∧
        o.redis.data j = some ⟨.dumps jobData, some (now + 1000 * ttl)⟩ := by
  cases pc with
  | idle | members => cases h
  | create i p =>
    cases h
    cases p with
    | data jobData =>
      by_cases hij : j = i
      · subst hij
        exact .inr ⟨jobData, rfl, Function.update_self _ _ _⟩
      · refine .inl ⟨setex_of_ne hij _ _, ?_⟩
        intro other heq
        cases heq
        exact hij rfl
    | status | push =>
      refine .inl ⟨rfl, ?_⟩
      intro other heq
      cases heq
  | complete i label p =>
    cases h
    refine .inl ⟨?_, ?_⟩
    · cases p <;> rfl
    · intro other heq
      cases heq
  | next p =>
    cases h
    refine .inl ⟨?_, ?_⟩
    · cases p with
      | pop =>
        simp only [getNextJob]
        split <;> rfl
      | data | expired | corrupt | add | status | backup | started => rfl
    · intro other heq
      cases heq
  | reclaim f i p =>
    cases h
    refine .inl ⟨?_, ?_⟩
    · cases p with
      | restore text =>
        have hij : j ≠ i := fun hji ↦ hend (congrArg some hji.symm)
        exact setex_of_ne hij _ _
      | «exists» | backup | status | push | remove | dropBackup | dropStarted | zombie => rfl
    · intro other heq
      cases heq

/-- The backup of a job that nobody ends is written on a pull only. -/
theorem command_backup (h : command valid ttl now r pc = some o) (hend : pc.ending ≠ some j) :
    (o.redis.backup j = r.backup j ∧ ∀ text, pc ≠ .next (.backup j text)) ∨
      ∃ text, pc = .next (.backup j text) ∧
        o.redis.backup j = some ⟨text, some (now + 1000 * (ttl * 2))⟩ := by
  cases pc with
  | idle | members => cases h
  | create i p =>
    cases h
    refine .inl ⟨?_, ?_⟩
    · cases p <;> rfl
    · intro other heq
      cases heq
  | complete i label p =>
    cases h
    have hij : j ≠ i := fun hji ↦ hend (congrArg some hji.symm)
    refine .inl ⟨?_, ?_⟩
    · cases p with
      | backup => exact del_of_ne hij
      | result | status | remove | started => rfl
    · intro other heq
      cases heq
  | next p =>
    cases h
    cases p with
    | pop =>
      refine .inl ⟨?_, ?_⟩
      · simp only [getNextJob]
        split <;> rfl
      · intro other heq
        cases heq
    | backup i text =>
      by_cases hij : j = i
      · subst hij
        exact .inr ⟨text, rfl, Function.update_self _ _ _⟩
      · refine .inl ⟨setex_of_ne hij _ _, ?_⟩
        intro other heq
        cases heq
        exact hij rfl
    | data | expired | corrupt | add | status | started =>
      refine .inl ⟨rfl, ?_⟩
      intro other heq
      cases heq
  | reclaim f i p =>
    cases h
    refine .inl ⟨?_, ?_⟩
    · cases p with
      | dropBackup =>
        have hij : j ≠ i := fun hji ↦ hend (congrArg some hji.symm)
        exact del_of_ne hij
      | «exists» | backup | restore | status | push | remove | dropStarted | zombie => rfl
    · intro other heq
      cases heq

/-- A text comes into a client's locals by a read of the data key. -/
theorem command_carried {text : JsonText} (h : command valid ttl now r pc = some o)
    (hj : o.pc.carried = some (j, text)) :
    pc.carried = some (j, text) ∨ readText r.data now j = some text := by
  cases pc with
  | idle | members => cases h
  | create i p =>
    cases h
    cases p <;> cases hj
  | complete i label p =>
    cases h
    cases p <;> cases hj
  | next p =>
    cases h
    cases p with
    | pop =>
      simp only [getNextJob] at hj
      split at hj
      · cases hj
      · dsimp only at hj
        split at hj <;> cases hj
    | data i =>
      simp only [getNextJob] at hj
      split at hj
      · cases hj
      · next found hfound =>
        split at hj
        · cases hj
        · cases hj
          exact .inr hfound
    | add | status | backup => exact .inl hj
    | expired | corrupt | started => cases hj
  | reclaim f i p =>
    cases h
    cases p with
    | «exists» =>
      simp only [reclaimStaleJob] at hj
      split at hj
      · rw [nextTurn_carried] at hj
        cases hj
      · cases hj
    | backup =>
      simp only [reclaimStaleJob] at hj
      split at hj <;> cases hj
    | dropStarted | zombie =>
      simp only [reclaimStaleJob, nextTurn_carried] at hj
      cases hj
    | restore | status | push | remove | dropBackup => cases hj

/-- No command leads to the first command of a creation. -/
theorem command_ne_create (h : command valid ttl now r pc = some o) (jobData : Json) :
    o.pc ≠ .create j (.data jobData) := by
  intro heq
  have hcreating : pc.creating = some j := command_creating h (by rw [heq]; rfl)
  cases pc with
  | create i p =>
    cases h
    cases p <;> cases heq
  | idle | next | complete | members | reclaim => cases hcreating

end Command

/-! ### The invariant of the two keys -/

section Times

variable {C J : Type} [DecidableEq J] {cfg : Config C J} {s : State C J} {w : Watch C} {j : J}

theorem Watch.see_created_of_ne {now : Nat} {c : C} {pc : Pc J}
    (h : ∀ jobData, pc ≠ .create j (.data jobData)) : (w.see j now c pc).created = w.created := by
  unfold Watch.see
  split
  · next i jobData =>
    have hij : i ≠ j := fun hij ↦ h jobData (by rw [hij])
    rw [if_neg hij]
  · split <;> rfl
  · rfl

theorem Watch.see_pulled_of_ne {now : Nat} {c : C} {pc : Pc J}
    (h : ∀ text, pc ≠ .next (.backup j text)) : (w.see j now c pc).pulled = w.pulled := by
  unfold Watch.see
  split
  · split <;> rfl
  · next i text =>
    have hij : i ≠ j := fun hij ↦ h text (by rw [hij])
    rw [if_neg hij]
  · rfl

/-- The two keys carry the deadlines of their writes, and the creation came first. -/
structure Written (cfg : Config C J) (j : J) (s : State C J) (w : Watch C) : Prop where
  data : ∀ c t, w.created = some (c, t) → t ≤ s.now ∧ .issued j ∈ s.log ∧
    ∃ text, s.redis.data j = some ⟨text, some (t + 1000 * cfg.jobTtl c)⟩
  unwritten : w.created = none → s.redis.data j = none
  creating : ∀ c jobData, (s.clients c).pc = .create j (.data jobData) → w.created = none
  carried : ∀ c text, (s.clients c).pc.carried = some (j, text) →
    text.truthy = true ∧ w.created ≠ none
  backup : ∀ c t, w.pulled = some (c, t) →
    (∃ text, text.truthy = true ∧
      s.redis.backup j = some ⟨text, some (t + 1000 * (cfg.jobTtl c * 2))⟩) ∧
    ∃ c' t', w.created = some (c', t') ∧ t' ≤ t

omit [DecidableEq J] in
theorem written_initial : Written cfg j initial {} := by
  constructor
  · intro c t h
    cases h
  · intro _
    rfl
  · intro c jobData _
    rfl
  · intro c text h
    cases h
  · intro c t h
    cases h

omit [DecidableEq J] in
/-- A job is not pulled before it is created. -/
theorem Written.pulled_eq_none (h : Written cfg j s w) (hnone : w.created = none) :
    w.pulled = none := by
  cases hpulled : w.pulled with
  | none => rfl
  | some time =>
    obtain ⟨_, c', t', hc', _⟩ := h.backup time.1 time.2 hpulled
    rw [hnone] at hc'
    cases hc'

variable [DecidableEq C]

omit [DecidableEq J] in
/-- A client that comes to carry no new text, and to create the job only before it has data. -/
theorem Written.setClient (h : Written cfg j s w) {c : C} {cl : Client J} {log : List (Event J)}
    (hlog : s.log ⊆ log)
    (hcarried : ∀ text, cl.pc.carried = some (j, text) →
      (s.clients c).pc.carried = some (j, text))
    (hcreating : ∀ jobData, cl.pc = .create j (.data jobData) → w.created = none) :
    Written cfg j { s.setClient c cl with log := log } w := by
  refine ⟨?_, h.unwritten, ?_, ?_, h.backup⟩
  · intro x t hx
    obtain ⟨hle, hissued, hdata⟩ := h.data x t hx
    exact ⟨hle, hlog hissued, hdata⟩
  · intro x jobData hx
    by_cases hxc : x = c
    · subst hxc
      exact hcreating jobData (by simpa [State.setClient] using hx)
    · exact h.creating x jobData (by simpa [State.setClient, hxc] using hx)
  · intro x text hx
    by_cases hxc : x = c
    · subst hxc
      exact h.carried x text (hcarried text (by simpa [State.setClient] using hx))
    · exact h.carried x text (by simpa [State.setClient, hxc] using hx)

/-- A text that a client carries after a command was carried before, or is the data read. -/
theorem Written.carried_after (h : Written cfg j s w) {c x : C} {o : Outcome J} {text : JsonText}
    (runs : command cfg.validateJobId (cfg.jobTtl c) s.now s.redis (s.clients c).pc = some o)
    (hx : ((s.after c o).clients x).pc.carried = some (j, text)) :
    text.truthy = true ∧ w.created ≠ none := by
  by_cases hxc : x = c
  · subst hxc
    rcases command_carried runs (by simpa [State.after] using hx) with hx | hread
    · exact h.carried x text hx
    · obtain ⟨hget, htruthy⟩ := Option.filter_eq_some_iff.mp hread
      refine ⟨htruthy, ?_⟩
      intro hnone
      rw [Keys.get, h.unwritten hnone] at hget
      cases hget
  · exact h.carried x text (by simpa [State.after, hxc] using hx)

/-- No command brings a client before the write of the data. -/
theorem creating_after {c x : C} {o : Outcome J} {jobData : Json}
    (runs : command cfg.validateJobId (cfg.jobTtl c) s.now s.redis (s.clients c).pc = some o)
    (hx : ((s.after c o).clients x).pc = .create j (.data jobData)) :
    x ≠ c ∧ (s.clients x).pc = .create j (.data jobData) := by
  by_cases hxc : x = c
  · subst hxc
    exact absurd (by simpa [State.after] using hx) (command_ne_create runs jobData)
  · exact ⟨hxc, by simpa [State.after, hxc] using hx⟩

/-- The command that writes the data key. -/
theorem Written.create (h : Written cfg j s w) (hsound : Sound cfg s) {c : C} {o : Outcome J}
    (runs : command cfg.validateJobId (cfg.jobTtl c) s.now s.redis (s.clients c).pc = some o)
    {jobData : Json} (hpc : (s.clients c).pc = .create j (.data jobData)) {text : JsonText}
    (hdata : o.redis.data j = some ⟨text, some (s.now + 1000 * cfg.jobTtl c)⟩) :
    Written cfg j (s.after c o) { w with created := some (c, s.now) } := by
  have hnone := h.creating c jobData hpc
  have hcreating : (s.clients c).pc.creating = some j := by rw [hpc]; rfl
  refine ⟨?_, ?_, ?_, ?_, ?_⟩
  · intro x t hx
    cases hx
    exact ⟨le_rfl, List.mem_append_right _ (hsound.creating c j hcreating).1, _, hdata⟩
  · intro hnone'
    cases hnone'
  · intro x other hx
    obtain ⟨hxc, hpcx⟩ := creating_after runs hx
    exact absurd (hsound.unique x c j (by rw [hpcx]; rfl) hcreating) hxc
  · intro x text hx
    exact absurd hnone (h.carried_after runs hx).2
  · intro x t hx
    rw [h.pulled_eq_none hnone] at hx
    cases hx

/-- A command that does not end the job keeps the times true. -/
theorem Written.command (h : Written cfg j s w) (hsound : Sound cfg s) {c : C} {o : Outcome J}
    (hend : (s.clients c).pc.ending ≠ some j)
    (runs : command cfg.validateJobId (cfg.jobTtl c) s.now s.redis (s.clients c).pc = some o) :
    Written cfg j (s.after c o) (w.see j s.now c (s.clients c).pc) := by
  rcases command_data runs hend with ⟨hdata, hne⟩ | ⟨jobData, hpc, hdata⟩
  · have hcreated : (w.see j s.now c (s.clients c).pc).created = w.created :=
      Watch.see_created_of_ne hne
    refine ⟨?_, ?_, ?_, ?_, ?_⟩
    · intro x t hx
      rw [hcreated] at hx
      obtain ⟨hle, hissued, hold⟩ := h.data x t hx
      exact ⟨hle, List.mem_append_right _ hissued, hdata ▸ hold⟩
    · intro hnone
      rw [hcreated] at hnone
      exact hdata.trans (h.unwritten hnone)
    · intro x jobData hx
      rw [hcreated]
      exact h.creating x jobData (creating_after runs hx).2
    · intro x text hx
      rw [hcreated]
      exact h.carried_after runs hx
    · intro x t hx
      rw [hcreated]
      rcases command_backup runs hend with ⟨hbackup, hnext⟩ | ⟨text, hpc, hbackup⟩
      · rw [Watch.see_pulled_of_ne hnext] at hx
        obtain ⟨hold, hlater⟩ := h.backup x t hx
        exact ⟨hbackup ▸ hold, hlater⟩
      · -- the pull: its text was read from the data key, so that the job was created before
        obtain ⟨htruthy, hsome⟩ := h.carried c text (by rw [hpc]; rfl)
        rw [hpc, Watch.see, if_pos rfl] at hx
        cases hx
        refine ⟨⟨text, htruthy, hbackup⟩, ?_⟩
        obtain ⟨⟨c', t'⟩, hc'⟩ := Option.ne_none_iff_exists'.mp hsome
        exact ⟨c', t', hc', (h.data c' t' hc').1⟩
  · have hsee : w.see j s.now c (s.clients c).pc = { w with created := some (c, s.now) } := by
      rw [hpc, Watch.see, if_pos rfl]
    rw [hsee]
    exact h.create hsound runs hpc hdata

/-- The times stay true while nobody ends the job. -/
theorem Written.step (h : Written cfg j s w) (hsound : Sound cfg s) {a : Action C J}
    {p : State C J × Watch C} (hok : LeftAlone j (s, w) a)
    (hs : (watched cfg j).step (s, w) a = some p) : Written cfg j p.1 p.2 := by
  obtain ⟨s', hs', rfl⟩ := Option.map_eq_some_iff.mp hs
  cases step_cases hs' with
  | @create c i jobData alive idle fresh valid =>
    apply h.setClient (List.subset_cons_self _ _)
    · intro text hx
      cases hx
    · intro other hx
      cases hx
      cases hcreated : w.created with
      | none => rfl
      | some time => exact absurd (h.data time.1 time.2 hcreated).2.1 fresh
  | next | complete | reclaim =>
    apply h.setClient (List.Subset.refl _)
    · intro text hx
      cases hx
    · intro other hx
      cases hx
  | command alive runs => exact h.command hsound hok runs
  | scan =>
    apply h.setClient (List.Subset.refl _)
    · intro text hx
      rw [nextTurn_carried] at hx
      cases hx
    · intro other hx
      exact absurd hx (nextTurn_ne_create _ _ _)
  | error alive raises =>
    rcases afterError_cases raises with rfl | ⟨f, i, p, hpc, rfl⟩
    · apply h.setClient (List.Subset.refl _)
      · intro text hx
        cases hx
      · intro other hx
        cases hx
    · apply h.setClient (List.Subset.refl _)
      · intro text hx
        rw [nextTurn_carried] at hx
        cases hx
      · intro other hx
        exact absurd hx (nextTurn_ne_create _ _ _)
  | @crash c alive => exact h.setClient (List.Subset.refl _) (fun _ hx ↦ hx) (h.creating c)
  | @tick ms =>
    refine ⟨?_, h.unwritten, h.creating, h.carried, h.backup⟩
    intro x t hx
    obtain ⟨hle, hrest⟩ := h.data x t hx
    exact ⟨Nat.le_trans hle (Nat.le_add_right _ _), hrest⟩

/-- The run rule for the times. -/
theorem written_of_reachWhen {p : State C J × Watch C}
    (h : (watched cfg j).ReachWhen (LeftAlone j) p) : Sound cfg p.1 ∧ Written cfg j p.1 p.2 := by
  refine h.invariant (P := fun p ↦ Sound cfg p.1 ∧ Written cfg j p.1 p.2) ?_ ?_
  · rintro _ rfl
    exact ⟨sound_initial, written_initial⟩
  · rintro ⟨t, w⟩ a p ⟨hsound, hwritten⟩ hok hs
    refine ⟨?_, hwritten.step hsound hok hs⟩
    obtain ⟨t', ht', rfl⟩ := Option.map_eq_some_iff.mp hs
    exact hsound.step ht'

/-! ### The window -/

omit [DecidableEq C] in
/-- From the two deadlines on, the window is the time between them. -/
theorem requeuedFor_iff {text backup : JsonText} {expiry backupExpiry window : Nat}
    (hdata : s.redis.data j = some ⟨text, some expiry⟩)
    (hbackup : s.redis.backup j = some ⟨backup, some backupExpiry⟩)
    (htruthy : backup.truthy = true) (hpos : 0 < window) :
    RequeuedFor s j window ↔ expiry + window ≤ backupExpiry := by
  have hhas (t : Nat) : s.redis.data.has t j = decide (t < expiry) := by
    by_cases ht : t < expiry <;> simp [Keys.has, Keys.get, hdata, Cell.live, ht]
  have hhas' (t : Nat) : s.redis.backup.has t j = decide (t < backupExpiry) := by
    by_cases ht : t < backupExpiry <;> simp [Keys.has, Keys.get, hbackup, Cell.live, ht]
  constructor
  · rintro ⟨e, he, hwindow⟩
    rw [hdata] at he
    cases he
    obtain ⟨_, hthere, _⟩ := hwindow (expiry + window - 1) (by omega) (by omega)
    rw [hhas', decide_eq_true_eq] at hthere
    omega
  · intro hle
    refine ⟨expiry, by rw [hdata]; rfl, ?_⟩
    intro t hfrom hto
    have hgone : s.redis.data.has t j = false := by
      rw [hhas, decide_eq_false_iff_not]
      omega
    have hlive : t < backupExpiry := by omega
    refine ⟨hgone, by rw [hhas', decide_eq_true_eq]; exact hlive, ?_⟩
    intro ttl f
    have hread : readText s.redis.backup t j = some backup := by
      simp [readText, Keys.get, hbackup, Cell.live, hlive, Option.filter, htruthy]
    refine ⟨by simp [reclaimStaleJob, hgone], restoredText backup, ?_⟩
    simp only [reclaimStaleJob, hread]

/-- The backup of a pulled job that nobody ends outlives the data exactly when the creator's
TTL ends before two TTLs of the puller have passed since the pull. -/
theorem outlives_iff {p : State C J × Watch C} (h : (watched cfg j).ReachWhen (LeftAlone j) p)
    {creator puller : C} {created pulled : Nat} (hcreated : p.2.created = some (creator, created))
    (hpulled : p.2.pulled = some (puller, pulled)) :
    Outlives cfg p.1 j creator puller ↔
      created + 1000 * cfg.jobTtl creator < pulled + 2 * (1000 * cfg.jobTtl puller) := by
  obtain ⟨_, hwritten⟩ := written_of_reachWhen h
  obtain ⟨_, _, text, hdata⟩ := hwritten.data creator created hcreated
  obtain ⟨⟨backup, htruthy, hbackup⟩, c', t', hc', hle⟩ := hwritten.backup puller pulled hpulled
  have hfirst : created ≤ pulled := by
    rw [hcreated] at hc'
    cases hc'
    exact hle
  constructor
  · rintro ⟨window, hpos, hwindow, _⟩
    rw [requeuedFor_iff hdata hbackup htruthy hpos] at hwindow
    omega
  · intro hlt
    refine ⟨pulled + 2 * (1000 * cfg.jobTtl puller) - (created + 1000 * cfg.jobTtl creator),
      by omega, ?_, ?_⟩
    · rw [requeuedFor_iff hdata hbackup htruthy (by omega)]
      omega
    · intro heq
      rw [heq]
      omega

/-- A creator and a puller with the same TTL. -/
theorem outlives_iff_same :
    ∃ p : State (Fin 2) Nat × Watch (Fin 2),
      Outlives ⟨fun _ ↦ 3600, fun _ ↦ true⟩ p.1 7 0 1 := by
  obtain ⟨p, hp, hcreated, hpulled⟩ := System.exists_reachWhen
    (watched (⟨fun _ ↦ 3600, fun _ ↦ true⟩ : Config (Fin 2) Nat) 7) (LeftAlone 7)
    (fun p ↦ p.2.created = some (0, 0) ∧ p.2.pulled = some (1, 5))
    [.call 0 (.create 7 (.obj [])), .command 0, .command 0, .command 0, .tick 5,
      .call 1 .next, .command 1, .command 1, .command 1, .command 1, .command 1, .command 1]
    rfl (by decide)
  exact ⟨p, (outlives_iff hp hcreated hpulled).mpr (by decide)⟩

/-- A job of the agent worker, with its TTL of an hour, is pulled at once by a sandbox worker
whose `JOB_TTL_SECONDS` is ten minutes: the backup goes first. -/
theorem not_outlives :
    ¬ ∀ (p : State (Fin 2) Nat × Watch (Fin 2)) creator puller created pulled,
      (watched ⟨fun c ↦ if c = 0 then 3600 else 600, fun _ ↦ true⟩ 7).ReachWhen (LeftAlone 7) p →
      p.2.created = some (creator, created) → p.2.pulled = some (puller, pulled) →
      Outlives ⟨fun c ↦ if c = 0 then 3600 else 600, fun _ ↦ true⟩ p.1 7 creator puller := by
  obtain ⟨p, hp, hcreated, hpulled, hdata, hbackup⟩ := System.exists_reachWhen
    (watched (⟨fun c ↦ if c = 0 then 3600 else 600, fun _ ↦ true⟩ : Config (Fin 2) Nat) 7)
    (LeftAlone 7)
    (fun p ↦ p.2.created = some (0, 0) ∧ p.2.pulled = some (1, 0) ∧
      (p.1.redis.data 7).bind Cell.deadline = some 3600000 ∧
      p.1.redis.backup.has 3600000 7 = false)
    [.call 0 (.create 7 (.obj [])), .command 0, .command 0, .command 0,
      .call 1 .next, .command 1, .command 1, .command 1, .command 1, .command 1, .command 1]
    rfl (by decide)
  intro hall
  obtain ⟨window, hpos, ⟨expiry, hexpiry, hwindow⟩, _⟩ := hall p 0 1 0 0 hp hcreated hpulled
  rw [hdata] at hexpiry
  cases hexpiry
  have hthere := (hwindow 3600000 le_rfl (by omega)).2.1
  rw [hbackup] at hthere
  cases hthere

end Times

end GithubAgent.Queue
