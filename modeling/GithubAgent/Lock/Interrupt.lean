import GithubAgent.Lock.Processor

/-!
# Whose prompt a waiting job executes

All waiting jobs of a worktree write the same pending key, and the job that acquires the lock
executes what it finds there without looking at the job id stored beside it. Prompts are kept
as long as every job that reads the key finds its own entry, or none.
-/

namespace GithubAgent.Lock

open GithubAgent.Base GithubAgent.Shared

section Interrupt

variable {C : Type} {cfg : Jobs C} {s s' : JobState C}

/-- The prompts the jobs past their setup execute. -/
def executedPrompts [Fintype C] (s : JobState C) : Multiset String :=
  ∑ c, (match (s.jobs c).executed with | some prompt => {prompt} | none => 0 : Multiset String)

/-- The prompts these jobs were created with. -/
def createdPrompts [Fintype C] (cfg : Jobs C) (s : JobState C) : Multiset String :=
  ∑ c, (match (s.jobs c).executed with | some _ => {cfg.prompt c} | none => 0 : Multiset String)

/-- No live job is still in its setup. -/
def Settled (s : JobState C) : Prop :=
  ∀ c, (s.jobs c).alive = true → (s.jobs c).executed ≠ none ∨ (s.jobs c).pc = .ended

instance [Fintype C] (s : JobState C) : Decidable (Settled s) :=
  inferInstanceAs (Decidable (∀ _, _))

/-- A job reads the pending key only when the key holds nothing, the entry of this job, or
the same text. -/
def ReadsOwnPrompt (cfg : Jobs C) (s : JobState C) : JobAction C → Prop
  | .command c => (s.jobs c).pc = .getPending →
      ∀ pending ∈ s.redis.pending.get s.now cfg.key.pendingKey,
        pending.jobId = cfg.jobId c ∨ pending.prompt = cfg.prompt c
  | _ => True

instance (cfg : Jobs C) (s : JobState C) : (a : JobAction C) → Decidable (ReadsOwnPrompt cfg s a)
  | .command _ => inferInstanceAs (Decidable (_ → ∀ _ ∈ _, _))
  | .session _ _ => .isTrue trivial
  | .finish _ => .isTrue trivial
  | .error _ => .isTrue trivial
  | .crash _ => .isTrue trivial
  | .tick _ => .isTrue trivial

/-- A holder and two waiting jobs, with distinct prompts. -/
def threeJobs : Jobs (Fin 3) where
  key := ⟨"octo/repo", .pr, "7", "review-pr"⟩
  jobId c := match c with | 0 => "a" | 1 => "b" | 2 => "c"
  pid _ := 1
  prompt c := match c with | 0 => "first" | 1 => "second" | 2 => "third"
  sessionMode _ := .new
  sessionId _ := none
  sameData := by decide

/-- Both waiting jobs execute the prompt of the later one. -/
theorem not_promptsKept : ¬ ∀ s, (jobSystem threeJobs).Reach s → Settled s →
    executedPrompts s = createdPrompts threeJobs s := by
  obtain ⟨s, hs, hsettled, hlost⟩ := System.exists_reachWhen (jobSystem threeJobs) System.always
    (fun s ↦ Settled s ∧ executedPrompts s ≠ createdPrompts threeJobs s)
    [.command 0, .command 1, .command 1, .command 1, .command 1,
      .command 2, .command 2, .command 2, .command 2, .finish 0, .command 0,
      .command 1, .command 1, .command 1, .session 1 none, .finish 1, .command 1,
      .command 2, .command 2, .command 2]
    rfl (by decide)
  intro h
  exact hlost (h s hs hsettled)

variable [DecidableEq C]

/-! ### The invariant of runs whose jobs read their own prompts -/

/-- Every entry of the pending key is a job's own prompt, and so is what every job executes. -/
structure OwnPrompts (cfg : Jobs C) (s : JobState C) : Prop where
  pending : ∀ pending, s.redis.pending.get s.now cfg.key.pendingKey = some pending →
    ∃ c, pending.jobId = cfg.jobId c ∧ pending.prompt = cfg.prompt c
  prompt : ∀ c, (s.jobs c).prompt = cfg.prompt c
  executed : ∀ c prompt, (s.jobs c).executed = some prompt → prompt = cfg.prompt c

omit [DecidableEq C] in
theorem ownPrompts_initial : OwnPrompts cfg (jobInitial cfg) := by
  constructor <;> simp [jobInitial, Redis.empty]

/-- Replacing a processor by one with the same prompt, which executes it or what it executed
before, keeps the invariant. -/
theorem OwnPrompts.setJob (h : OwnPrompts cfg s) {c : C} {p : Processor} {r : Redis}
    (hpending : ∀ pending, r.pending.get s.now cfg.key.pendingKey = some pending →
      s.redis.pending.get s.now cfg.key.pendingKey = some pending ∨
        (pending.jobId = cfg.jobId c ∧ pending.prompt = cfg.prompt c))
    (hprompt : p.prompt = cfg.prompt c)
    (hexec : p.executed = (s.jobs c).executed ∨ p.executed = some p.prompt) :
    OwnPrompts cfg { s.setJob c p with redis := r } := by
  refine ⟨?_, ?_, ?_⟩
  · intro pending hp
    rcases hpending pending hp with hold | hnew
    · exact h.pending pending hold
    · exact ⟨c, hnew⟩
  · intro x
    by_cases hxc : x = c
    · subst hxc
      simpa [JobState.setJob] using hprompt
    · simpa [JobState.setJob, hxc] using h.prompt x
  · intro x prompt hx
    by_cases hxc : x = c
    · subst hxc
      simp only [JobState.setJob, Function.update_self] at hx
      rcases hexec with hold | hnew
      · exact h.executed x prompt (hold ▸ hx)
      · rw [hnew] at hx
        rw [← Option.some.inj hx, hprompt]
    · simp only [JobState.setJob, Function.update_of_ne hxc] at hx
      exact h.executed x prompt hx

theorem cleanup_prompt (p : Processor) : p.cleanup.prompt = p.prompt := by
  unfold Processor.cleanup
  split <;> rfl

theorem cleanup_executed (p : Processor) : p.cleanup.executed = p.executed := by
  unfold Processor.cleanup
  split <;> rfl

theorem setLock_pending {r r' : Redis} {now ttl : Nat} {key : WorktreeKey} {info : LockInfo}
    {granted : Bool} (h : setLock r now key info ttl = (r', granted)) : r'.pending = r.pending := by
  cases h
  rfl

theorem releaseScript_pending (r : Redis) (now : Nat) (key : WorktreeKey) (jobId : String) :
    (releaseScript r now key jobId).1.pending = r.pending := by
  unfold releaseScript
  split
  · rfl
  · split <;> rfl

omit [DecidableEq C] in
/-- A command leaves the job's prompt alone, unless it reads another one from the pending key;
and it writes no entry but the job's own. -/
theorem jobCommand_prompt {c : C} {now : Nat} {r r' : Redis} {p p' : Processor}
    (h : jobCommand cfg c now r p = some (r', p')) :
    (p'.executed = p.executed ∨ p'.executed = some p'.prompt) ∧
      (p'.prompt = p.prompt ∨ (p.pc = .getPending ∧
        ∃ pending, r.pending.get now cfg.key.pendingKey = some pending ∧
          p'.prompt = pending.prompt)) ∧
      ∀ pending, r'.pending.get now cfg.key.pendingKey = some pending →
        r.pending.get now cfg.key.pendingKey = some pending ∨
          (pending.jobId = cfg.jobId c ∧ pending.prompt = p.prompt) := by
  unfold jobCommand at h
  split at h
  · split at h
    · next hlock =>
      cases h
      refine ⟨.inr rfl, .inl rfl, ?_⟩
      rw [setLock_pending hlock]
      exact fun _ ↦ .inl
    · next hlock =>
      cases h
      refine ⟨.inl rfl, .inl rfl, ?_⟩
      rw [setLock_pending hlock]
      exact fun _ ↦ .inl
  · cases h
    exact ⟨.inl rfl, .inl rfl, fun _ ↦ .inl⟩
  · cases h
    refine ⟨.inl rfl, .inl rfl, ?_⟩
    intro pending hp
    right
    rw [setPendingPrompt, Keys.get_setex_self] at hp
    split at hp
    · cases hp
      exact ⟨rfl, rfl⟩
    · cases hp
  · cases h
    exact ⟨.inl rfl, .inl rfl, fun _ ↦ .inl⟩
  · split at h
    · cases h
    · split at h
      · cases h
        exact ⟨.inl rfl, .inl rfl, fun _ ↦ .inl⟩
      · cases h
        exact ⟨.inl rfl, .inl rfl, fun _ ↦ .inl⟩
      · cases h
        exact ⟨.inl (cleanup_executed p), .inl (cleanup_prompt p), fun _ ↦ .inl⟩
  · split at h
    · next hlock =>
      cases h
      refine ⟨.inl rfl, .inl rfl, ?_⟩
      rw [setLock_pending hlock]
      exact fun _ ↦ .inl
    · next hlock =>
      cases h
      refine ⟨.inl (cleanup_executed p), .inl (cleanup_prompt p), ?_⟩
      rw [setLock_pending hlock]
      exact fun _ ↦ .inl
  · next hpc =>
    unfold getPendingPrompt at h
    cases hp : r.pending.get now cfg.key.pendingKey with
    | none =>
      simp only [hp, Option.some.injEq, Prod.mk.injEq] at h
      obtain ⟨rfl, rfl⟩ := h
      refine ⟨.inr rfl, .inl rfl, ?_⟩
      intro pending hpending
      rw [hp] at hpending
      cases hpending
    | some pending =>
      simp only [hp, Option.some.injEq, Prod.mk.injEq] at h
      obtain ⟨rfl, rfl⟩ := h
      refine ⟨.inl rfl, .inr ⟨hpc, pending, rfl, rfl⟩, ?_⟩
      intro other hother
      rw [Keys.get_del_self] at hother
      cases hother
  · cases h
  · cases h
  · cases h
    refine ⟨.inl rfl, .inl rfl, ?_⟩
    rw [releaseScript_pending]
    exact fun _ ↦ .inl
  · cases h

theorem resume_prompt (p : Processor) (existing : Option String) :
    (p.resume existing).prompt = p.prompt ∧
      (p.resume existing).executed = some (p.resume existing).prompt := by
  unfold Processor.resume
  split <;> exact ⟨rfl, rfl⟩

/-- A permitted step keeps the invariant. -/
theorem OwnPrompts.step (h : OwnPrompts cfg s) {a : JobAction C} (hok : ReadsOwnPrompt cfg s a)
    (hs : jobStep cfg s a = some s') : OwnPrompts cfg s' := by
  have hsame (pending : PendingPrompt)
      (hp : s.redis.pending.get s.now cfg.key.pendingKey = some pending) (c : C) :
      s.redis.pending.get s.now cfg.key.pendingKey = some pending ∨
        (pending.jobId = cfg.jobId c ∧ pending.prompt = cfg.prompt c) := .inl hp
  cases a with
  | command c =>
    simp only [jobStep] at hs
    split at hs
    · obtain ⟨⟨r, p⟩, hcmd, rfl⟩ := Option.map_eq_some_iff.mp hs
      obtain ⟨hexec, hprompt, hpending⟩ := jobCommand_prompt hcmd
      rw [h.prompt c] at hpending
      refine h.setJob hpending ?_ hexec
      rcases hprompt with hkept | ⟨hpc, pending, hget, htaken⟩
      · rw [hkept, h.prompt c]
      · rw [htaken]
        -- the entry it reads is its own, or one with the same text
        rcases hok hpc pending hget with hid | htext
        · obtain ⟨c', hid', htext'⟩ := h.pending pending hget
          rw [htext', cfg.sameData c' c (hid' ▸ hid)]
        · exact htext
    · cases hs
  | session c existing =>
    simp only [jobStep] at hs
    split at hs
    · cases hs
      obtain ⟨hprompt, hexec⟩ := resume_prompt (s.jobs c) existing
      exact h.setJob (fun pending hp ↦ hsame pending hp c) (hprompt.trans (h.prompt c)) (.inr hexec)
    · cases hs
  | finish c | error c =>
    simp only [jobStep] at hs
    split at hs
    · cases hs
      exact h.setJob (fun pending hp ↦ hsame pending hp c)
        ((cleanup_prompt _).trans (h.prompt c)) (.inl (cleanup_executed _))
    · cases hs
  | crash c =>
    simp only [jobStep] at hs
    split at hs
    · cases hs
      exact h.setJob (fun pending hp ↦ hsame pending hp c) (h.prompt c) (.inl rfl)
    · cases hs
  | tick ms =>
    cases hs
    refine ⟨?_, h.prompt, h.executed⟩
    intro pending hp
    exact h.pending pending (Keys.get_eq_some_of_le (Nat.le_add_right _ _) hp)

/-- In a run whose jobs read their own prompts, the jobs that acquire the lock execute the
prompts they were created with. -/
theorem promptsKept_of_readsOwnPrompt [Fintype C]
    (h : (jobSystem cfg).ReachWhen (ReadsOwnPrompt cfg) s) :
    executedPrompts s = createdPrompts cfg s := by
  have hown : OwnPrompts cfg s := by
    apply h.invariant
    · intro t ht
      rw [ht]
      exact ownPrompts_initial
    · intro t a t' ht hok hs
      exact ht.step hok hs
  apply Finset.sum_congr rfl
  intro c _
  cases hc : (s.jobs c).executed with
  | none => rfl
  | some prompt => rw [hown.executed c prompt hc]

/-- One waiting job, which takes over with its own prompt. -/
theorem promptsKept_of_readsOwnPrompt_wait :
    ∃ s, executedPrompts s = createdPrompts threeJobs s ∧ (s.jobs 1).executed = some "second" := by
  obtain ⟨s, hs, hexec⟩ := System.exists_reachWhen (jobSystem threeJobs) (ReadsOwnPrompt threeJobs)
    (fun s ↦ (s.jobs 1).executed = some "second")
    [.command 0, .command 1, .command 1, .command 1, .command 1, .finish 0, .command 0,
      .command 1, .command 1, .command 1, .session 1 (some "s")]
    rfl (by decide)
  exact ⟨s, promptsKept_of_readsOwnPrompt hs, hexec⟩

end Interrupt

end GithubAgent.Lock
