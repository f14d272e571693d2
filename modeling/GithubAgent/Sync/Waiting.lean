import GithubAgent.Sync.RepoSync

/-!
# When a waiting caller is woken

A caller that finds the lock of its repository held enqueues nothing, although the run that
holds the lock may serve another ref; it subscribes after its request is out, when the event
may have been published; and a worker that cannot take the lock drops its request. Wake-ups
are lost in these three places only.
-/

namespace GithubAgent.Sync

open GithubAgent.Base

/-- The request of a `process_sync_request` run in progress. -/
def WorkerPc.running : WorkerPc → Option Request
  | .idle => none
  | .token q => some q
  | .acquire q _ _ => some q
  | .git q => some q
  | .mark q => some q
  | .publish q _ => some q
  | .release q => some q

/-- The request for which a run has yet to publish an event. -/
def WorkerPc.serving : WorkerPc → Option Request
  | .release _ => none
  | pc => pc.running

/-- The caller counts on an event for the request: it has none and enqueues no request. -/
def CallerPc.Relies (q : Request) : CallerPc → Prop
  | .subscribe q' => q' = q
  | .listen q' _ inbox => q' = q ∧ ∀ e ∈ inbox, e.request ≠ q
  | _ => False

instance (q : Request) : (pc : CallerPc) → Decidable (pc.Relies q)
  | .idle => .isFalse id
  | .complete _ => .isFalse id
  | .lock _ => .isFalse id
  | .request _ => .isFalse id
  | .subscribe _ => inferInstanceAs (Decidable (_ = _))
  | .listen _ _ _ => inferInstanceAs (Decidable (_ ∧ ∀ _ ∈ _, _))

section Waiting

variable {C W : Type} {cfg : Config C} {s s' : State C W} {q : Request}

/-- For a caller blocked on a request there is a queued request, a run in progress, or an
event in its subscription. -/
def WakesUp (s : State C W) : Prop :=
  ∀ c q startTime inbox, (s.callers c).pc = .listen q startTime inbox →
    q ∈ s.queue ∨ (∃ w, (s.workers w).running = some q) ∨ ∃ e ∈ inbox, e.request = q

/-- A request is queued, or a run for it has yet to publish. -/
def Promised (s : State C W) (q : Request) : Prop :=
  q ∈ s.queue ∨ ∃ w, (s.workers w).serving = some q

/-- A request is queued, or another worker's run for it has yet to publish. -/
def PromisedWithout (s : State C W) (w : W) (q : Request) : Prop :=
  q ∈ s.queue ∨ ∃ w', w' ≠ w ∧ (s.workers w').serving = some q

/-- The condition on a caller's step: it finds the lock held only when its own request is
promised. -/
def CallerKeeps (s : State C W) (c : C) : Prop :=
  match (s.callers c).pc with
  | .lock q => s.locks.has s.now q.repo = true → Promised s q
  | _ => True

/-- The condition on a worker's step: when it publishes while a caller of the request has yet
to subscribe, or drops a request that a caller relies on, the request is promised elsewhere. -/
def WorkerKeeps (s : State C W) (w : W) : Prop :=
  match s.workers w with
  | .publish q _ => (∃ c, (s.callers c).pc = .subscribe q) → PromisedWithout s w q
  | .acquire q stopAt _ => s.locks.has s.now q.repo = true → stopAt < s.now + 100 →
      (∃ c, (s.callers c).pc.Relies q) → PromisedWithout s w q
  | _ => True

/-- Every step meets the condition of the party that takes it. -/
def KeepsPromises (s : State C W) : Action C W → Prop
  | .caller c => CallerKeeps s c
  | .worker w => WorkerKeeps s w
  | _ => True

section Decidable

variable [Fintype C] [Fintype W] [DecidableEq W]

instance (s : State C W) (q : Request) : Decidable (Promised s q) :=
  inferInstanceAs (Decidable (_ ∨ ∃ _, _))

instance (s : State C W) (w : W) (q : Request) : Decidable (PromisedWithout s w q) :=
  inferInstanceAs (Decidable (_ ∨ ∃ _, _ ∧ _))

instance (s : State C W) (c : C) : Decidable (CallerKeeps s c) := by
  unfold CallerKeeps
  split <;> infer_instance

instance (s : State C W) (w : W) : Decidable (WorkerKeeps s w) := by
  unfold WorkerKeeps
  split <;> infer_instance

instance (s : State C W) : (a : Action C W) → Decidable (KeepsPromises s a)
  | .call _ _ => .isTrue trivial
  | .request _ => .isTrue trivial
  | .caller c => inferInstanceAs (Decidable (CallerKeeps s c))
  | .worker w => inferInstanceAs (Decidable (WorkerKeeps s w))
  | .git _ _ _ => .isTrue trivial
  | .tick _ => .isTrue trivial

end Decidable

/-- A caller for one ref finds the lock held by the run for another. -/
theorem not_wakesUp : ¬ ∀ s : State (Fin 2) (Fin 1), (system ⟨fun _ ↦ 300, 300⟩).Reach s →
    WakesUp s := by
  obtain ⟨s, hs, hqueue, hworker, hlisten⟩ := System.exists_reachWhen
    (system (⟨fun _ ↦ 300, 300⟩ : Config (Fin 2)) : System (State (Fin 2) (Fin 1)) _)
    System.always
    (fun s ↦ s.queue = [] ∧ (s.workers 0).running = some ⟨"octo/repo", "main", by decide⟩ ∧
      (s.callers 1).pc = .listen ⟨"octo/repo", "dev", by decide⟩ 0 [])
    [.call 0 ⟨"octo/repo", "main", by decide⟩, .caller 0, .caller 0, .caller 0, .worker 0,
      .worker 0, .worker 0, .call 1 ⟨"octo/repo", "dev", by decide⟩, .caller 1, .caller 1,
      .caller 1]
    ⟨fun _ ↦ false, rfl⟩ (by decide)
  intro h
  rcases h s hs 1 _ 0 [] hlisten with hq | ⟨w, hw⟩ | ⟨e, he, -⟩
  · rw [hqueue] at hq
    cases hq
  · have hzero : w = 0 := Subsingleton.elim _ _
    rw [hzero, hworker] at hw
    exact absurd hw (by decide)
  · cases he

theorem running_of_serving {pc : WorkerPc} (h : pc.serving = some q) : pc.running = some q := by
  cases pc with
  | release => cases h
  | idle | token | acquire | git | mark | publish => exact h

/-- A delivered event ends the wait of every subscribed caller of its request. -/
theorem relies_deliver {caller : Caller} {e : Event} (h : (caller.deliver e).pc.Relies q) :
    caller.pc.Relies q ∧ (e.request = q → caller.pc = .subscribe q) := by
  unfold Caller.deliver at h
  split at h
  · next q' t inbox hpc =>
    obtain ⟨hq, hno⟩ := h
    rw [hpc]
    refine ⟨⟨hq, fun e' he' ↦ hno e' (List.mem_append_left _ he')⟩, ?_⟩
    intro he
    exact absurd he (hno e (List.mem_append_right _ (List.mem_singleton_self e)))
  · next hother =>
    refine ⟨h, ?_⟩
    intro _
    cases hpc : caller.pc with
    | subscribe q' =>
      rw [hpc] at h
      rw [show q' = q from h]
    | listen q' t inbox => exact absurd hpc (hother q' t inbox)
    | idle | complete | lock | request =>
      rw [hpc] at h
      exact h.elim

/-- A caller comes to count on an event by enqueuing a request, or by finding the lock held. -/
theorem callerCommand_relies {c : C} {queue : List Request} {caller : Caller}
    (h : callerCommand cfg c s = some (queue, caller)) :
    s.queue ⊆ queue ∧ ∀ q, caller.pc.Relies q → (s.callers c).pc.Relies q ∨ q ∈ queue ∨
      ((s.callers c).pc = .lock q ∧ s.locks.has s.now q.repo = true) := by
  unfold callerCommand at h
  dsimp only at h
  split at h
  · cases h
  · split at h <;> cases h <;> exact ⟨List.Subset.refl _, fun _ hr ↦ hr.elim⟩
  · next q' hpc =>
    split at h
    · next hheld =>
      cases h
      refine ⟨List.Subset.refl _, ?_⟩
      rintro q rfl
      exact .inr (.inr ⟨hpc, hheld⟩)
    · cases h
      exact ⟨List.Subset.refl _, fun _ hr ↦ hr.elim⟩
  · next q' hpc =>
    cases h
    refine ⟨List.subset_append_left _ _, ?_⟩
    rintro q rfl
    exact .inr (.inl (List.mem_append_right _ (List.mem_singleton_self _)))
  · next q' hpc =>
    cases h
    refine ⟨List.Subset.refl _, ?_⟩
    rintro q ⟨rfl, -⟩
    rw [hpc]
    exact .inl rfl
  · next q' t inbox hpc =>
    split at h
    · cases h
    · next e rest =>
      split at h
      · cases h
        exact ⟨List.Subset.refl _, fun _ hr ↦ hr.elim⟩
      · split at h
        · split at h <;> cases h <;> exact ⟨List.Subset.refl _, fun _ hr ↦ hr.elim⟩
        · next hne =>
          cases h
          refine ⟨List.Subset.refl _, ?_⟩
          rintro q ⟨rfl, hno⟩
          rw [hpc]
          refine .inl ⟨rfl, ?_⟩
          intro e' he'
          rcases List.mem_cons.mp he' with rfl | he'
          · exact hne
          · exact hno e' he'

variable [DecidableEq W]

/-- A promise survives a change of one worker that moves it from the queue into the run, or
along in the run. -/
theorem Promised.update {t : State C W} {w : W} {pc : WorkerPc} (h : Promised s q)
    (hworkers : t.workers = Function.update s.workers w pc)
    (hqueue : q ∈ s.queue → q ∈ t.queue ∨ pc.serving = some q)
    (hserve : (s.workers w).serving = some q → pc.serving = some q) : Promised t q := by
  have hself (hpc : pc.serving = some q) : Promised t q := by
    refine .inr ⟨w, ?_⟩
    rw [hworkers, Function.update_self]
    exact hpc
  rcases h with hq | ⟨x, hx⟩
  · rcases hqueue hq with hq | hpc
    · exact .inl hq
    · exact hself hpc
  · by_cases hxw : x = w
    · subst hxw
      exact hself (hserve hx)
    · refine .inr ⟨x, ?_⟩
      rw [hworkers, Function.update_of_ne hxw]
      exact hx

/-- What is promised elsewhere survives any change of one worker. -/
theorem PromisedWithout.update {t : State C W} {w : W} {pc : WorkerPc} (h : PromisedWithout s w q)
    (hworkers : t.workers = Function.update s.workers w pc) (hqueue : t.queue = s.queue) :
    Promised t q := by
  rcases h with hq | ⟨x, hxw, hx⟩
  · rw [← hqueue] at hq
    exact .inl hq
  · refine .inr ⟨x, ?_⟩
    rw [hworkers, Function.update_of_ne hxw]
    exact hx

/-- Every caller that counts on an event is promised one. -/
def PromisesKept (s : State C W) : Prop :=
  ∀ c q, (s.callers c).pc.Relies q → Promised s q

omit [DecidableEq W] in
theorem PromisesKept.wakesUp (h : PromisesKept s) : WakesUp s := by
  intro c q t inbox hpc
  by_cases hevent : ∃ e ∈ inbox, e.request = q
  · exact .inr (.inr hevent)
  · have hrelies : (s.callers c).pc.Relies q := by
      rw [hpc]
      exact ⟨rfl, fun e he heq ↦ hevent ⟨e, he, heq⟩⟩
    rcases h c q hrelies with hq | ⟨w, hw⟩
    · exact .inl hq
    · exact .inr (.inl ⟨w, running_of_serving hw⟩)

/-- A permitted command of a worker keeps the promises. -/
theorem PromisesKept.worker (h : PromisesKept s) {w : W} (hok : WorkerKeeps s w)
    (hs : workerCommand cfg w s = some s') : PromisesKept s' := by
  unfold workerCommand at hs
  unfold WorkerKeeps at hok
  intro c q hrelies
  split at hs
  · next hpc =>
    split at hs
    · cases hs
    · next q' rest hqueue =>
      cases hs
      refine (h c q hrelies).update rfl ?_ ?_
      · rw [hqueue]
        intro hq
        rcases List.mem_cons.mp hq with rfl | hq
        · exact .inr rfl
        · exact .inl hq
      · simp [hpc, WorkerPc.serving, WorkerPc.running]
  · next q' hpc =>
    cases hs
    exact (h c q hrelies).update rfl .inl (by simp [hpc, WorkerPc.serving, WorkerPc.running])
  · next q' stopAt wakeAt hpc =>
    rw [hpc] at hok
    split at hs
    · cases hs
    · split at hs
      · next hheld =>
        split at hs
        · next hlate =>
          -- the request is dropped: a caller that relies on it is promised elsewhere
          cases hs
          by_cases hqq : q' = q
          · subst hqq
            exact (hok hheld hlate ⟨c, hrelies⟩).update rfl rfl
          · refine (h c q hrelies).update rfl .inl ?_
            intro hserve
            rw [hpc] at hserve
            exact absurd (Option.some.inj hserve) hqq
        · cases hs
          exact (h c q hrelies).update rfl .inl (by simp [hpc, WorkerPc.serving, WorkerPc.running])
      · cases hs
        exact (h c q hrelies).update rfl .inl (by simp [hpc, WorkerPc.serving, WorkerPc.running])
  · cases hs
  · next q' hpc =>
    cases hs
    exact (h c q hrelies).update rfl .inl (by simp [hpc, WorkerPc.serving, WorkerPc.running])
  · next q' status hpc =>
    -- the event reaches every subscribed caller; one that still relies has yet to subscribe
    rw [hpc] at hok
    cases hs
    obtain ⟨hbefore, hsub⟩ := relies_deliver hrelies
    by_cases hqq : q' = q
    · subst hqq
      exact (hok ⟨c, hsub rfl⟩).update rfl rfl
    · refine (h c q hbefore).update rfl .inl ?_
      intro hserve
      rw [hpc] at hserve
      exact absurd (Option.some.inj hserve) hqq
  · next q' hpc =>
    cases hs
    exact (h c q hrelies).update rfl .inl (by simp [hpc, WorkerPc.serving])

variable [DecidableEq C]

omit [DecidableEq W] in
/-- Replacing a caller by one that counts on nothing new keeps the promises. -/
theorem PromisesKept.setCaller (h : PromisesKept s) {c : C} {caller : Caller}
    {queue : List Request} (hqueue : s.queue ⊆ queue)
    (hcaller : ∀ q, caller.pc.Relies q → (s.callers c).pc.Relies q ∨ q ∈ queue ∨ Promised s q) :
    PromisesKept { s with queue := queue, callers := Function.update s.callers c caller } := by
  have hgrow {q : Request} (hp : Promised s q) :
      Promised { s with queue := queue, callers := Function.update s.callers c caller } q := by
    rcases hp with hq | hw
    · exact .inl (hqueue hq)
    · exact .inr hw
  intro x q hx
  by_cases hxc : x = c
  · subst hxc
    simp only [Function.update_self] at hx
    rcases hcaller q hx with hold | hq | hp
    · exact hgrow (h x q hold)
    · exact .inl hq
    · exact hgrow hp
  · simp only [Function.update_of_ne hxc] at hx
    exact hgrow (h x q hx)

/-- A permitted step keeps the promises. -/
theorem PromisesKept.step (h : PromisesKept s) {a : Action C W} (hok : KeepsPromises s a)
    (hs : step cfg s a = some s') : PromisesKept s' := by
  cases a with
  | call c q =>
    simp only [Sync.step] at hs
    split at hs
    · cases hs
      exact h.setCaller (List.Subset.refl _) fun q hr ↦ hr.elim
    · cases hs
  | request q =>
    cases hs
    intro c q' hrelies
    rcases h c q' hrelies with hq | hw
    · exact .inl (List.mem_append_left _ hq)
    · exact .inr hw
  | caller c =>
    obtain ⟨⟨queue, caller⟩, hcmd, rfl⟩ := Option.map_eq_some_iff.mp hs
    refine h.setCaller (callerCommand_relies hcmd).1 ?_
    intro q hrelies
    rcases (callerCommand_relies hcmd).2 q hrelies with hold | hq | ⟨hpc, hheld⟩
    · exact .inl hold
    · exact .inr (.inl hq)
    · simp only [KeepsPromises, CallerKeeps, hpc] at hok
      exact .inr (.inr (hok hheld))
  | worker w => exact h.worker hok hs
  | git w outcome cloned =>
    simp only [Sync.step, gitEnds] at hs
    split at hs
    · next q' hpc =>
      split at hs <;> cases hs <;> intro c q hrelies <;>
        exact (h c q hrelies).update rfl .inl (by simp [hpc, WorkerPc.serving, WorkerPc.running])
    · cases hs
  | tick ms =>
    cases hs
    exact h

/-- In a run that keeps its promises, no caller waits in vain. -/
theorem wakesUp_of_keepsPromises (h : (system cfg).ReachWhen KeepsPromises s) : WakesUp s := by
  have hkept : PromisesKept s := by
    apply h.invariant
    · rintro t ⟨cloned, rfl⟩ c q hrelies
      exact hrelies.elim
    · intro t a t' ht hok hs
      exact ht.step hok hs
  exact hkept.wakesUp

/-- A caller that requested its sync and subscribed while the run was busy with git. -/
theorem wakesUp_of_keepsPromises_git :
    ∃ s : State (Fin 1) (Fin 1), WakesUp s ∧
      (s.callers 0).pc = .listen ⟨"octo/repo", "main", by decide⟩ 0 [] := by
  obtain ⟨s, hs, hlisten⟩ := System.exists_reachWhen
    (system (⟨fun _ ↦ 300, 300⟩ : Config (Fin 1)) : System (State (Fin 1) (Fin 1)) _)
    KeepsPromises
    (fun s ↦ (s.callers 0).pc = .listen ⟨"octo/repo", "main", by decide⟩ 0 [])
    [.call 0 ⟨"octo/repo", "main", by decide⟩, .caller 0, .caller 0, .caller 0, .worker 0,
      .worker 0, .worker 0, .caller 0]
    ⟨fun _ ↦ false, rfl⟩ (by decide)
  exact ⟨s, wakesUp_of_keepsPromises hs, hlisten⟩

end Waiting

end GithubAgent.Sync
