import GithubAgent.Base.Lists
import GithubAgent.Session.Inbox

/-!
# No message is lost or executed twice

The messages that were processed are those of the session, each in one place: every step of a run
moves messages between its inbox, its buffer, its prompt and its SDK runs, and a connection adds
its message once. The condition on the steps is exact: a step that does not meet it loses or repeats
a message, or leaves one that no run will drain.
-/

namespace GithubAgent.Session.Inbox

open GithubAgent.Base GithubAgent.Executor

/-! ### What one run does -/

section Run

variable {n : Nat} {v v' : View} {a : RunAction}

/-- An SDK run goes on, or has ended and the drain is next. -/
def WorkerRun.Executing (r : WorkerRun) : Prop := r.pc = .running ∨ r.pc = .draining

/-- An SDK run takes the messages in the prompt, so until the drain none wait to be run; a run
continues for the messages it has drained. -/
structure WorkerRun.Settled (r : WorkerRun) : Prop where
  taken : r.Executing → r.current = []
  prompted : r.pc = .continuing → r.current ≠ []

/-- A drain returns every message that is not blank. -/
theorem popInboxMessages_eq {inbox : List Message} (h : ∀ m ∈ inbox, m.blank = false) :
    popInboxMessages inbox = inbox := by
  refine List.filter_eq_self.mpr fun m hm ↦ decide_eq_true fun hempty ↦ ?_
  have hblank := h m hm
  rw [Message.blank, hempty] at hblank
  cases hblank

/-- What a step does to the messages: nothing; it starts an SDK run with those in the prompt; it
puts one into the inbox; or it drains the inbox into the next prompt. -/
inductive View.Moves (v v' : View) : Prop where
  | none (hexecuting : v'.run.Executing → v.run.Executing)
      (hcontinuing : v'.run.pc = .continuing → v.run.pc = .continuing)
      (hinbox : v'.inbox = v.inbox) (hbuffer : v'.run.buffer = v.run.buffer)
      (hcurrent : v'.run.current = v.run.current) (hruns : v'.run.sdkRuns = v.run.sdkRuns)
  | executes (hpc : v'.run.pc = .running) (hinbox : v'.inbox = v.inbox)
      (hbuffer : v'.run.buffer = v.run.buffer) (hcurrent : v'.run.current = [])
      (hruns : v'.run.sdkRuns = v.run.sdkRuns ++ [v.run.current])
  | dispatches (m : Message) (hpc : v'.run.pc = v.run.pc) (hinbox : v'.inbox = v.inbox ++ [m])
      (hbuffer : v.run.buffer = m :: v'.run.buffer) (hcurrent : v'.run.current = v.run.current)
      (hruns : v'.run.sdkRuns = v.run.sdkRuns)
  | drains (hpc : v'.run.pc = .continuing) (hfull : v.inbox ≠ []) (hinbox : v'.inbox = [])
      (hbuffer : v'.run.buffer = v.run.buffer) (hbefore : v.run.current = []) (hcurrent : v'.run.current = v.inbox)
      (hruns : v'.run.sdkRuns = v.run.sdkRuns)

/-- A step that keeps the messages of the run does nothing else to messages than that. -/
theorem View.step_moves (h : v.step n a = some v') (hkeeps : v.run.Keeps n a)
    (hinbox : ∀ m ∈ v.inbox, m.blank = false) (hbuffer : ∀ m ∈ v.run.buffer, m.blank = false)
    (hsettled : v.run.Settled) : v.Moves v' := by
  cases a with
  | start | supersede | complete | completeFails | finish =>
    obtain ⟨-, rfl⟩ := System.guarded_eq_some h
    exact .none (by simp [WorkerRun.Executing]) (by simp) rfl rfl rfl rfl
  | subscribe | stopAgent =>
    obtain ⟨-, rfl⟩ := System.guarded_eq_some h
    exact .none id id rfl rfl rfl rfl
  | sdkEnd =>
    obtain ⟨hpc, rfl⟩ := System.guarded_eq_some h
    exact .none (fun _ ↦ .inl hpc) (by simp) rfl rfl rfl rfl
  | setUp ok =>
    obtain ⟨-, rfl⟩ := System.guarded_eq_some h
    exact .executes rfl rfl rfl rfl rfl
  | disconnect =>
    obtain ⟨-, rfl⟩ := System.guarded_eq_some h
    exact .none id id rfl hkeeps.symm rfl rfl
  | dispatch =>
    simp only [View.step] at h
    split at h
    · cases h
    · next m rest hlist =>
      rw [hbuffer m (hlist ▸ List.mem_cons_self), if_neg (by simp), Option.some.injEq] at h
      subst h
      exact .dispatches m rfl rfl hlist rfl rfl
  | dispatchFails =>
    simp only [View.step, show v.run.buffer = [] from hkeeps] at h
    cases h
  | drain =>
    simp only [View.step, Option.ite_none_right_eq_some] at h
    obtain ⟨hpc, h⟩ := h
    have hcurrent : v.run.current = [] := hsettled.taken (.inr hpc)
    rw [popInboxMessages_eq hinbox] at h
    split at h
    · next hfull =>
      obtain rfl := Option.some.inj h
      exact .drains rfl hfull.2 rfl rfl hcurrent rfl rfl
    · next hnone =>
      obtain rfl := Option.some.inj h
      refine .none (by simp [WorkerRun.Executing]) (by simp) ?_ rfl rfl rfl
      by_cases hbridge : v.run.bridge = true
      · have hempty : v.inbox = [] := by simpa [hbridge] using hnone
        simp [hbridge, hempty]
      · simp [hbridge]
  | autoContinue =>
    simp only [View.step, Option.ite_none_right_eq_some] at h
    obtain ⟨-, h⟩ := h
    have hleft : v.run.continueCount < n := hkeeps
    rw [if_pos hleft, Option.some.injEq] at h
    subst h
    exact .executes rfl rfl rfl rfl rfl
  | stop =>
    simp only [View.step, Option.ite_none_right_eq_some] at h
    obtain ⟨-, h⟩ := h
    split at h
    · next hbridge =>
      obtain rfl := Option.some.inj h
      exact .none (by simp [WorkerRun.Executing]) (by simp) rfl (hkeeps hbridge).symm rfl rfl
    · obtain rfl := Option.some.inj h
      exact .none (by simp [WorkerRun.Executing]) (by simp) rfl rfl rfl rfl
  | fail marked =>
    obtain ⟨-, rfl⟩ := System.guarded_eq_some h
    exact .none (by simp [WorkerRun.Executing]) (by simp) rfl rfl (if_neg hkeeps) rfl

/-- The step moves messages and loses none. -/
theorem View.Moves.perm (h : v.Moves v') :
    (v'.inbox ++ v'.run.messages).Perm (v.inbox ++ v.run.messages) := by
  refine List.perm_iff_count.mpr fun m ↦ ?_
  simp only [WorkerRun.messages, List.count_append]
  cases h with
  | none _ _ hinbox hbuffer hcurrent hruns => rw [hinbox, hbuffer, hcurrent, hruns]
  | executes _ hinbox hbuffer hcurrent hruns =>
    rw [hinbox, hbuffer, hcurrent, hruns]
    simp
    omega
  | dispatches m' _ hinbox hbuffer hcurrent hruns =>
    rw [hinbox, hbuffer, hcurrent, hruns, List.count_append, List.count_cons, List.count_cons]
    simp
    omega
  | drains _ _ hinbox hbuffer hbefore hcurrent hruns =>
    rw [hinbox, hbuffer, hbefore, hcurrent, hruns]
    simp
    omega

/-- Only a listener fills the buffer. -/
theorem View.Moves.buffer_subset (h : v.Moves v') : v'.run.buffer ⊆ v.run.buffer := by
  cases h with
  | none _ _ _ hbuffer => exact hbuffer ▸ List.Subset.refl _
  | executes _ _ hbuffer => exact hbuffer ▸ List.Subset.refl _
  | dispatches m _ _ hbuffer => exact hbuffer ▸ List.subset_cons_self m _
  | drains _ _ _ hbuffer => exact hbuffer ▸ List.Subset.refl _

/-- What comes into the inbox was on its way there. -/
theorem View.Moves.inbox_subset (h : v.Moves v') : v'.inbox ⊆ v.inbox ++ v.run.buffer := by
  cases h with
  | none _ _ hinbox => exact hinbox ▸ List.subset_append_left _ _
  | executes _ hinbox => exact hinbox ▸ List.subset_append_left _ _
  | dispatches m _ hinbox hbuffer =>
    rw [hinbox, hbuffer]
    have hnew : [m] ⊆ m :: v'.run.buffer := List.cons_subset_cons m (List.nil_subset _)
    exact List.append_subset.mpr ⟨List.subset_append_left _ _,
      List.subset_append_of_subset_right _ hnew⟩
  | drains _ _ hinbox => exact hinbox ▸ List.nil_subset _

/-- An SDK run leaves no message in the prompt it was started with, and a run continues only for
messages. -/
theorem View.Moves.settled (h : v.Moves v') (hsettled : v.run.Settled) : v'.run.Settled := by
  cases h with
  | none hexecuting hcontinuing _ _ hcurrent =>
    refine ⟨fun hpc ↦ ?_, fun hpc ↦ ?_⟩
    · rw [hcurrent, hsettled.taken (hexecuting hpc)]
    · rw [hcurrent]
      exact hsettled.prompted (hcontinuing hpc)
  | executes hpc _ _ hcurrent =>
    refine ⟨fun _ ↦ hcurrent, fun hafter ↦ ?_⟩
    rw [hpc] at hafter
    cases hafter
  | dispatches _ hpc _ _ hcurrent =>
    refine ⟨fun hafter ↦ ?_, fun hafter ↦ ?_⟩
    · rw [WorkerRun.Executing, hpc] at hafter
      rw [hcurrent, hsettled.taken hafter]
    · rw [hcurrent]
      exact hsettled.prompted (hpc.symm.trans hafter)
  | drains hpc hfull _ _ _ hcurrent =>
    refine ⟨fun hafter ↦ ?_, fun _ ↦ ?_⟩
    · simp [WorkerRun.Executing, hpc] at hafter
    · rw [hcurrent]
      exact hfull

/-- A step after which the run and the inbox have every message they had keeps the messages of the
run. -/
theorem View.keeps_of_count (h : v.step n a = some v') (hsettled : v.run.Settled)
    (hcount : ∀ m ∈ v.inbox ++ v.run.messages,
      (v'.inbox ++ v'.run.messages).count m = (v.inbox ++ v.run.messages).count m) :
    v.run.Keeps n a := by
  have hbuffer {m : Message} (hm : m ∈ v.run.buffer) : m ∈ v.inbox ++ v.run.messages :=
    List.mem_append_right _ (List.mem_append_left _ (List.mem_append_left _ hm))
  have hcurrent {m : Message} (hm : m ∈ v.run.current) : m ∈ v.inbox ++ v.run.messages :=
    List.mem_append_right _ (List.mem_append_left _ (List.mem_append_right _ hm))
  have hempty {l : List Message} (hnone : ∀ m ∈ l, l.count m = 0) : l = [] :=
    List.eq_nil_iff_forall_not_mem.mpr fun m hm ↦ List.count_eq_zero.mp (hnone m hm) hm
  cases a with
  | disconnect =>
    obtain ⟨-, rfl⟩ := System.guarded_eq_some h
    refine hempty fun m hm ↦ ?_
    have hsame := hcount m (hbuffer hm)
    simp only [WorkerRun.messages, List.count_append, List.count_nil] at hsame
    omega
  | dispatchFails =>
    simp only [View.step] at h
    split at h
    · cases h
    · next m rest hlist =>
      obtain rfl := Option.some.inj h
      have hsame := hcount m (hbuffer (hlist ▸ List.mem_cons_self))
      simp only [WorkerRun.messages, List.count_append, hlist, List.count_cons_self] at hsame
      omega
  | autoContinue =>
    obtain ⟨hpc, h⟩ := Option.ite_none_right_eq_some.mp h
    split at h
    · next hleft => exact hleft
    · obtain rfl := Option.some.inj h
      refine absurd (hempty fun m hm ↦ ?_) (hsettled.prompted hpc)
      have hsame := hcount m (hcurrent hm)
      simp only [WorkerRun.messages, List.count_append, List.count_nil] at hsame
      omega
  | stop =>
    intro hbridge
    obtain ⟨-, h⟩ := Option.ite_none_right_eq_some.mp h
    rw [if_pos hbridge, Option.some.injEq] at h
    subst h
    refine hempty fun m hm ↦ ?_
    have hsame := hcount m (hbuffer hm)
    simp only [WorkerRun.messages, List.count_append, List.count_nil] at hsame
    omega
  | fail marked =>
    intro hpc
    obtain ⟨-, rfl⟩ := System.guarded_eq_some h
    refine absurd (hempty fun m hm ↦ ?_) (hsettled.prompted hpc)
    have hsame := hcount m (hcurrent hm)
    simp only [WorkerRun.messages, List.count_append, hpc, ↓reduceIte, List.count_nil] at hsame
    omega
  | _ => trivial

end Run

section System

variable {C : Type} {n i : Nat} {s s' : InboxState C} {r : WorkerRun} {v : View}

/-- Where a run steps that was going to drain, it or another one still is, or there is nothing left
to drain. -/
theorem InboxState.HandsOn.drained {a : RunAction} (hands : s.HandsOn n i r a)
    (h : (View.mk s.status s.inbox r).step n a = some v) (hkeeps : r.Keeps n a)
    (hblank : ∀ m ∈ s.inbox, m.blank = false) (hwill : r.willDrain n = true) :
    v.run.willDrain n = true ∨ s.othersDrain n i = true ∨ s.undrained = [] ∨
      (v.inbox = [] ∧ s.inTransit = []) := by
  cases a with
  | start =>
    obtain ⟨-, rfl⟩ := System.guarded_eq_some h
    exact .inl rfl
  | setUp ok =>
    obtain ⟨-, rfl⟩ := System.guarded_eq_some h
    rcases hands with hok | hempty | hothers
    · exact .inl hok
    · exact .inr (.inr (.inl hempty))
    · exact .inr (.inl hothers)
  | subscribe | disconnect | stopAgent =>
    obtain ⟨-, rfl⟩ := System.guarded_eq_some h
    exact .inl hwill
  | dispatch =>
    simp only [View.step] at h
    split at h
    · cases h
    · split at h
      · obtain rfl := Option.some.inj h
        exact .inl hwill
      · obtain rfl := Option.some.inj h
        exact .inl hwill
  | dispatchFails =>
    simp only [View.step, show r.buffer = [] from hkeeps] at h
    cases h
  | sdkEnd =>
    obtain ⟨hpc, rfl⟩ := System.guarded_eq_some h
    have hrunning : r.pc = .running := hpc
    simp only [WorkerRun.willDrain, hrunning] at hwill
    exact .inl hwill
  | supersede =>
    rcases hands with hempty | hothers
    · exact .inr (.inr (.inl hempty))
    · exact .inr (.inl hothers)
  | drain =>
    simp only [View.step, Option.ite_none_right_eq_some] at h
    obtain ⟨hpc, h⟩ := h
    have hbridge : r.bridge = true := by simpa only [WorkerRun.willDrain, hpc] using hwill
    rw [popInboxMessages_eq hblank] at h
    rcases hands hbridge with ⟨hinbox, hcount⟩ | htransit | hothers
    · rw [if_pos ⟨hbridge, hinbox⟩, Option.some.injEq] at h
      subst h
      exact .inl (by simp [WorkerRun.willDrain, hbridge, hcount])
    · have hempty : v.inbox = [] := by
        rw [if_pos hbridge] at h
        split at h
        · obtain rfl := Option.some.inj h
          rfl
        · obtain rfl := Option.some.inj h
          rfl
      exact .inr (.inr (.inr ⟨hempty, htransit⟩))
    · exact .inr (.inl hothers)
  | autoContinue =>
    simp only [View.step, Option.ite_none_right_eq_some] at h
    obtain ⟨hpc, h⟩ := h
    have hleft : r.continueCount < n := hkeeps
    rw [if_pos hleft, Option.some.injEq] at h
    subst h
    simp only [WorkerRun.willDrain, hpc, Bool.and_eq_true] at hwill
    exact .inl hwill.1
  | complete | completeFails | stop | finish =>
    simp only [View.step, Option.ite_none_right_eq_some] at h
    simp [WorkerRun.willDrain, h.1] at hwill
  | fail marked =>
    rcases hands with hempty | hothers
    · exact .inr (.inr (.inl hempty))
    · exact .inr (.inl hothers)

end System

/-! ### What the connections have in hand -/

section Connections

variable {C : Type} {connections : C → Option (Await × Message)}
  {received processed : List Message} {c : C} {m : Message}

/-- Each message in hand is that of one connection, was received, is not blank, and is not yet
processed; a message is processed once. -/
structure InHand (connections : C → Option (Await × Message)) (received processed : List Message) :
    Prop where
  subset : ∀ m ∈ processed, m ∈ received
  nonblank : ∀ m ∈ processed, m.blank = false
  nodup : processed.Nodup
  handled : ∀ c p, connections c = some p →
    p.2 ∈ received ∧ p.2 ∉ processed ∧ p.2.blank = false
  distinct : ∀ c c' p p', connections c = some p → connections c' = some p' → p.2 = p'.2 → c = c'

/-- More may have been received than is in hand. -/
theorem InHand.append (h : InHand connections received processed) (m : Message) :
    InHand connections (received ++ [m]) processed where
  subset m' hm' := List.mem_append_left _ (h.subset m' hm')
  nonblank := h.nonblank
  nodup := h.nodup
  handled c p hp := ⟨List.mem_append_left _ (h.handled c p hp).1, (h.handled c p hp).2⟩
  distinct := h.distinct

variable [DecidableEq C]

theorem update_none_eq_some {c' : C} {p : Await × Message} :
    Function.update connections c none c' = some p ↔ c' ≠ c ∧ connections c' = some p := by
  by_cases h : c' = c
  · simp [h]
  · simp [h]

/-- A connection turns to another await with the message it has in hand. -/
theorem InHand.turn (h : InHand connections received processed) {a : Await} (b : Await)
    (hc : connections c = some (a, m)) :
    InHand (Function.update connections c (some (b, m))) received processed := by
  have hback : ∀ c' p, Function.update connections c (some (b, m)) c' = some p →
      ∃ a', connections c' = some (a', p.2) := by
    intro c' p hp
    by_cases heq : c' = c
    · subst heq
      rw [Function.update_self, Option.some.injEq] at hp
      exact ⟨a, hp ▸ hc⟩
    · rw [Function.update_of_ne heq] at hp
      exact ⟨p.1, hp⟩
  refine ⟨h.subset, h.nonblank, h.nodup, fun c' p hp ↦ ?_, fun c₁ c₂ p₁ p₂ h₁ h₂ heq ↦ ?_⟩
  · obtain ⟨a', ha'⟩ := hback c' p hp
    exact h.handled c' (a', p.2) ha'
  · obtain ⟨a₁, ha₁⟩ := hback c₁ p₁ h₁
    obtain ⟨a₂, ha₂⟩ := hback c₂ p₂ h₂
    exact h.distinct c₁ c₂ _ _ ha₁ ha₂ heq

/-- A connection that fails drops its message. -/
theorem InHand.drop (h : InHand connections received processed) (c : C) :
    InHand (Function.update connections c none) received processed where
  subset := h.subset
  nonblank := h.nonblank
  nodup := h.nodup
  handled c' p hp := h.handled c' p (update_none_eq_some.mp hp).2
  distinct c₁ c₂ p₁ p₂ h₁ h₂ :=
    h.distinct c₁ c₂ p₁ p₂ (update_none_eq_some.mp h₁).2 (update_none_eq_some.mp h₂).2

/-- The message of a connection has been processed. -/
theorem InHand.process (h : InHand connections received processed) {a : Await}
    (hc : connections c = some (a, m)) :
    InHand (Function.update connections c none) received (processed ++ [m]) := by
  obtain ⟨hreceived, hnew, hblank⟩ := h.handled c (a, m) hc
  refine ⟨?_, ?_, ?_, ?_, (h.drop c).distinct⟩
  · intro m' hm'
    rcases List.mem_append.mp hm' with hm' | hm'
    · exact h.subset m' hm'
    · exact List.mem_singleton.mp hm' ▸ hreceived
  · intro m' hm'
    rcases List.mem_append.mp hm' with hm' | hm'
    · exact h.nonblank m' hm'
    · exact List.mem_singleton.mp hm' ▸ hblank
  · exact List.nodup_append.mpr ⟨h.nodup, List.nodup_singleton m, fun m₁ h₁ m₂ h₂ heq ↦
      hnew (List.mem_singleton.mp h₂ ▸ heq ▸ h₁)⟩
  · intro c' p hp
    obtain ⟨hne, hp⟩ := update_none_eq_some.mp hp
    obtain ⟨hreceived', hnew', hblank'⟩ := h.handled c' p hp
    refine ⟨hreceived', fun hmem ↦ ?_, hblank'⟩
    rcases List.mem_append.mp hmem with hmem | hmem
    · exact hnew' hmem
    · exact hne (h.distinct c' c p (a, m) hp hc (List.mem_singleton.mp hmem))

/-- A connection takes in a message that no other one has. -/
theorem InHand.receive (h : InHand connections received processed) (a : Await)
    (hnew : m ∉ received) (hblank : m.blank = false) :
    InHand (Function.update connections c (some (a, m))) (received ++ [m]) processed := by
  have hcases : ∀ c' p, Function.update connections c (some (a, m)) c' = some p →
      (c' = c ∧ p.2 = m) ∨ (connections c' = some p ∧ p.2 ≠ m) := by
    intro c' p hp
    by_cases heq : c' = c
    · subst heq
      rw [Function.update_self, Option.some.injEq] at hp
      exact .inl ⟨rfl, hp ▸ rfl⟩
    · rw [Function.update_of_ne heq] at hp
      exact .inr ⟨hp, fun heq ↦ hnew (heq ▸ (h.handled c' p hp).1)⟩
  refine ⟨(h.append m).subset, h.nonblank, h.nodup, fun c' p hp ↦ ?_, ?_⟩
  · rcases hcases c' p hp with ⟨-, hm⟩ | ⟨hp, -⟩
    · rw [hm]
      exact ⟨List.mem_append_right _ List.mem_cons_self, fun hmem ↦ hnew (h.subset m hmem),
        hblank⟩
    · exact (h.append m).handled c' p hp
  · intro c₁ c₂ p₁ p₂ h₁ h₂ heq
    rcases hcases c₁ p₁ h₁ with ⟨rfl, hm₁⟩ | ⟨h₁, hm₁⟩
    · rcases hcases c₂ p₂ h₂ with ⟨rfl, -⟩ | ⟨-, hm₂⟩
      · rfl
      · exact absurd (heq ▸ hm₁) hm₂
    · rcases hcases c₂ p₂ h₂ with ⟨rfl, hm₂⟩ | ⟨h₂, -⟩
      · exact absurd (heq.trans hm₂) hm₁
      · exact h.distinct c₁ c₂ p₁ p₂ h₁ h₂ heq

end Connections

/-! ### The invariant -/

section Invariant

variable {C : Type} {n : Nat} {s s' : InboxState C} {m : Message}

/-- The messages that were processed are those of the session, each once; no SDK run that goes on
leaves messages waiting in the prompt; what is not drained will be. -/
structure Conserved (n : Nat) (s : InboxState C) : Prop where
  inHand : InHand s.connections s.received s.processed
  placed : s.places.Perm s.processed
  settled : ∀ r ∈ s.runs, r.Settled
  drained : s.undrained ≠ [] → s.runs.any (WorkerRun.willDrain n) = true

theorem Conserved.exactlyOnce (h : Conserved n s) : ExactlyOnce n s where
  once m hm := by
    rw [h.placed.count_eq m]
    exact List.count_eq_one_of_mem h.inHand.nodup hm
  drained := h.drained

theorem conserved_init (h : InboxInit s) : Conserved n s := by
  obtain ⟨-, hinbox, hconnections, hruns, -, hprocessed⟩ := h
  refine ⟨⟨?_, ?_, ?_, ?_, ?_⟩, ?_, ?_, ?_⟩
  · simp [hprocessed]
  · simp [hprocessed]
  · simp [hprocessed]
  · simp [hconnections]
  · simp [hconnections]
  · simp [InboxState.places, hinbox, hruns, hprocessed]
  · simp [hruns]
  · simp [InboxState.undrained, InboxState.inTransit, hinbox, hruns]

/-- A message in the inbox or on its way there has been processed, so it is not blank. -/
theorem Conserved.nonblank (h : Conserved n s) (hm : m ∈ s.undrained) : m.blank = false := by
  have hplaces : m ∈ s.places := by
    rcases List.mem_append.mp hm with hm | hm
    · exact List.mem_append_left _ hm
    · obtain ⟨r, hr, hm⟩ := List.mem_flatMap.mp hm
      have hheld : m ∈ r.messages := List.mem_append_left _ (List.mem_append_left _ hm)
      exact List.mem_append_right _ (List.mem_flatMap.mpr ⟨r, hr, hheld⟩)
  exact h.inHand.nonblank m (h.placed.mem_iff.mp hplaces)

@[simp]
theorem WorkerRun.willDrain_deliver (r : WorkerRun) :
    (r.deliver m).willDrain n = r.willDrain n := by
  rw [WorkerRun.deliver]
  split <;> rfl

theorem WorkerRun.Settled.deliver {r : WorkerRun} (h : r.Settled) : (r.deliver m).Settled := by
  rw [WorkerRun.deliver]
  split
  · exact ⟨h.taken, h.prompted⟩
  · exact h

theorem WorkerRun.messages_deliver (r : WorkerRun) : (r.deliver m).messages.Perm
    (if r.subscribed then r.messages ++ [m] else r.messages) := by
  rw [WorkerRun.deliver]
  split
  · refine List.perm_iff_count.mpr fun m' ↦ ?_
    simp only [WorkerRun.messages, List.count_append]
    omega
  · exact .refl _

/-- A publish puts the message into as many places as there are listeners. -/
theorem flatMap_messages_deliver (runs : List WorkerRun) (m : Message) :
    ((runs.map (WorkerRun.deliver m)).flatMap WorkerRun.messages).Perm
      (List.replicate (runs.countP WorkerRun.subscribed) m ++ runs.flatMap WorkerRun.messages) := by
  rw [List.flatMap_map]
  refine (List.Perm.flatMap_left runs fun r _ ↦ r.messages_deliver).trans ?_
  exact flatMap_append_perm_replicate runs _ WorkerRun.subscribed m

/-- A job is created, and its prompt holds the given messages. -/
theorem Conserved.created (h : Conserved n s) (prompt : List Message)
    {connections : C → Option (Await × Message)}
    (hhand : InHand connections s.received (s.processed ++ prompt)) :
    Conserved n { s with
      connections := connections
      runs := s.runs ++ [.created prompt]
      processed := s.processed ++ prompt } where
  inHand := hhand
  placed := by
    have hprompt : (WorkerRun.created prompt).messages = prompt := by
      simp [WorkerRun.created, WorkerRun.messages]
    rw [InboxState.places, List.flatMap_append, List.flatMap_singleton, hprompt,
      ← List.append_assoc]
    exact h.placed.append_right prompt
  settled r hr := by
    rcases List.mem_append.mp hr with hr | hr
    · exact h.settled r hr
    · rw [List.mem_singleton.mp hr]
      exact ⟨by simp [WorkerRun.Executing, WorkerRun.created], by simp [WorkerRun.created]⟩
  drained _ := by
    rw [List.any_append]
    exact Bool.or_eq_true_iff.mpr (.inr rfl)

/-- The messages of the session, with those of one run apart. -/
theorem places_perm {i : Nat} {r : WorkerRun} (hr : s.runs[i]? = some r) : s.places.Perm
    (s.inbox ++ r.messages ++ (s.runs.eraseIdx i).flatMap WorkerRun.messages) := by
  rw [List.append_assoc, ← List.flatMap_cons]
  exact ((perm_cons_eraseIdx hr).flatMap_right WorkerRun.messages).append_left s.inbox

theorem places_withView_perm {i : Nat} {r : WorkerRun} (hr : s.runs[i]? = some r) (v : View) :
    (s.withView i v).places.Perm
      (v.inbox ++ v.run.messages ++ (s.runs.eraseIdx i).flatMap WorkerRun.messages) := by
  rw [List.append_assoc, ← List.flatMap_cons]
  exact ((set_perm_cons_eraseIdx hr v.run).flatMap_right WorkerRun.messages).append_left v.inbox

/-- The messages on their way, with those of one run apart. -/
theorem inTransit_perm {i : Nat} {r : WorkerRun} (hr : s.runs[i]? = some r) :
    s.inTransit.Perm (r.buffer ++ (s.runs.eraseIdx i).flatMap WorkerRun.buffer) := by
  rw [← List.flatMap_cons]
  exact (perm_cons_eraseIdx hr).flatMap_right WorkerRun.buffer

theorem inTransit_withView_perm {i : Nat} {r : WorkerRun} (hr : s.runs[i]? = some r) (v : View) :
    (s.withView i v).inTransit.Perm
      (v.run.buffer ++ (s.runs.eraseIdx i).flatMap WorkerRun.buffer) := by
  rw [← List.flatMap_cons]
  exact (set_perm_cons_eraseIdx hr v.run).flatMap_right WorkerRun.buffer

/-- The runs that will drain, with one of them apart. -/
theorem any_willDrain {i : Nat} {r : WorkerRun} (hr : s.runs[i]? = some r) :
    s.runs.any (WorkerRun.willDrain n) = (r.willDrain n || s.othersDrain n i) := by
  rw [InboxState.othersDrain, ← List.any_cons]
  exact (perm_cons_eraseIdx hr).any_eq

theorem any_willDrain_withView {i : Nat} {r : WorkerRun} (hr : s.runs[i]? = some r) (v : View) :
    (s.withView i v).runs.any (WorkerRun.willDrain n) =
      (v.run.willDrain n || s.othersDrain n i) := by
  rw [InboxState.othersDrain, ← List.any_cons]
  exact (set_perm_cons_eraseIdx hr v.run).any_eq

/-- A step of one run puts nothing on the way to the inbox. -/
theorem inTransit_withView {i : Nat} {r : WorkerRun} {v : View} (hr : s.runs[i]? = some r)
    (hmoves : (View.mk s.status s.inbox r).Moves v) :
    (s.withView i v).inTransit ⊆ s.inTransit := by
  intro m hm
  have hm := (inTransit_withView_perm hr v).mem_iff.mp hm
  refine (inTransit_perm hr).mem_iff.mpr (List.mem_append.mpr ?_)
  exact (List.mem_append.mp hm).imp_left fun hm ↦ hmoves.buffer_subset hm

/-- What is undrained after a step of one run was so before. -/
theorem undrained_withView {i : Nat} {r : WorkerRun} {v : View} (hr : s.runs[i]? = some r)
    (hmoves : (View.mk s.status s.inbox r).Moves v) :
    (s.withView i v).undrained ⊆ s.undrained := by
  have hbuffer : r.buffer ⊆ s.inTransit := fun m hm ↦
    List.mem_flatMap.mpr ⟨r, List.mem_of_getElem? hr, hm⟩
  refine List.append_subset.mpr ⟨?_, ?_⟩
  · intro m hm
    rcases List.mem_append.mp (hmoves.inbox_subset hm) with hm | hm
    · exact List.mem_append_left _ hm
    · exact List.mem_append_right _ (hbuffer hm)
  · exact List.Subset.trans (inTransit_withView hr hmoves) (List.subset_append_right _ _)

/-- A step of one run. -/
theorem Conserved.run (h : Conserved n s) {i : Nat} {r : WorkerRun} {v : View} {a : RunAction}
    (hr : s.runs[i]? = some r) (hok : Conserves n s (.run i a))
    (hstep : (View.mk s.status s.inbox r).step n a = some v) : Conserved n (s.withView i v) := by
  obtain ⟨hkeeps, hands⟩ := hok r hr
  have hinbox : ∀ m ∈ s.inbox, m.blank = false := fun m hm ↦
    h.nonblank (List.mem_append_left _ hm)
  have hbuffer : ∀ m ∈ r.buffer, m.blank = false := fun m hm ↦
    h.nonblank (List.mem_append_right _ (List.mem_flatMap.mpr ⟨r, List.mem_of_getElem? hr, hm⟩))
  have hsettled : r.Settled := h.settled r (List.mem_of_getElem? hr)
  have hmoves := View.step_moves hstep hkeeps hinbox hbuffer hsettled
  have hplaces := (hmoves.perm.append_right _).trans (places_perm hr).symm
  refine ⟨h.inHand, ((places_withView_perm hr v).trans hplaces).trans h.placed, fun r' hr' ↦ ?_,
    fun hleft ↦ ?_⟩
  · rcases List.mem_cons.mp ((set_perm_cons_eraseIdx hr v.run).mem_iff.mp hr') with rfl | hother
    · exact hmoves.settled hsettled
    · exact h.settled r' (List.mem_of_mem_eraseIdx hother)
  · -- somebody drained before: this run, which hands on, or another one
    have hbefore : s.undrained ≠ [] := fun hempty ↦
      hleft (List.subset_nil.mp (hempty ▸ undrained_withView hr hmoves))
    have hdrained := h.drained hbefore
    rw [any_willDrain hr, Bool.or_eq_true] at hdrained
    rw [any_willDrain_withView hr, Bool.or_eq_true]
    rcases hdrained with hwill | hothers
    · rcases hands.drained hstep hkeeps hinbox hwill with hwill | hothers | hempty | ⟨hv, hempty⟩
      · exact .inl hwill
      · exact .inr hothers
      · exact absurd hempty hbefore
      · refine absurd ?_ hleft
        have htransit := List.subset_nil.mp (hempty ▸ inTransit_withView hr hmoves)
        rw [InboxState.undrained, htransit]
        exact (List.append_nil _).trans hv
    · exact .inr hothers

/-- Where the property holds after a step of one run, the run and the inbox have every message they
had. -/
theorem Conserved.count_eq (h : Conserved n s) {i : Nat} {r : WorkerRun} {v : View}
    (hr : s.runs[i]? = some r) (hafter : ExactlyOnce n (s.withView i v))
    (hm : m ∈ s.inbox ++ r.messages) :
    (v.inbox ++ v.run.messages).count m = (s.inbox ++ r.messages).count m := by
  have hplaced : m ∈ s.places := (places_perm hr).mem_iff.mpr (List.mem_append_left _ hm)
  have hprocessed : m ∈ s.processed := h.placed.mem_iff.mp hplaced
  have hbefore := h.exactlyOnce.once m hprocessed
  have hnow := hafter.once m hprocessed
  rw [(places_perm hr).count_eq, List.count_append] at hbefore
  rw [(places_withView_perm hr v).count_eq, List.count_append] at hnow
  omega

/-- A run that will not drain leaves what is undrained to another one. -/
theorem ExactlyOnce.othersDrain {i : Nat} {r : WorkerRun} {v : View} (hr : s.runs[i]? = some r)
    (hafter : ExactlyOnce n (s.withView i v)) (hwill : v.run.willDrain n = false)
    (hleft : (s.withView i v).undrained ≠ []) : s.othersDrain n i = true := by
  have hdrains := hafter.drained hleft
  rw [any_willDrain_withView hr, hwill, Bool.false_or] at hdrains
  exact hdrains

/-- A step that does not touch the buffer leaves what is on the way. -/
theorem inTransit_withView_ne_nil {i : Nat} {r : WorkerRun} {v : View} (hr : s.runs[i]? = some r)
    (hbuffer : v.run.buffer = r.buffer) (h : s.inTransit ≠ []) :
    (s.withView i v).inTransit ≠ [] := by
  intro hempty
  have hperm := inTransit_withView_perm hr v
  rw [hbuffer] at hperm
  rw [hempty] at hperm
  exact h ((inTransit_perm hr).trans hperm.symm).eq_nil

/-- Where the property holds after a step of one run, the step left the inbox to someone. -/
theorem ExactlyOnce.handsOn {i : Nat} {r : WorkerRun} {v : View} {a : RunAction}
    (hr : s.runs[i]? = some r) (hafter : ExactlyOnce n (s.withView i v))
    (hstep : (View.mk s.status s.inbox r).step n a = some v) : s.HandsOn n i r a := by
  have hleft (hinbox : v.inbox = s.inbox) (hbuffer : v.run.buffer = r.buffer)
      (hwill : v.run.willDrain n = false) : s.undrained = [] ∨ s.othersDrain n i = true := by
    by_cases hempty : s.undrained = []
    · exact .inl hempty
    · refine .inr (hafter.othersDrain hr hwill fun hnone ↦ ?_)
      obtain ⟨hv, htransit⟩ := List.append_eq_nil_iff.mp hnone
      have hbefore : s.inTransit = [] := by
        by_contra hsome
        exact inTransit_withView_ne_nil hr hbuffer hsome htransit
      have hnothing : s.inbox = [] := hinbox.symm.trans hv
      exact hempty (List.append_eq_nil_iff.mpr ⟨hnothing, hbefore⟩)
  cases a with
  | setUp ok =>
    obtain ⟨-, rfl⟩ := System.guarded_eq_some hstep
    cases ok with
    | true => exact .inl rfl
    | false => exact .inr (hleft rfl rfl rfl)
  | supersede =>
    obtain ⟨-, rfl⟩ := System.guarded_eq_some hstep
    exact hleft rfl rfl rfl
  | drain =>
    intro hbridge
    by_cases hcontinues : s.inbox ≠ [] ∧ r.continueCount < n
    · exact .inl hcontinues
    by_cases htransit : s.inTransit = []
    · exact .inr (.inl htransit)
    obtain ⟨hwill, hbuffer⟩ : v.run.willDrain n = false ∧ v.run.buffer = r.buffer := by
      obtain ⟨-, hstep⟩ := Option.ite_none_right_eq_some.mp hstep
      split at hstep
      · next hfull =>
        obtain rfl := Option.some.inj hstep
        have hinbox : s.inbox ≠ [] := fun hnone ↦ hfull.2 (by simp [hnone, popInboxMessages])
        have hlast : ¬ r.continueCount < n := fun hless ↦ hcontinues ⟨hinbox, hless⟩
        exact ⟨by simp [WorkerRun.willDrain, hlast], rfl⟩
      · obtain rfl := Option.some.inj hstep
        exact ⟨rfl, rfl⟩
    have hstill := inTransit_withView_ne_nil hr hbuffer htransit
    exact .inr (.inr (hafter.othersDrain hr hwill fun hnone ↦
      hstill (List.append_eq_nil_iff.mp hnone).2))
  | fail marked =>
    obtain ⟨-, rfl⟩ := System.guarded_eq_some hstep
    exact hleft rfl rfl rfl
  | _ => trivial

/-- An inbox that expires with a message in it loses it. -/
theorem Conserved.of_expireInbox (h : Conserved n s)
    (hafter : ExactlyOnce n { s with inbox := [] }) : s.inbox = [] := by
  refine List.eq_nil_iff_forall_not_mem.mpr fun m hm ↦ ?_
  have hprocessed : m ∈ s.processed := h.placed.mem_iff.mp (List.mem_append_left _ hm)
  have hbefore := h.exactlyOnce.once m hprocessed
  have hnow := hafter.once m hprocessed
  have hpresent := List.count_pos_iff.mpr hm
  rw [InboxState.places, List.count_append] at hbefore hnow
  simp only [List.count_nil] at hnow
  omega

variable [DecidableEq C] {c : C}

/-- A connection goes on with the message it has in hand. -/
theorem Conserved.turn (h : Conserved n s) {a : Await} (b : Await)
    (hc : s.connections c = some (a, m)) : Conserved n (s.turn c (some (b, m))) where
  inHand := h.inHand.turn b hc
  placed := h.placed
  settled := h.settled
  drained := h.drained

/-- The publish that one listener hears while a run will still drain. -/
theorem Conserved.forward (h : Conserved n s) (hc : s.connections c = some (.forward, m))
    (hone : s.runs.countP WorkerRun.subscribed = 1)
    (hdrain : s.runs.any (WorkerRun.willDrain n) = true) :
    Conserved n (connectionStep s c (.forward, m)) where
  inHand := h.inHand.process hc
  placed := by
    have hdelivered := flatMap_messages_deliver s.runs m
    rw [hone] at hdelivered
    refine ((hdelivered.trans List.perm_append_comm).append_left s.inbox).trans ?_
    rw [← List.append_assoc]
    exact h.placed.append_right [m]
  settled r hr := by
    obtain ⟨r', hr', rfl⟩ := List.mem_map.mp hr
    exact (h.settled r' hr').deliver
  drained _ := by
    obtain ⟨r, hr, hwill⟩ := List.any_eq_true.mp hdrain
    exact List.any_eq_true.mpr ⟨r.deliver m, List.mem_map_of_mem hr,
      (WorkerRun.willDrain_deliver r).trans hwill⟩

/-- One await of a connection. -/
theorem Conserved.connection (h : Conserved n s) {p : Await × Message}
    (hc : s.connections c = some p) (hok : Conserves n s (.connection c)) :
    Conserved n (connectionStep s c p) := by
  obtain ⟨await, m⟩ := p
  cases await with
  | checkStatus =>
    rw [connectionStep]
    split
    · exact h.turn .setRunning hc
    · exact h.turn .echo hc
  | echo => exact h.turn .forward hc
  | forward =>
    obtain ⟨hone, hdrain⟩ := hok (.forward, m) hc rfl
    exact h.forward hc hone hdrain
  | setRunning =>
    have hturn := h.turn .incrementRunCount hc
    exact ⟨hturn.inHand, hturn.placed, hturn.settled, hturn.drained⟩
  | incrementRunCount => exact h.turn .publishUserMessage hc
  | publishUserMessage => exact h.turn .pushHistory hc
  | pushHistory => exact h.turn .createJob hc
  | createJob => exact h.created [m] (h.inHand.process hc)

/-- One step of the system. -/
theorem Conserved.step (h : Conserved n s) {a : InboxAction C} (hok : Conserves n s a)
    (hstep : inboxStep n s a = some s') : Conserved n s' := by
  cases a with
  | receive c m =>
    obtain ⟨⟨-, hnew⟩, rfl⟩ := System.guarded_eq_some hstep
    refine ⟨?_, h.placed, h.settled, h.drained⟩
    cases hblank : m.blank with
    | true => exact (h.inHand.append m).drop c
    | false => exact h.inHand.receive .checkStatus hnew hblank
  | connection c =>
    obtain ⟨p, hc, rfl⟩ := Option.map_eq_some_iff.mp hstep
    exact h.connection hc hok
  | connectionFails c =>
    obtain ⟨-, -, rfl⟩ := Option.map_eq_some_iff.mp hstep
    exact ⟨h.inHand.drop c, h.placed, h.settled, h.drained⟩
  | run i a =>
    obtain ⟨r, hr, hview⟩ := Option.bind_eq_some_iff.mp hstep
    obtain ⟨v, hv, rfl⟩ := Option.map_eq_some_iff.mp hview
    exact h.run hr hok hv
  | reuse =>
    obtain rfl := Option.some.inj hstep
    exact ⟨h.inHand, h.placed, h.settled, h.drained⟩
  | createJob =>
    obtain rfl := Option.some.inj hstep
    have hcreated := h.created [] (by rw [List.append_nil]; exact h.inHand)
    rwa [List.append_nil] at hcreated
  | expireSession =>
    obtain rfl := Option.some.inj hstep
    exact ⟨h.inHand, h.placed, h.settled, h.drained⟩
  | expireInbox =>
    obtain rfl := Option.some.inj hstep
    have hinbox : s.inbox = [] := hok
    have hsame : { s with inbox := [] } = s := by rw [← hinbox]
    rw [hsame]
    exact h

/-- A publish after which the property holds reaches exactly one listener, while a run will still
drain. -/
theorem Conserved.of_forward (h : Conserved n s) (hc : s.connections c = some (.forward, m))
    (hafter : ExactlyOnce n (connectionStep s c (.forward, m))) :
    s.runs.countP WorkerRun.subscribed = 1 ∧ s.runs.any (WorkerRun.willDrain n) = true := by
  obtain ⟨-, hnew, -⟩ := h.inHand.handled c _ hc
  have habsent : s.inbox.count m + (s.runs.flatMap WorkerRun.messages).count m = 0 := by
    rw [← List.count_append]
    exact List.count_eq_zero_of_not_mem fun hm ↦ hnew (h.placed.mem_iff.mp hm)
  have hone : s.runs.countP WorkerRun.subscribed = 1 := by
    have honce := hafter.once m (List.mem_append_right _ List.mem_cons_self)
    rw [InboxState.places, List.count_append] at honce
    have hdelivered := (flatMap_messages_deliver s.runs m).count_eq m
    rw [List.count_append, List.count_replicate_self] at hdelivered
    have hinbox : (connectionStep s c (.forward, m)).inbox = s.inbox := rfl
    have hruns : (connectionStep s c (.forward, m)).runs = s.runs.map (WorkerRun.deliver m) := rfl
    rw [hinbox, hruns] at honce
    omega
  refine ⟨hone, ?_⟩
  obtain ⟨r, hr, hsubscribed⟩ := List.countP_pos_iff.mp (by omega :
    0 < s.runs.countP WorkerRun.subscribed)
  have hm : m ∈ (r.deliver m).buffer := by simp [WorkerRun.deliver, hsubscribed]
  have hundrained : m ∈ (connectionStep s c (.forward, m)).undrained :=
    List.mem_append_right _ (List.mem_flatMap.mpr ⟨_, List.mem_map_of_mem hr, hm⟩)
  obtain ⟨r', hr', hwill⟩ := List.any_eq_true.mp (hafter.drained (List.ne_nil_of_mem hundrained))
  obtain ⟨r'', hr'', rfl⟩ := List.mem_map.mp hr'
  exact List.any_eq_true.mpr ⟨r'', hr'', (WorkerRun.willDrain_deliver r'').symm.trans hwill⟩

/-- The condition on a step is exact: a step that does not meet it loses or repeats a message, or
leaves one that no run will drain. -/
theorem Conserved.conserves_iff (h : Conserved n s) {a : InboxAction C}
    (hstep : inboxStep n s a = some s') : Conserves n s a ↔ ExactlyOnce n s' := by
  refine ⟨fun hok ↦ (h.step hok hstep).exactlyOnce, fun hafter ↦ ?_⟩
  cases a with
  | connection c =>
    rintro ⟨await, m⟩ hp rfl
    obtain ⟨p, hc, rfl⟩ := Option.map_eq_some_iff.mp hstep
    obtain rfl := Option.some.inj (hp.symm.trans hc)
    exact h.of_forward hc hafter
  | run i a =>
    intro r hr
    obtain ⟨r', hr', hview⟩ := Option.bind_eq_some_iff.mp hstep
    obtain ⟨v, hv, rfl⟩ := Option.map_eq_some_iff.mp hview
    obtain rfl := Option.some.inj (hr.symm.trans hr')
    have hsettled : r.Settled := h.settled r (List.mem_of_getElem? hr')
    exact ⟨View.keeps_of_count hv hsettled fun m hm ↦ h.count_eq hr' hafter hm,
      hafter.handsOn hr' hv⟩
  | expireInbox =>
    obtain rfl := Option.some.inj hstep
    exact h.of_expireInbox hafter
  | _ => trivial

theorem conserved_of_reachWhen (h : (inboxSystem n).ReachWhen (Conserves n) s) :
    Conserved n s := by
  refine h.invariant (P := Conserved n) ?_ ?_
  · intro t ht
    exact conserved_init ht
  · intro t a t' ht hok hstep
    exact ht.step hok hstep

/-- The runs whose steps meet the condition are those in which every step leaves each message in
one place. -/
theorem reachWhen_conserves_iff : (inboxSystem n).ReachWhen (Conserves n) s ↔
    (inboxSystem n).ReachWhen (fun t a ↦ ∀ t', inboxStep n t a = some t' → ExactlyOnce n t') s := by
  constructor
  · intro h
    induction h with
    | init hinit => exact .init hinit
    | step a hreach hok hstep ih =>
      exact .step a ih (fun t' ht' ↦
        ((conserved_of_reachWhen hreach).conserves_iff ht').mp hok) hstep
  · intro h
    induction h with
    | init hinit => exact .init hinit
    | step a _ hsafe hstep ih =>
      exact .step a ih (((conserved_of_reachWhen ih).conserves_iff hstep).mpr (hsafe _ hstep)) hstep

/-- In a run whose steps all meet the condition, no message is lost or executed twice. -/
theorem exactlyOnce_of_conserves (n : Nat) {s : InboxState C}
    (h : (inboxSystem n).ReachWhen (Conserves n) s) : ExactlyOnce n s :=
  (conserved_of_reachWhen h).exactlyOnce

end Invariant

/-- A new session with one connection. -/
def newSession : InboxState Unit :=
  { status := some .running, inbox := [], connections := fun _ ↦ none, runs := [], received := []
    processed := [] }

theorem newSession_init : InboxInit newSession :=
  ⟨rfl, rfl, fun _ ↦ rfl, rfl, rfl, rfl⟩

/-- The first run of the session listens and executes the prompt of its own job. -/
def firstRun : List (InboxAction Unit) :=
  [.createJob, .run 0 .start, .run 0 .subscribe, .run 0 (.setUp true)]

/-- A message to the user's agent. -/
def wait : Message := ⟨0, "wait"⟩

/-- The proxy receives the message and reads that the session is running. -/
def sent : List (InboxAction Unit) := [.receive () wait, .connection ()]

/-- A message to a run goes through the inbox into its second SDK run; the next one finds the
session completed and becomes the prompt of a job. -/
theorem exactlyOnce_of_conserves_twoMessages :
    ∃ s : InboxState Unit, s.processed = [wait, ⟨1, "again"⟩] ∧ s.places = [wait, ⟨1, "again"⟩] ∧
      ExactlyOnce 10 s := by
  obtain ⟨s, hs, hprocessed, hplaces⟩ := System.exists_reachWhen (inboxSystem 10) (Conserves 10)
    (fun s ↦ s.processed = [wait, ⟨1, "again"⟩] ∧ s.places = [wait, ⟨1, "again"⟩])
    (firstRun ++ sent ++ [.connection (), .connection (), .run 0 .dispatch, .run 0 .sdkEnd,
      .run 0 .drain, .run 0 .autoContinue, .run 0 .sdkEnd, .run 0 .drain, .run 0 (.complete false),
      .run 0 .stop, .receive () ⟨1, "again"⟩, .connection (), .connection (), .connection (),
      .connection (), .connection (), .connection ()])
    newSession_init (by decide)
  exact ⟨s, hprocessed, hplaces, exactlyOnce_of_conserves 10 hs⟩

/-- A message is lost: the proxy has read that the session is running, the run ends and stops
listening, and the publish reaches nobody. -/
theorem not_exactlyOnce :
    ¬ ∀ (n : Nat) (s : InboxState Unit), (inboxSystem n).Reach s → ExactlyOnce n s := by
  obtain ⟨s, hs, hprocessed, hlost⟩ := System.exists_reachWhen (inboxSystem 10) System.always
    (fun s ↦ wait ∈ s.processed ∧ s.places.count wait = 0)
    (firstRun ++ sent ++ [.run 0 .sdkEnd, .run 0 .drain, .run 0 (.complete false), .run 0 .stop,
      .connection (), .connection ()])
    newSession_init (by decide)
  intro h
  have hone := (h 10 s hs).once wait hprocessed
  rw [hlost] at hone
  cases hone

end GithubAgent.Session.Inbox
