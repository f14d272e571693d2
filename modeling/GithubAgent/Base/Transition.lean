import Mathlib.Algebra.BigOperators.Group.Finset.Basic

/-!
# Labelled transition systems and guarded runs

A system is a set of initial states and one partial step for each action; what is
nondeterministic in a run is the choice of actions. `ReachWhen ok` collects the states of
the runs all of whose steps meet the condition `ok` on the state before the step, so an
invariant under a condition and an unconditional invariant share one induction.
-/

namespace GithubAgent.Base

universe u v

/-- A labelled transition system with one partial step for each action. -/
structure System (σ : Type u) (α : Type v) where
  init : σ → Prop
  step : σ → α → Option σ

namespace System

variable {σ : Type u} {α : Type v} {sys : System σ α} {ok : σ → α → Prop} {P : σ → Prop}

/-- A guarded step that is taken has its guard met. -/
theorem guarded_eq_some {p : Prop} [Decidable p] {s s' : σ}
    (h : (if p then some s else none) = some s') : p ∧ s' = s := by
  rw [Option.ite_none_right_eq_some, Option.some.injEq] at h
  exact ⟨h.1, h.2.symm⟩

/-- The states of the runs whose every step meets `ok` in the state it starts from. -/
inductive ReachWhen (sys : System σ α) (ok : σ → α → Prop) : σ → Prop where
  | init {s : σ} : sys.init s → ReachWhen sys ok s
  | step {s s' : σ} (a : α) : ReachWhen sys ok s → ok s a → sys.step s a = some s' →
      ReachWhen sys ok s'

/-- The condition every step meets. -/
def always (_ : σ) (_ : α) : Prop := True

/-- The states of all runs. -/
abbrev Reach (sys : System σ α) : σ → Prop := sys.ReachWhen always

/-- A permitted run is a run. -/
theorem ReachWhen.reach {s : σ} (h : sys.ReachWhen ok s) : sys.Reach s := by
  induction h with
  | init hi => exact .init hi
  | step a _ _ hs ih => exact .step a ih trivial hs

/-- The run rule: what holds initially and is kept by every permitted step holds of every
state of a permitted run. -/
theorem ReachWhen.invariant {s : σ} (h : sys.ReachWhen ok s) (hinit : ∀ t, sys.init t → P t)
    (hstep : ∀ t a t', P t → ok t a → sys.step t a = some t' → P t') : P s := by
  induction h with
  | init hi => exact hinit _ hi
  | step a _ ha hs ih => exact hstep _ a _ ih ha hs

/-- A second invariant may use the first one, since both hold of the state before the step. -/
theorem ReachWhen.invariant_of {Q : σ → Prop} {s : σ} (h : sys.ReachWhen ok s)
    (hbase : ∀ t, sys.ReachWhen ok t → Q t) (hinit : ∀ t, sys.init t → P t)
    (hstep : ∀ t a t', Q t → P t → ok t a → sys.step t a = some t' → P t') : P s := by
  induction h with
  | init hi => exact hinit _ hi
  | step a hr ha hs ih => exact hstep _ a _ (hbase _ hr) ih ha hs

/-- Run a list of actions, refusing any that the condition does not permit. -/
def runWhen (sys : System σ α) (ok : σ → α → Prop) [∀ s a, Decidable (ok s a)] :
    σ → List α → Option σ
  | s, [] => some s
  | s, a :: rest => if ok s a then (sys.step s a).bind (fun s' ↦ runWhen sys ok s' rest) else none

instance (s : σ) (a : α) : Decidable (always s a) := .isTrue trivial

/-- Executing permitted actions stays inside the permitted runs. -/
theorem ReachWhen.of_runWhen [∀ s a, Decidable (ok s a)] {acts : List α} {s s' : σ}
    (h : sys.ReachWhen ok s) (hrun : sys.runWhen ok s acts = some s') : sys.ReachWhen ok s' := by
  induction acts generalizing s with
  | nil =>
    simp only [runWhen, Option.some.injEq] at hrun
    exact hrun ▸ h
  | cons a rest ih =>
    simp only [runWhen] at hrun
    split at hrun
    · next ha =>
      obtain ⟨t, ht, hrest⟩ := Option.bind_eq_some_iff.mp hrun
      exact ih (.step a h ha ht) hrest
    · cases hrun

/-- A run that can be executed, and ends as tested, is a permitted run that ends so. -/
theorem exists_reachWhen (sys : System σ α) (ok : σ → α → Prop) [∀ s a, Decidable (ok s a)]
    (P : σ → Prop) [DecidablePred P] {s : σ} (acts : List α) (hinit : sys.init s)
    (hrun : (sys.runWhen ok s acts).any (fun s' ↦ P s') = true) :
    ∃ s', sys.ReachWhen ok s' ∧ P s' := by
  obtain ⟨s', hs', hp⟩ := (Option.any_eq_true _ _).mp hrun
  exact ⟨s', .of_runWhen (.init hinit) hs', of_decide_eq_true hp⟩

end System

/-! ### Families of clients -/

section Clients

variable {C : Type u} {β : Type v} [DecidableEq C]

/-- Replacing one client's state changes a total over all clients by that client's share. -/
theorem sum_update [Fintype C] (f : C → β) (c : C) (b : β) (g : β → Nat) :
    (∑ x, g (Function.update f c b x)) + g (f c) = (∑ x, g (f x)) + g b := by
  rw [← Finset.add_sum_erase _ _ (Finset.mem_univ c),
    ← Finset.add_sum_erase _ (fun x ↦ g (f x)) (Finset.mem_univ c), Function.update_self]
  have hrest : ∑ x ∈ Finset.univ.erase c, g (Function.update f c b x) =
      ∑ x ∈ Finset.univ.erase c, g (f x) :=
    Finset.sum_congr rfl fun x hx ↦ by rw [Function.update_of_ne (Finset.ne_of_mem_erase hx)]
  rw [hrest]
  omega

end Clients

end GithubAgent.Base
