import GithubAgent.Base.Coroutine
import Mathlib.Data.Option.Basic

/-!
# Values that are loaded once

A value is loaded for a scope at its first use and kept for the later ones, whatever their scope. As
long as what is kept is current and of the scope that is used, nothing tells it from a value that is
loaded anew: a computation that asks for such values returns the same from every such state.
-/

namespace GithubAgent.Base

/-! ### What is kept -/

/-- A value, and the scope it was loaded for. -/
structure Loaded (S V : Type) where
  scope : S
  value : V

section Loaded

variable {S V : Type} {load load' : S → V} {scope : S} {kept : Option (Loaded S V)}

/-- The value that is kept, or else the one that is loaded. -/
def loadOnce (load : S → V) (scope : S) (kept : Option (Loaded S V)) : Loaded S V :=
  kept.getD ⟨scope, load scope⟩

/-- What is kept would be loaded again for its scope. -/
def Current (load : S → V) (kept : Option (Loaded S V)) : Prop := ∀ l ∈ kept, l.value = load l.scope

/-- What is kept was loaded for the scope. -/
def OfScope (scope : S) (kept : Option (Loaded S V)) : Prop := ∀ l ∈ kept, l.scope = scope

theorem current_none : Current load none := nofun

theorem ofScope_none : OfScope scope (none : Option (Loaded S V)) := nofun

theorem Current.some_loadOnce (h : Current load kept) :
    Current load (some (loadOnce load scope kept)) := by
  rintro l ⟨⟩
  cases kept with
  | none => rfl
  | some l => exact h l rfl

theorem OfScope.some_loadOnce (h : OfScope scope kept) :
    OfScope scope (some (loadOnce load scope kept)) := by
  rintro l ⟨⟩
  cases kept with
  | none => rfl
  | some l => exact h l rfl

/-- A current value of the scope is the one that would be loaded. -/
theorem Current.value_loadOnce (h : Current load kept) (hscope : OfScope scope kept) :
    (loadOnce load scope kept).value = load scope := by
  cases kept with
  | none => rfl
  | some l => exact (h l rfl).trans (congrArg load (hscope l rfl))

/-- What is kept stays current as long as nothing changes for its scope. -/
theorem Current.congr (h : Current load kept) (heq : ∀ l ∈ kept, load' l.scope = load l.scope) :
    Current load' kept := fun l hl ↦ (h l hl).trans (heq l hl).symm

end Loaded

/-! ### Computations that do not see the difference -/

namespace Coroutine

variable {σ α β : Type} {P : σ → Prop}

/-- From every state with `P` the coroutine returns or raises the same, and `P` still holds. -/
def Steady (P : σ → Prop) (x : Coroutine σ α) : Prop :=
  ∃ result, ∀ s, P s → (x s).1 = result ∧ P (x s).2

theorem Steady.pure (a : α) : Steady P (pure a) := ⟨some a, fun _ hs ↦ ⟨rfl, hs⟩⟩

theorem Steady.raise : Steady P (raise : Coroutine σ α) := ⟨none, fun _ hs ↦ ⟨rfl, hs⟩⟩

theorem Steady.bind {x : Coroutine σ α} {f : α → Coroutine σ β} (hx : Steady P x)
    (hf : ∀ a, Steady P (f a)) : Steady P (x >>= f) := by
  obtain ⟨result, hx⟩ := hx
  cases result with
  | none =>
    refine ⟨none, fun s hs ↦ ?_⟩
    obtain ⟨hnone, hP⟩ := hx s hs
    rw [bind_of_none (Prod.ext hnone rfl)]
    exact ⟨rfl, hP⟩
  | some a =>
    obtain ⟨result, hf⟩ := hf a
    refine ⟨result, fun s hs ↦ ?_⟩
    obtain ⟨hsome, hP⟩ := hx s hs
    rw [bind_of_some (Prod.ext hsome rfl)]
    exact hf _ hP

/-- Two states with `P` give the same result. -/
theorem Steady.fst_eq {x : Coroutine σ α} (h : Steady P x) {s t : σ} (hs : P s) (ht : P t) :
    (x s).1 = (x t).1 := by
  obtain ⟨result, h⟩ := h
  rw [(h s hs).1, (h t ht).1]

theorem Steady.snd {x : Coroutine σ α} (h : Steady P x) {s : σ} (hs : P s) : P (x s).2 := by
  obtain ⟨result, h⟩ := h
  exact (h s hs).2

end Coroutine

end GithubAgent.Base
