import GithubAgent.Base.Coroutine
import Mathlib.Data.List.Basic

/-!
# Statements that fail, and calls that are cut off

A call is a coroutine of statements on a store. A statement takes effect, or fails without an
effect, which the call learns, or the call is cut off before it and its coroutine ends there.
A specification says what holds where a call returns and what where it is cut off.
-/

namespace GithubAgent.Base

/-- What becomes of a statement. -/
inductive Fate where
  | done
  | failed
  | cut
  deriving DecidableEq

namespace Coroutine

variable {σ α β : Type}

/-- A statement; the result says whether it took effect. -/
def statement (fate : Fate) (f : σ → σ) : Coroutine σ Bool := fun s ↦
  match fate with
  | .done => (some true, f s)
  | .failed => (some false, s)
  | .cut => (none, s)

/-- A query; without an answer it has failed. -/
def query (fate : Fate) (f : σ → α) : Coroutine σ (Option α) := fun s ↦
  match fate with
  | .done => (some (some (f s)), s)
  | .failed => (some none, s)
  | .cut => (none, s)

/-- `try: statement except Exception: log`. -/
def logged (x : Coroutine σ Bool) : Coroutine σ Unit := x >>= fun _ ↦ pure ()

/-- A loop over the items of a list, which are numbered from `first`. -/
def each (body : Nat → α → Coroutine σ Unit) (first : Nat) : List α → Coroutine σ Unit
  | [] => pure ()
  | a :: rest => body first a >>= fun _ ↦ each body (first + 1) rest

/-- From the states with `P` the coroutine returns with `Q`, or is cut off with `E`. -/
def Spec (P : σ → Prop) (x : Coroutine σ α) (Q : α → σ → Prop) (E : σ → Prop) : Prop :=
  ∀ s, P s → match x s with
    | (some a, t) => Q a t
    | (none, t) => E t

section Spec

variable {P P' E : σ → Prop} {Q Q' : α → σ → Prop}

theorem Spec.pure {a : α} (h : ∀ s, P s → Q a s) : Spec P (pure a) Q E := h

theorem Spec.mono {x : Coroutine σ α} (h : Spec P x Q E) (hP : ∀ s, P' s → P s)
    (hQ : ∀ a s, Q a s → Q' a s) : Spec P' x Q' E := by
  intro s hs
  have hspec := h s (hP s hs)
  split <;> rename_i hx <;> rw [hx] at hspec
  · exact hQ _ _ hspec
  · exact hspec

theorem Spec.mono_cut {E' : σ → Prop} {x : Coroutine σ α} (h : Spec P x Q E)
    (hE : ∀ s, E s → E' s) : Spec P x Q E' := by
  intro s hs
  have hspec := h s hs
  split <;> rename_i hx <;> rw [hx] at hspec
  · exact hspec
  · exact hE _ hspec

/-- The state of the end, where it does not depend on how the coroutine ends. -/
theorem Spec.state_eq {x : Coroutine σ α} {s t : σ}
    (h : Spec (· = s) x (fun _ u ↦ u = t) (· = t)) : (x s).2 = t := by
  have hspec := h s rfl
  split at hspec <;> rename_i hx <;> rw [hx]
  · exact hspec
  · exact hspec

/-- A fact that does not speak of the state. -/
theorem Spec.of_and {p : Prop} {x : Coroutine σ α} (h : p → Spec P x Q E) :
    Spec (fun s ↦ p ∧ P s) x Q E :=
  fun s hs ↦ h hs.1 s hs.2

theorem Spec.bind {R : β → σ → Prop} {x : Coroutine σ α} {f : α → Coroutine σ β}
    (hx : Spec P x Q E) (hf : ∀ a, Spec (Q a) (f a) R E) : Spec P (x >>= f) R E := by
  intro s hs
  have hspec := hx s hs
  rw [bind_apply]
  match hres : x s with
  | (some a, t) =>
    rw [hres] at hspec
    exact hf a t hspec
  | (none, t) =>
    rw [hres] at hspec
    exact hspec

/-- A call that is cut off in its first part. -/
theorem Spec.bind_cut {R : β → σ → Prop} {x : Coroutine σ α} {f : α → Coroutine σ β}
    (hx : Spec P x (fun _ _ ↦ False) E) : Spec P (x >>= f) R E :=
  hx.bind fun _ _ h ↦ h.elim

theorem Spec.ite {p : Prop} [Decidable p] {x y : Coroutine σ α} (hx : p → Spec P x Q E)
    (hy : ¬ p → Spec P y Q E) : Spec P (if p then x else y) Q E := by
  split
  · next h => exact hx h
  · next h => exact hy h

theorem Spec.statement {fate : Fate} {f : σ → σ} {Q : Bool → σ → Prop}
    (hdone : fate = .done → ∀ s, P s → Q true (f s))
    (hfailed : fate = .failed → ∀ s, P s → Q false s)
    (hcut : fate = .cut → ∀ s, P s → E s) :
    Spec P (statement fate f) Q E := by
  intro s hs
  cases fate with
  | done => exact hdone rfl s hs
  | failed => exact hfailed rfl s hs
  | cut => exact hcut rfl s hs

/-- What becomes of a logged statement is seen in the state only. -/
theorem Spec.logged {fate : Fate} {f : σ → σ} {Q : σ → Prop}
    (hdone : fate = .done → ∀ s, P s → Q (f s))
    (hfailed : fate = .failed → ∀ s, P s → Q s)
    (hcut : fate = .cut → ∀ s, P s → E s) :
    Spec P (logged (Coroutine.statement fate f)) (fun _ ↦ Q) E :=
  Spec.bind (Q := fun _ ↦ Q) (.statement hdone hfailed hcut) fun _ ↦ .pure fun _ h ↦ h

theorem Spec.logged_cut {fate : Fate} {f : σ → σ} (h : fate = .cut) :
    Spec P (Coroutine.logged (Coroutine.statement fate f)) (fun _ _ ↦ False) P := by
  refine .logged ?_ ?_ ?_
  · exact fun hdone ↦ absurd (hdone.symm.trans h) (by decide)
  · exact fun hfailed ↦ absurd (hfailed.symm.trans h) (by decide)
  · exact fun _ _ h ↦ h

theorem Spec.query {fate : Fate} {f : σ → α} {Q : Option α → σ → Prop}
    (hdone : fate = .done → ∀ s, P s → Q (some (f s)) s)
    (hfailed : fate = .failed → ∀ s, P s → Q none s)
    (hcut : fate = .cut → ∀ s, P s → E s) :
    Spec P (query fate f) Q E := by
  intro s hs
  cases fate with
  | done => exact hdone rfl s hs
  | failed => exact hfailed rfl s hs
  | cut => exact hcut rfl s hs

/-- The invariant of a loop speaks of the items that are through. -/
theorem Spec.each {body : Nat → α → Coroutine σ Unit} {I : List α → σ → Prop} {l items : List α}
    (hbody : ∀ before a after, l ++ items = before ++ a :: after →
      Spec (I before) (body before.length a) (fun _ ↦ I (before ++ [a])) E) :
    Spec (I l) (each body l.length items) (fun _ ↦ I (l ++ items)) E := by
  induction items generalizing l with
  | nil =>
    rw [List.append_nil]
    exact .pure fun _ h ↦ h
  | cons a rest ih =>
    have hstep := ih (l := l ++ [a]) fun before b after heq ↦
      hbody before b after (by rw [← heq, List.append_assoc]; rfl)
    rw [List.length_append, List.append_assoc] at hstep
    exact .bind (hbody l a rest rfl) fun _ ↦ hstep

end Spec

end Coroutine

/-- The slices `l[i : i + size]` for `i` in `range(0, len(l), size)`. -/
def batches {α : Type} (size : Nat) (l : List α) : List (List α) :=
  (List.range ((l.length + size - 1) / size)).map fun i ↦ (l.drop (i * size)).take size

/-- The batches are the list. -/
theorem flatten_batches {α : Type} {size : Nat} (hsize : 0 < size) (l : List α) :
    (batches size l).flatten = l := by
  have htake (k : Nat) :
      ((List.range k).map fun i ↦ (l.drop (i * size)).take size).flatten = l.take (k * size) := by
    induction k with
    | zero => simp
    | succ k ih =>
      rw [List.range_succ, List.map_append, List.flatten_append, ih, Nat.succ_mul, List.take_add]
      simp
  rw [batches, htake, List.take_of_length_le]
  have hdiv := Nat.div_add_mod (l.length + size - 1) size
  have hmod := Nat.mod_lt (l.length + size - 1) hsize
  rw [Nat.mul_comm]
  omega

end GithubAgent.Base
