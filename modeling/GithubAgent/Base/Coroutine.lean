/-!
# Coroutines that may raise

A coroutine runs over a state and returns a value or raises; what it did to the state before it
raised stays done. Exceptions carry no value here: what matters is where they pass.
-/

namespace GithubAgent.Base

universe u

/-- A coroutine; `none` is an exception on its way out. -/
def Coroutine (σ : Type u) (α : Type u) := σ → Option α × σ

namespace Coroutine

variable {σ α β : Type u}

/-- Continue with the value, if one was returned. -/
def andThen (x : Coroutine σ α) (f : α → Coroutine σ β) : Coroutine σ β := fun s ↦
  match x s with
  | (some a, s') => f a s'
  | (none, s') => (none, s')

instance : Monad (Coroutine σ) where
  pure a := fun s ↦ (some a, s)
  bind := andThen

/-- `raise`. -/
def raise : Coroutine σ α := fun s ↦ (none, s)

/-- An effect on the state. -/
def effect (f : σ → σ) : Coroutine σ PUnit := fun s ↦ (some ⟨⟩, f s)

/-- An await that raises, or goes on. -/
def await (raises : Bool) : Coroutine σ PUnit := if raises then raise else pure ⟨⟩

/-- An await that returns a value, or raises. -/
def call (result : Option α) : Coroutine σ α := fun s ↦ (result, s)

/-- `try: x except Exception: handler`. -/
def orElse (x handler : Coroutine σ α) : Coroutine σ α := fun s ↦
  match x s with
  | (some a, s') => (some a, s')
  | (none, s') => handler s'

/-- `try: x except Exception: log`. -/
def swallow (x : Coroutine σ PUnit) : Coroutine σ PUnit := x.orElse (pure ⟨⟩)

/-- The exit of an `async with`, which runs on the way of an exception too. -/
def withExit (x : Coroutine σ α) (exit : Coroutine σ PUnit) : Coroutine σ α := fun s ↦
  match x s with
  | (some a, s') => (exit.andThen fun _ ↦ pure a) s'
  | (none, s') => (none, (exit s').2)

variable {s : σ}

@[simp] theorem pure_apply (a : α) : (pure a : Coroutine σ α) s = (some a, s) := rfl

@[simp] theorem raise_apply : (raise : Coroutine σ α) s = (none, s) := rfl

@[simp] theorem effect_apply (f : σ → σ) : effect f s = (some ⟨⟩, f s) := rfl

theorem bind_apply (x : Coroutine σ α) (f : α → Coroutine σ β) :
    (x >>= f) s = match x s with
      | (some a, s') => f a s'
      | (none, s') => (none, s') := rfl

theorem bind_of_some {x : Coroutine σ α} {f : α → Coroutine σ β} {a : α} {s' : σ}
    (h : x s = (some a, s')) : (x >>= f) s = f a s' := by
  rw [bind_apply, h]

theorem bind_of_none {x : Coroutine σ α} {f : α → Coroutine σ β} {s' : σ}
    (h : x s = (none, s')) : (x >>= f) s = (none, s') := by
  rw [bind_apply, h]

/-- What a handler adds depends on how the body ended, not on how it got there. -/
theorem orElse_congr {x y : Coroutine σ α} {t : σ} (handler : Coroutine σ α) (h : x s = y t) :
    (x.orElse handler) s = (y.orElse handler) t := by
  unfold orElse
  rw [h]

/-- An exception goes to the handler. -/
theorem orElse_of_none {x : Coroutine σ α} {t : σ} (handler : Coroutine σ α)
    (h : x s = (none, t)) : (x.orElse handler) s = handler t := by
  unfold orElse
  rw [h]

/-- A body that returns does not meet its handler. -/
theorem orElse_of_some {x : Coroutine σ α} {a : α} {t : σ} (handler : Coroutine σ α)
    (h : x s = (some a, t)) : (x.orElse handler) s = (some a, t) := by
  unfold orElse
  rw [h]

/-- An await leaves the state alone. -/
theorem await_apply (raises : Bool) :
    (await raises : Coroutine σ PUnit) s = (if raises then none else some ⟨⟩, s) := by
  cases raises <;> rfl

@[simp] theorem call_bind_none (f : α → Coroutine σ β) : (call none >>= f) s = (none, s) := rfl

@[simp] theorem call_bind_some (a : α) (f : α → Coroutine σ β) :
    (call (some a) >>= f) s = f a s := rfl

@[simp] theorem await_bind_true (f : PUnit → Coroutine σ β) :
    (await true >>= f) s = (none, s) := rfl

@[simp] theorem await_bind_false (f : PUnit → Coroutine σ β) :
    (await false >>= f) s = f ⟨⟩ s := rfl

@[simp] theorem swallow_await (raises : Bool) :
    swallow (await raises : Coroutine σ PUnit) s = (some ⟨⟩, s) := by
  cases raises <;> rfl

/-- A handled error costs nothing but the log line. -/
@[simp] theorem swallow_await_bind (raises : Bool) (f : PUnit → Coroutine σ β) :
    (swallow (await raises) >>= f) s = f ⟨⟩ s := by
  rw [bind_apply, swallow_await]

/-- The coroutine raises from every state, or from none. -/
def Raises (x : Coroutine σ α) (raises : Bool) : Prop := ∀ s, (x s).1.isNone = raises

/-- What the coroutine does to the state is within the relation, also when it raises. -/
def Within (R : σ → σ → Prop) (x : Coroutine σ α) : Prop := ∀ s, R s (x s).2

theorem Raises.pure (a : α) : Raises (Pure.pure a : Coroutine σ α) false := fun _ ↦ rfl

theorem Raises.raise : Raises (raise : Coroutine σ α) true := fun _ ↦ rfl

theorem Raises.effect (f : σ → σ) : Raises (effect f) false := fun _ ↦ rfl

theorem Raises.await (raises : Bool) : Raises (await raises : Coroutine σ PUnit) raises := by
  intro s
  cases raises <;> rfl

theorem Raises.swallow (x : Coroutine σ PUnit) : Raises (swallow x) false := by
  intro s
  show ((x.orElse _) s).1.isNone = false
  unfold orElse
  split <;> rfl

/-- A sequence raises where either part does. -/
theorem Raises.bind {x : Coroutine σ α} {f : α → Coroutine σ β} {b c : Bool} (hx : Raises x b)
    (hf : ∀ a, Raises (f a) c) : Raises (x >>= f) (b || c) := by
  intro s
  have h := hx s
  rw [bind_apply]
  match hs : x s with
  | (some a, s') =>
    have hb : b = false := by simpa [hs] using h.symm
    simpa [hb] using hf a s'
  | (none, s') =>
    have hb : b = true := by simpa [hs] using h.symm
    simp [hb]

theorem Raises.ite {x y : Coroutine σ α} {b c : Bool} (p : Bool) (hx : Raises x b)
    (hy : Raises y c) : Raises (if p then x else y) (if p then b else c) := by
  cases p <;> assumption

/-- A coroutine that does not raise returns. -/
theorem Raises.returns {x : Coroutine σ PUnit} (hx : Raises x false) :
    x s = (some ⟨⟩, (x s).2) := by
  match hs : x s with
  | (some ⟨⟩, s') => rfl
  | (none, s') => simpa [hs] using hx s

theorem Raises.fails {x : Coroutine σ α} (hx : Raises x true) : x s = (none, (x s).2) := by
  match hs : x s with
  | (some a, s') => simpa [hs] using hx s
  | (none, s') => rfl

section Within

variable {R : σ → σ → Prop}

theorem Within.await (refl : ∀ s, R s s) (raises : Bool) :
    Within R (await raises : Coroutine σ PUnit) := by
  intro s
  rw [await_apply]
  exact refl s

theorem Within.pure (refl : ∀ s, R s s) (a : α) : Within R (Pure.pure a : Coroutine σ α) := refl

theorem Within.call (refl : ∀ s, R s s) (result : Option α) :
    Within R (call result : Coroutine σ α) := refl

/-- A handler takes over where the body has left the state. -/
theorem Within.orElse (trans : ∀ s t u, R s t → R t u → R s u) {x handler : Coroutine σ α}
    (hx : Within R x) (hhandler : Within R handler) : Within R (x.orElse handler) := by
  intro s
  have h := hx s
  show R s ((x.orElse handler) s).2
  unfold Coroutine.orElse
  match hs : x s with
  | (some a, s') => simpa [hs] using h
  | (none, s') => exact trans s s' _ (by simpa [hs] using h) (hhandler s')

theorem Within.swallow {x : Coroutine σ PUnit} (hx : Within R x) : Within R (swallow x) := by
  intro s
  have h := hx s
  show R s ((x.orElse _) s).2
  unfold Coroutine.orElse
  split <;> simpa [*] using h

/-- A sequence stays within a transitive relation that both parts stay within. -/
theorem Within.bind (trans : ∀ s t u, R s t → R t u → R s u) {x : Coroutine σ α}
    {f : α → Coroutine σ β} (hx : Within R x) (hf : ∀ a, Within R (f a)) :
    Within R (x >>= f) := by
  intro s
  have h := hx s
  rw [bind_apply]
  match hs : x s with
  | (some a, s') =>
    have hss : R s s' := by simpa [hs] using h
    exact trans s s' _ hss (hf a s')
  | (none, s') => simpa [hs] using h

theorem Within.ite {x y : Coroutine σ α} (p : Bool) (hx : Within R x) (hy : Within R y) :
    Within R (if p then x else y) := by
  cases p <;> assumption

end Within

end Coroutine

end GithubAgent.Base
