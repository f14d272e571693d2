import Mathlib.Logic.Function.Basic

/-!
# The lock of an event loop

`asyncio.Lock`: a flag, and the queue of the calls of `acquire` that wait for it, each with whether
it has been woken. A released lock is free until the call that was woken runs again. The queue
of a lock is always as its operations leave it: only its head can be awake, and only while the
lock is free.
-/

namespace GithubAgent.Base

universe u

/-- A lock whose waiters are named by `W`. -/
structure AsyncLock (W : Type u) where
  locked : Bool
  waiters : List (W × Bool)
  asleep : ∀ x ∈ waiters.tail, x.2 = false
  woken : ∀ x ∈ waiters, x.2 = true → locked = false

namespace AsyncLock

variable {W : Type u}

/-- A new lock is free. -/
def new : AsyncLock W := ⟨false, [], nofun, nofun⟩

/-- Free the lock and wake the first of the queue. -/
def wakeUpFirst : (waiters : List (W × Bool)) → (∀ x ∈ waiters.tail, x.2 = false) → AsyncLock W
  | [], _ => new
  | (w, _) :: rest, h => ⟨false, (w, true) :: rest, h, fun _ _ _ ↦ rfl⟩

/-- `acquire`: a free lock without a queue is taken at once, otherwise the call waits. -/
def acquire (l : AsyncLock W) (w : W) : AsyncLock W × Bool :=
  if h : l.locked = false ∧ l.waiters = [] then
    (⟨true, [], nofun, nofun⟩, true)
  else
    (⟨l.locked, l.waiters ++ [(w, false)], by
      intro x hx
      cases hw : l.waiters with
      | nil => simp [hw] at hx
      | cons y rest =>
        simp only [hw, List.cons_append, List.tail_cons, List.mem_append, List.mem_singleton] at hx
        rcases hx with hx | rfl
        · exact l.asleep x (by rw [hw]; exact hx)
        · rfl, by
      intro x hx htrue
      rcases List.mem_append.mp hx with hx | hx
      · exact l.woken x hx htrue
      · cases List.mem_singleton.mp hx
        cases htrue⟩, false)

/-- `release`; a lock that is free raises. -/
def release (l : AsyncLock W) : Option (AsyncLock W) :=
  if l.locked = true then some (wakeUpFirst l.waiters l.asleep) else none

/-- The rest of `acquire`, once the call has been woken. -/
def resume [DecidableEq W] (l : AsyncLock W) (w : W) : Option (AsyncLock W) :=
  match l with
  | ⟨_, (v, true) :: rest, h, _⟩ =>
    if v = w then some ⟨true, rest, fun x hx ↦ h x (List.mem_of_mem_tail hx),
      fun x hx htrue ↦ by rw [h x hx] at htrue; cases htrue⟩ else none
  | _ => none

/-- A call that waits is cancelled: it leaves the queue, and a free lock wakes the next one. -/
def cancel [DecidableEq W] (l : AsyncLock W) (w : W) : AsyncLock W :=
  have htail : ∀ x ∈ (l.waiters.eraseP (·.1 = w)).tail, x.2 = false := by
    intro x hx
    cases hl : l.waiters with
    | nil => simp [hl] at hx
    | cons y rest =>
      have hrest : ∀ x ∈ rest, x.2 = false := fun x hx ↦ l.asleep x (by rw [hl]; exact hx)
      rw [hl, List.eraseP_cons] at hx
      cases hy : decide (y.1 = w) with
      | true => exact hrest x (List.mem_of_mem_tail (by simpa [hy] using hx))
      | false => exact hrest x (List.mem_of_mem_eraseP (by simpa [hy] using hx))
  if h : l.locked = true then
    ⟨true, l.waiters.eraseP (·.1 = w), htail, fun x hx htrue ↦ by
      rw [l.woken x (List.mem_of_mem_eraseP hx) htrue] at h
      cases h⟩
  else wakeUpFirst (l.waiters.eraseP (·.1 = w)) htail

@[simp] theorem wakeUpFirst_locked (waiters : List (W × Bool))
    (h : ∀ x ∈ waiters.tail, x.2 = false) : (wakeUpFirst waiters h).locked = false := by
  cases waiters <;> rfl

/-- A call of `acquire` that does not wait finds a free lock and takes it. -/
theorem acquire_locked {l l' : AsyncLock W} {w : W} (h : l.acquire w = (l', true)) :
    l.locked = false ∧ l'.locked = true := by
  unfold acquire at h
  split at h
  · next hfree =>
    cases h
    exact ⟨hfree.1, rfl⟩
  · cases h

/-- A call that waits leaves the lock as it is. -/
theorem acquire_waits {l l' : AsyncLock W} {w : W} (h : l.acquire w = (l', false)) :
    l'.locked = l.locked := by
  unfold acquire at h
  split at h
  · cases h
  · cases h
    rfl

/-- A call that was woken finds a free lock and takes it. -/
theorem resume_locked [DecidableEq W] {l l' : AsyncLock W} {w : W} (h : l.resume w = some l') :
    l.locked = false ∧ l'.locked = true := by
  unfold resume at h
  split at h
  · next hwoken =>
    split at h
    · cases h
      exact ⟨hwoken _ List.mem_cons_self rfl, rfl⟩
    · cases h
  · cases h

/-- A held lock can be released, and is then free. -/
theorem release_of_locked {l : AsyncLock W} (h : l.locked = true) :
    ∃ l', l.release = some l' ∧ l'.locked = false :=
  ⟨_, if_pos h, wakeUpFirst_locked _ _⟩

/-- A call that is cancelled while it waits leaves the lock as it is. -/
@[simp] theorem cancel_locked [DecidableEq W] (l : AsyncLock W) (w : W) :
    (l.cancel w).locked = l.locked := by
  unfold cancel
  split
  · next h => exact h.symm
  · next h =>
    rw [wakeUpFirst_locked]
    exact (eq_false_of_ne_true h).symm

/-! ### The critical section -/

/-- The lock is held exactly while somebody is inside, and nobody else is inside then. -/
structure Guards (l : AsyncLock W) (inside : W → Prop) : Prop where
  unique : ∀ x y, inside x → inside y → x = y
  held : l.locked = true ↔ ∃ x, inside x

section Guards

variable {l l' : AsyncLock W} {inside inside' : W → Prop} {x : W}

theorem guards_new (h : ∀ x, ¬ inside x) : new.Guards inside :=
  ⟨fun x _ hx ↦ absurd hx (h x), iff_of_false (nomatch ·) fun ⟨x, hx⟩ ↦ h x hx⟩

/-- Somebody takes the free lock. -/
theorem Guards.enter (h : l.Guards inside) (hfree : l.locked = false) (hheld : l'.locked = true)
    (hx : inside' x) (hother : ∀ y, y ≠ x → inside' y → inside y) : l'.Guards inside' := by
  have hempty (y : W) (hy : inside' y) : y = x := by
    by_contra hne
    rw [h.held.mpr ⟨y, hother y hne hy⟩] at hfree
    cases hfree
  exact ⟨fun y z hy hz ↦ (hempty y hy).trans (hempty z hz).symm, iff_of_true hheld ⟨x, hx⟩⟩

/-- Whoever is inside gives the lock back. -/
theorem Guards.leave (h : l.Guards inside) (hx : inside x) (hfree : l'.locked = false)
    (hleft : ¬ inside' x) (hother : ∀ y, y ≠ x → inside' y → inside y) : l'.Guards inside' := by
  have hempty (y : W) : ¬ inside' y := by
    intro hy
    by_cases hyx : y = x
    · exact hleft (hyx ▸ hy)
    · exact hyx (h.unique y x (hother y hyx hy) hx)
  exact ⟨fun y _ hy ↦ absurd hy (hempty y), iff_of_false (by simp [hfree]) fun ⟨y, hy⟩ ↦
    hempty y hy⟩

/-- Nobody enters or leaves. -/
theorem Guards.congr (h : l.Guards inside) (hlocked : l'.locked = l.locked)
    (hinside : ∀ y, inside' y ↔ inside y) : l'.Guards inside' := by
  obtain rfl : inside' = inside := funext fun y ↦ propext (hinside y)
  exact ⟨h.unique, by rw [hlocked, h.held]⟩

end Guards

end AsyncLock

end GithubAgent.Base
