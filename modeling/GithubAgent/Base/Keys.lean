import Mathlib.Logic.Function.Basic

/-!
# Keys with an expiry time

A keyspace of a store whose keys may expire: every cell carries the clock reading, in
milliseconds, from which the key no longer exists. Reads take the clock as an argument and
never observe an expired cell, so expiry needs no step of its own. The operations are the
commands of that name of a Redis server on string keys.
-/

namespace GithubAgent.Base

universe u v

/-- A stored value with the clock reading at which it expires, if it does. -/
structure Cell (V : Type v) where
  value : V
  deadline : Option Nat
  deriving DecidableEq

/-- A cell is live strictly before its deadline. -/
def Cell.live {V : Type v} (c : Cell V) (now : Nat) : Bool :=
  match c.deadline with
  | none => true
  | some d => now < d

/-- A cell that is live later was live earlier. -/
theorem Cell.live_of_le {V : Type v} {c : Cell V} {now later : Nat} (hle : now ≤ later)
    (h : c.live later = true) : c.live now = true := by
  rcases c with ⟨v, _ | d⟩
  · rfl
  · simp only [Cell.live, decide_eq_true_eq] at h ⊢
    omega

/-- A keyspace of values of one type. -/
abbrev Keys (K : Type u) (V : Type v) := K → Option (Cell V)

namespace Keys

variable {K : Type u} {V : Type v}

/-- The keyspace without keys. -/
def empty : Keys K V := fun _ ↦ none

/-- `GET`: the value of a live key. -/
def get (m : Keys K V) (now : Nat) (k : K) : Option V :=
  (m k).bind fun c ↦ if c.live now then some c.value else none

/-- `EXISTS`: whether the key is live. -/
def has (m : Keys K V) (now : Nat) (k : K) : Bool := (m.get now k).isSome

/-- `TTL`: remaining seconds, rounded to the nearest; -2 without the key, -1 without expiry. -/
def ttl (m : Keys K V) (now : Nat) (k : K) : Int :=
  match m k with
  | none => -2
  | some c =>
    match c.deadline with
    | none => -1
    | some d => if now < d then ((d - now + 500) / 1000 : Nat) else -2

section Writes

variable [DecidableEq K]

/-- `SET` without expiry. -/
def set (m : Keys K V) (k : K) (v : V) : Keys K V := Function.update m k (some ⟨v, none⟩)

/-- `SETEX`, and `SET` with `EX`: the key expires the given number of seconds from now. -/
def setex (m : Keys K V) (now : Nat) (k : K) (seconds : Nat) (v : V) : Keys K V :=
  Function.update m k (some ⟨v, some (now + 1000 * seconds)⟩)

/-- `SET` with `NX` and `EX`: writes only a key that does not exist, and says whether it did. -/
def setnx (m : Keys K V) (now : Nat) (k : K) (seconds : Nat) (v : V) : Keys K V × Bool :=
  if m.has now k then (m, false) else (m.setex now k seconds v, true)

/-- A write that keeps the expiry, as of a hash, a list or a counter: a key that does not exist
starts from nothing, and without expiry. -/
def modify (m : Keys K V) (now : Nat) (k : K) (f : Option V → V) : Keys K V :=
  Function.update m k
    (some ⟨f (m.get now k), if m.has now k then (m k).bind (·.deadline) else none⟩)

/-- `EXPIRE`: only a key that exists gets the expiry. -/
def expire (m : Keys K V) (now : Nat) (k : K) (seconds : Nat) : Keys K V :=
  match m.get now k with
  | some v => m.setex now k seconds v
  | none => m

/-- `DEL`. -/
def del (m : Keys K V) (k : K) : Keys K V := Function.update m k none

end Writes

@[simp] theorem get_empty (now : Nat) (k : K) : (empty : Keys K V).get now k = none := rfl

/-- A read observes a cell exactly while the cell is live. -/
theorem get_eq_some {m : Keys K V} {now : Nat} {k : K} {v : V} :
    m.get now k = some v ↔ ∃ d, m k = some ⟨v, d⟩ ∧ (Cell.mk v d).live now = true := by
  unfold get
  cases hc : m k with
  | none => simp
  | some c =>
    rcases c with ⟨w, d⟩
    simp only [Option.bind_some]
    split
    · next hl =>
      constructor
      · intro h
        cases h
        exact ⟨d, rfl, hl⟩
      · rintro ⟨e, he, _⟩
        cases he
        rfl
    · next hl =>
      constructor
      · intro h
        cases h
      · rintro ⟨e, he, hlive⟩
        cases he
        exact absurd hlive hl

/-- A read is a matter of the cell of its key. -/
theorem get_congr {m m' : Keys K V} {k : K} (h : m k = m' k) (now : Nat) :
    m.get now k = m'.get now k := by
  simp only [get, h]

/-- Time alone only removes keys. -/
theorem get_eq_none_of_le {m : Keys K V} {now later : Nat} {k : K} (hle : now ≤ later)
    (h : m.get now k = none) : m.get later k = none := by
  cases hl : m.get later k with
  | none => rfl
  | some v =>
    obtain ⟨d, hk, hlive⟩ := get_eq_some.mp hl
    rw [get_eq_some.mpr ⟨d, hk, Cell.live_of_le hle hlive⟩] at h
    cases h

/-- What is read later could be read earlier, with the same value. -/
theorem get_eq_some_of_le {m : Keys K V} {now later : Nat} {k : K} {v : V} (hle : now ≤ later)
    (h : m.get later k = some v) : m.get now k = some v := by
  obtain ⟨d, hk, hlive⟩ := get_eq_some.mp h
  exact get_eq_some.mpr ⟨d, hk, Cell.live_of_le hle hlive⟩

section Writes

variable [DecidableEq K]

@[simp] theorem get_setex_self (m : Keys K V) (now later : Nat) (k : K) (seconds : Nat) (v : V) :
    (m.setex now k seconds v).get later k = if later < now + 1000 * seconds then some v else none := by
  simp [get, setex, Cell.live]

@[simp] theorem get_setex_of_ne (m : Keys K V) (now later : Nat) {k k' : K} (h : k' ≠ k)
    (seconds : Nat) (v : V) : (m.setex now k seconds v).get later k' = m.get later k' := by
  simp [get, setex, Function.update_of_ne h]

@[simp] theorem get_del_self (m : Keys K V) (now : Nat) (k : K) : (m.del k).get now k = none := by
  simp [get, del]

@[simp] theorem get_del_of_ne (m : Keys K V) (now : Nat) {k k' : K} (h : k' ≠ k) :
    (m.del k).get now k' = m.get now k' := by
  simp [get, del, Function.update_of_ne h]

theorem setex_apply_self (m : Keys K V) (now : Nat) (k : K) (seconds : Nat) (v : V) :
    m.setex now k seconds v k = some ⟨v, some (now + 1000 * seconds)⟩ := Function.update_self _ _ _

theorem setex_apply_of_ne (m : Keys K V) (now : Nat) {k k' : K} (h : k' ≠ k) (seconds : Nat)
    (v : V) : m.setex now k seconds v k' = m k' := Function.update_of_ne h _ _

theorem modify_apply_of_ne (m : Keys K V) (now : Nat) {k k' : K} (h : k' ≠ k)
    (f : Option V → V) : m.modify now k f k' = m k' := Function.update_of_ne h _ _

theorem modify_apply_self (m : Keys K V) (now : Nat) (k : K) (f : Option V → V) :
    m.modify now k f k =
      some ⟨f (m.get now k), if m.has now k then (m k).bind (·.deadline) else none⟩ :=
  Function.update_self _ _ _

theorem expire_of_some {m : Keys K V} {now : Nat} {k : K} {v : V} (h : m.get now k = some v)
    (seconds : Nat) : m.expire now k seconds = m.setex now k seconds v := by
  simp [expire, h]

theorem expire_of_none {m : Keys K V} {now : Nat} {k : K} (h : m.get now k = none)
    (seconds : Nat) : m.expire now k seconds = m := by
  simp [expire, h]

theorem expire_apply_of_ne (m : Keys K V) (now : Nat) {k k' : K} (h : k' ≠ k) (seconds : Nat) :
    m.expire now k seconds k' = m k' := by
  cases hget : m.get now k with
  | none => rw [expire_of_none hget]
  | some v => rw [expire_of_some hget, setex_apply_of_ne m now h]

/-- An `EXPIRE` creates nothing. -/
theorem expire_eq_none {m : Keys K V} {k' : K} (h : m k' = none) (now : Nat) (k : K)
    (seconds : Nat) : m.expire now k seconds k' = none := by
  by_cases hk : k' = k
  · subst hk
    rw [expire_of_none (by simp [get, h]), h]
  · rw [expire_apply_of_ne m now hk, h]

theorem del_apply_of_ne (m : Keys K V) {k k' : K} (h : k' ≠ k) : m.del k k' = m k' :=
  Function.update_of_ne h _ _

/-- A write is read back at once. -/
@[simp] theorem get_modify_self (m : Keys K V) (now : Nat) (k : K) (f : Option V → V) :
    (m.modify now k f).get now k = some (f (m.get now k)) := by
  refine get_eq_some.mpr ⟨_, modify_apply_self m now k f, ?_⟩
  cases hget : m.get now k with
  | none => simp [has, hget, Cell.live]
  | some v =>
    obtain ⟨d, hk, hlive⟩ := get_eq_some.mp hget
    have hlive : (Cell.mk (f (some v)) d).live now = true := hlive
    simpa [has, hget, hk] using hlive

/-- Two writes of one key are one. -/
theorem modify_modify (m : Keys K V) (now : Nat) (k : K) (f g : Option V → V) :
    (m.modify now k f).modify now k g = m.modify now k fun v ↦ g (some (f v)) := by
  funext k'
  by_cases hk : k' = k
  · subst hk
    rw [modify_apply_self, modify_apply_self, get_modify_self]
    simp only [has, get_modify_self, Option.isSome_some, if_true, modify_apply_self,
      Option.bind_some]
  · rw [modify_apply_of_ne _ _ hk, modify_apply_of_ne _ _ hk, modify_apply_of_ne _ _ hk]

/-- A write followed by an expiry sets the key anew. -/
theorem expire_modify (m : Keys K V) (now : Nat) (k : K) (f : Option V → V) (seconds : Nat) :
    (m.modify now k f).expire now k seconds = m.setex now k seconds (f (m.get now k)) := by
  rw [expire_of_some (get_modify_self m now k f)]
  funext k'
  by_cases hk : k' = k
  · subst hk
    rw [setex_apply_self, setex_apply_self]
  · rw [setex_apply_of_ne _ _ hk, setex_apply_of_ne _ _ hk, modify_apply_of_ne _ _ hk]

theorem get_expire_of_ne (m : Keys K V) (now later : Nat) {k k' : K} (h : k' ≠ k)
    (seconds : Nat) : (m.expire now k seconds).get later k' = m.get later k' :=
  get_congr (expire_apply_of_ne m now h seconds) later

/-- A write into a live key leaves its expiry, and so its life, as it was. -/
theorem has_modify_self {m : Keys K V} {now : Nat} {k : K} (h : m.has now k = true)
    (f : Option V → V) (later : Nat) : (m.modify now k f).has later k = m.has later k := by
  obtain ⟨v, hv⟩ := Option.isSome_iff_exists.mp h
  obtain ⟨d, hk, -⟩ := get_eq_some.mp hv
  have hcell : m.modify now k f k = some ⟨f (m.get now k), d⟩ := by
    rw [modify_apply_self, h, hk]
    rfl
  simp only [has, get, hcell, hk, Cell.live, Option.bind_some]
  cases d with
  | none => rfl
  | some d => by_cases hlater : later < d <;> simp [hlater]

/-- What an `EXPIRE` leaves to be read. -/
theorem get_expire_self (m : Keys K V) {now later : Nat} (hle : now ≤ later) (k : K)
    (seconds : Nat) :
    (m.expire now k seconds).get later k =
      if later < now + 1000 * seconds then m.get now k else none := by
  cases hget : m.get now k with
  | none =>
    rw [expire_of_none hget, get_eq_none_of_le hle hget, ite_self]
  | some v => rw [expire_of_some hget, get_setex_self]

/-- A write with an expiry in the future removes no key. -/
theorem has_setex {m : Keys K V} {now seconds : Nat} {k k' : K} {v : V} (hpos : 0 < seconds)
    (h : m.has now k' = true) : (m.setex now k seconds v).has now k' = true := by
  by_cases hk : k' = k
  · subst hk
    simp [has, get_setex_self, hpos]
  · rwa [has, get_setex_of_ne m now now hk]

theorem has_setex_self (m : Keys K V) (now : Nat) {seconds : Nat} (k : K) (v : V)
    (hpos : 0 < seconds) : (m.setex now k seconds v).has now k = true := by
  simp [has, get_setex_self, hpos]

theorem has_del_of_ne (m : Keys K V) (now : Nat) {k k' : K} (h : k' ≠ k) :
    (m.del k).has now k' = m.has now k' := by
  simp [has, get_del_of_ne m now h]

/-- A conditional write fails exactly on a live key, and then changes nothing. -/
theorem setnx_of_has {m : Keys K V} {now : Nat} {k : K} (h : m.has now k = true) (seconds : Nat)
    (v : V) : m.setnx now k seconds v = (m, false) := by
  simp [setnx, h]

theorem setnx_of_not_has {m : Keys K V} {now : Nat} {k : K} (h : m.has now k = false)
    (seconds : Nat) (v : V) : m.setnx now k seconds v = (m.setex now k seconds v, true) := by
  simp [setnx, h]

end Writes

end Keys

end GithubAgent.Base
