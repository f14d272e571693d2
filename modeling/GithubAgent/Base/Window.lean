import Mathlib.Algebra.Order.Monoid.Defs
import Mathlib.Algebra.Group.Basic
import Mathlib.Algebra.Order.Group.Defs

/-!
# Limits over windows

A limit on how many of a list of points fall into a window: a half-open interval of a given
length, whichever of its two ends belongs to it. The points need not come in order.
-/

namespace GithubAgent.Base

universe u

section Window

variable {T : Type u} [AddCommGroup T] [LinearOrder T]

/-- No half-open interval of length `w` has more than `n` of the points. -/
def WithinLimit (n : Nat) (w : T) (points : List T) : Prop :=
  ∀ a, points.countP (fun g ↦ a ≤ g ∧ g < a + w) ≤ n ∧
    points.countP (fun g ↦ a < g ∧ g ≤ a + w) ≤ n

/-- The points at a distance of less than `w` from `t`. -/
def near (w t : T) (points : List T) : Nat :=
  points.countP fun g ↦ t < g + w ∧ g < t + w

variable {n : Nat} {w t : T} {points : List T}

theorem withinLimit_nil : WithinLimit n w ([] : List T) := fun _ ↦ ⟨Nat.zero_le n, Nat.zero_le n⟩

theorem near_append (points points' : List T) :
    near w t (points ++ points') = near w t points + near w t points' :=
  List.countP_append

/-- Every window that contains `t` keeps to the limit with `t` added, if there is room beside the
points that are near. -/
theorem countP_concat_le {p : T → Bool} (h : points.countP p ≤ n) (hroom : near w t points < n)
    (hnear : p t = true → ∀ g, p g = true → t < g + w ∧ g < t + w) :
    (points ++ [t]).countP p ≤ n := by
  rw [List.countP_append, List.countP_singleton]
  cases ht : p t with
  | false => simpa using h
  | true =>
    have hle : points.countP p ≤ near w t points :=
      List.countP_mono_left fun g _ hg ↦ by simpa using hnear ht g hg
    simp only [if_true]
    exact Nat.lt_of_le_of_lt hle hroom

/-- Points that are over by `t` are not near it. -/
theorem near_eq_zero (h : ∀ g ∈ points, g + w ≤ t) : near w t points = 0 := by
  rw [near, List.countP_eq_zero]
  intro g hg hnear
  exact absurd (of_decide_eq_true hnear).1 (not_lt_of_ge (h g hg))

variable [IsOrderedAddMonoid T]

/-- A point is added within the limit if fewer than `n` points are near it. -/
theorem WithinLimit.concat (h : WithinLimit n w points) (hroom : near w t points < n) :
    WithinLimit n w (points ++ [t]) := by
  intro a
  constructor
  · refine countP_concat_le (h a).1 hroom fun ht g hg ↦ ?_
    obtain ⟨hat, htw⟩ := of_decide_eq_true ht
    obtain ⟨hag, hgw⟩ := of_decide_eq_true hg
    exact ⟨lt_of_lt_of_le htw (add_le_add_left hag w), lt_of_lt_of_le hgw (add_le_add_left hat w)⟩
  · refine countP_concat_le (h a).2 hroom fun ht g hg ↦ ?_
    obtain ⟨hat, htw⟩ := of_decide_eq_true ht
    obtain ⟨hag, hgw⟩ := of_decide_eq_true hg
    exact ⟨lt_of_le_of_lt htw (add_lt_add_left hag w), lt_of_le_of_lt hgw (add_lt_add_left hat w)⟩

end Window

end GithubAgent.Base
