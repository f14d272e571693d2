import Mathlib.Data.List.Basic

/-!
# What is done before an exception

Statements put values out until one of them raises; it ends all that follow. A loop over a list is
compared with the loop over a list of one more element.
-/

namespace GithubAgent.Base

universe u v

/-- What comes of the elements behind `x` is the same as without it. -/
def KeepsRest {E : Type u} {A : Type v} (g : List A → List E) (before : List A) (x : A)
    (behind : List A) : Prop :=
  ∃ rest, g (before ++ behind) = g before ++ rest ∧
    g (before ++ x :: behind) = g (before ++ [x]) ++ rest

/-- The values that a statement puts out, and whether it then raises. -/
structure Attempt (E : Type u) where
  out : List E
  raised : Bool

namespace Attempt

variable {E : Type u} {A : Type v}

/-- These values are put out. -/
def puts (out : List E) : Attempt E := ⟨out, false⟩

/-- An exception. -/
def raise : Attempt E := ⟨[], true⟩

/-- What is done with the value of an expression, which raises where it has none. -/
def eval (value : Option A) (f : A → Attempt E) : Attempt E :=
  match value with
  | none => raise
  | some a => f a

/-- One statement and then another. -/
def andThen (a b : Attempt E) : Attempt E := if a.raised then a else ⟨a.out ++ b.out, b.raised⟩

/-- A loop. -/
def each (f : A → Attempt E) : List A → Attempt E
  | [] => puts []
  | a :: rest => (f a).andThen (each f rest)

theorem raised_eval {value : Option A} {f : A → Attempt E} :
    (eval value f).raised = false ↔ ∃ a, value = some a ∧ (f a).raised = false := by
  cases value with
  | none => simp [eval, raise]
  | some a => simp [eval]

theorem andThen_of_raised {a : Attempt E} (h : a.raised = true) (b : Attempt E) :
    a.andThen b = a := if_pos h

theorem andThen_of_not_raised {a : Attempt E} (h : a.raised = false) (b : Attempt E) :
    a.andThen b = ⟨a.out ++ b.out, b.raised⟩ := if_neg (Bool.eq_false_iff.mp h)

@[simp] theorem raised_andThen (a b : Attempt E) :
    (a.andThen b).raised = (a.raised || b.raised) := by
  cases h : a.raised with
  | true => rw [andThen_of_raised h, h, Bool.true_or]
  | false => rw [andThen_of_not_raised h, Bool.false_or]

theorem andThen_assoc (a b c : Attempt E) :
    (a.andThen b).andThen c = a.andThen (b.andThen c) := by
  cases ha : a.raised with
  | true => rw [andThen_of_raised ha, andThen_of_raised ha, andThen_of_raised ha]
  | false =>
    rw [andThen_of_not_raised ha, andThen_of_not_raised ha]
    cases hb : b.raised with
    | true => rw [andThen_of_raised rfl, andThen_of_raised hb, hb]
    | false =>
      rw [andThen_of_not_raised rfl, andThen_of_not_raised hb, List.append_assoc]

/-! ### Loops -/

section Each

variable (f : A → Attempt E)

theorem each_append (l m : List A) : each f (l ++ m) = (each f l).andThen (each f m) := by
  induction l with
  | nil => rfl
  | cons a rest ih => rw [List.cons_append, each, each, ih, andThen_assoc]

/-- A loop ends with an exception if one of its elements does. -/
theorem raised_each (l : List A) : (each f l).raised = l.any fun a ↦ (f a).raised := by
  induction l with
  | nil => rfl
  | cons a rest ih => rw [each, raised_andThen, ih, List.any_cons]

theorem not_raised_each_iff {l : List A} :
    (each f l).raised = false ↔ ∀ a ∈ l, (f a).raised = false := by
  rw [raised_each, List.any_eq_false]
  exact forall₂_congr fun a _ ↦ iff_of_eq (Bool.not_eq_true _)

/-- Without an exception every element puts out its values. -/
theorem out_each_of_not_raised {l : List A} (h : (each f l).raised = false) :
    (each f l).out = l.flatMap fun a ↦ (f a).out := by
  induction l with
  | nil => rfl
  | cons a rest ih =>
    rw [each, raised_andThen, Bool.or_eq_false_iff] at h
    rw [each, andThen_of_not_raised h.1, List.flatMap_cons, ih h.2]

/-- No element puts out a value before one raises, nor this one. -/
def Silent : List A → Prop
  | [] => True
  | a :: rest => (f a).out = [] ∧ ((f a).raised = true ∨ Silent rest)

theorem silent_iff (l : List A) : Silent f l ↔ (each f l).out = [] := by
  induction l with
  | nil => exact iff_of_true trivial rfl
  | cons a rest ih =>
    rw [Silent, each]
    cases h : (f a).raised with
    | true => rw [andThen_of_raised h, eq_self, true_or, and_true]
    | false =>
      rw [andThen_of_not_raised h, List.append_eq_nil_iff, ih, or_iff_right Bool.false_ne_true]

/-- They do so if and only if one before it raises, or it does not, or there is nothing that it
could suppress. -/
theorem keepsRest_iff (before : List A) (x : A) (behind : List A) :
    KeepsRest (fun l ↦ (each f l).out) before x behind ↔
      (each f before).raised = true ∨ (f x).raised = false ∨ Silent f behind := by
  have hx : before ++ x :: behind = (before ++ [x]) ++ behind := by
    rw [List.append_assoc, List.singleton_append]
  unfold KeepsRest
  beta_reduce
  rw [hx, silent_iff, each_append f (before ++ [x]), each_append f before [x],
    each_append f before behind]
  cases hbefore : (each f before).raised with
  | true =>
    refine iff_of_true ⟨[], ?_⟩ (Or.inl rfl)
    simp only [andThen_of_raised hbefore, List.append_nil, and_self]
  | false =>
    have hone : each f [x] = f x := by
      cases hraised : (f x).raised with
      | true => rw [each, andThen_of_raised hraised]
      | false =>
        rw [each, andThen_of_not_raised hraised, each, puts, List.append_nil, ← hraised]
    rw [or_iff_right Bool.false_ne_true, hone, andThen_of_not_raised hbefore (f x),
      andThen_of_not_raised hbefore (each f behind)]
    cases hraised : (f x).raised with
    | false =>
      refine iff_of_true ⟨(each f behind).out, rfl, ?_⟩ (Or.inl rfl)
      rw [andThen_of_not_raised rfl]
    | true =>
      rw [andThen_of_raised rfl, or_iff_right (Bool.false_ne_true ∘ Eq.symm)]
      constructor
      · rintro ⟨rest, hrest, hnone⟩
        rw [List.append_cancel_left hrest]
        exact List.self_eq_append_right.mp hnone
      · intro hsilent
        exact ⟨[], by rw [hsilent], by rw [List.append_nil]⟩

variable {f} in
/-- The same by a property of the elements that do not raise. -/
theorem keepsRest_iff_of {p : A → Prop} (hp : ∀ a, (f a).raised = false ↔ p a) (before : List A)
    (x : A) (behind : List A) :
    KeepsRest (fun l ↦ (each f l).out) before x behind ↔
      (∃ a ∈ before, ¬ p a) ∨ p x ∨ Silent f behind := by
  rw [keepsRest_iff, hp, ← Bool.not_eq_false, not_raised_each_iff, not_forall₂]
  simp only [hp, exists_prop]

end Each

end Attempt

end GithubAgent.Base
