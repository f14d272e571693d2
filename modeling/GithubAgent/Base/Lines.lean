import Mathlib.Data.List.Basic

/-!
# The lines of a growing text

A list is cut at its separators. The parts before a separator are finished, and the part behind
the last one is not; a list that grows adds to the unfinished part only.
-/

namespace GithubAgent.Base

universe u v

section Lines

variable {A : Type u} {B : Type v} (p : A → Bool)

/-- The parts that a separator ends. -/
def finished (l : List A) : List (List A) := (l.splitOnP p).dropLast

/-- The part behind the last separator. -/
def unfinished (l : List A) : List A := (l.splitOnP p).getLast (List.splitOnP_ne_nil p l)

variable {p}

theorem splitOnP_eq (l : List A) : l.splitOnP p = finished p l ++ [unfinished p l] :=
  (List.dropLast_append_getLast _).symm

theorem finished_cons_of_pos {a : A} (l : List A) (h : p a = true) :
    finished p (a :: l) = [] :: finished p l := by
  rw [finished, List.splitOnP_cons_eq_if_modifyHead, if_pos h,
    List.dropLast_cons_of_ne_nil (List.splitOnP_ne_nil p l), finished]

theorem unfinished_cons_of_pos {a : A} (l : List A) (h : p a = true) :
    unfinished p (a :: l) = unfinished p l := by
  simp only [unfinished, List.splitOnP_cons_eq_if_modifyHead, if_pos h]
  exact List.getLast_cons (List.splitOnP_ne_nil p l)

theorem splitOnP_cons_of_neg {a : A} (l : List A) (h : p a = false) :
    (a :: l).splitOnP p = (l.splitOnP p).modifyHead (List.cons a) := by
  rw [List.splitOnP_cons_eq_if_modifyHead, if_neg (by simp [h])]

theorem dropLast_modifyHead (f : A → A) (l : List A) :
    (l.modifyHead f).dropLast = l.dropLast.modifyHead f := by
  match l with
  | [] => rfl
  | [_] => rfl
  | _ :: _ :: _ => rfl

theorem finished_cons_of_neg {a : A} (l : List A) (h : p a = false) :
    finished p (a :: l) = (finished p l).modifyHead (List.cons a) := by
  rw [finished, splitOnP_cons_of_neg l h, dropLast_modifyHead, finished]

theorem of_splitOnP_eq {l : List A} (parts : List (List A)) {rest : List A}
    (h : l.splitOnP p = parts ++ [rest]) : finished p l = parts ∧ unfinished p l = rest := by
  simp [finished, unfinished, h]

theorem unfinished_cons_of_neg {a : A} (l : List A) (h : p a = false) :
    unfinished p (a :: l) = if finished p l = [] then a :: unfinished p l else unfinished p l := by
  have hsplit := splitOnP_cons_of_neg l h
  rw [splitOnP_eq l] at hsplit
  cases hl : finished p l with
  | nil =>
    rw [hl] at hsplit
    rw [if_pos rfl]
    exact (of_splitOnP_eq [] hsplit).2
  | cons part parts =>
    rw [hl] at hsplit
    rw [if_neg (by simp)]
    exact (of_splitOnP_eq ((a :: part) :: parts) hsplit).2

/-- Without a separator nothing is finished. -/
theorem finished_eq_nil {l : List A} (h : ∀ a ∈ l, p a = false) : finished p l = [] := by
  rw [finished, List.splitOnP_eq_singleton h]
  rfl

/-- No separator is unfinished. -/
theorem not_of_mem_unfinished {l : List A} {a : A} (h : a ∈ unfinished p l) : p a = false := by
  induction l with
  | nil => cases h
  | cons b l ih =>
    cases hb : p b with
    | true => exact ih (by rwa [unfinished_cons_of_pos l hb] at h)
    | false =>
      rw [unfinished_cons_of_neg l hb] at h
      split at h
      · rcases List.mem_cons.mp h with rfl | h
        · exact hb
        · exact ih h
      · exact ih h

/-- What is behind a list is added to its unfinished part. -/
theorem splitOnP_append (l m : List A) :
    (l ++ m).splitOnP p = finished p l ++ (unfinished p l ++ m).splitOnP p := by
  induction l with
  | nil => rfl
  | cons a l ih =>
    rw [List.cons_append]
    cases ha : p a with
    | true =>
      rw [List.splitOnP_cons_eq_if_modifyHead, if_pos ha, ih,
        finished_cons_of_pos l ha, unfinished_cons_of_pos l ha, List.cons_append]
    | false =>
      rw [splitOnP_cons_of_neg _ ha, ih, finished_cons_of_neg l ha, unfinished_cons_of_neg l ha]
      cases finished p l with
      | nil =>
        rw [if_pos rfl, List.cons_append, splitOnP_cons_of_neg _ ha]
        rfl
      | cons part parts => rw [if_neg (by simp)]; rfl

/-- Reading on from the unfinished part finishes what the whole list would. -/
theorem finished_append (l m : List A) :
    finished p (l ++ m) = finished p l ++ finished p (unfinished p l ++ m) := by
  rw [finished, splitOnP_append, List.dropLast_append_of_ne_nil (List.splitOnP_ne_nil p _),
    finished]
  rfl

/-- A list without separators is put in front of the first part. -/
theorem finished_append_of_forall {l : List A} (h : ∀ a ∈ l, p a = false) (m : List A) :
    finished p (l ++ m) = (finished p m).modifyHead (l ++ ·) ∧
      unfinished p (l ++ m) =
        if finished p m = [] then l ++ unfinished p m else unfinished p m := by
  induction l with
  | nil => cases hm : finished p m <;> simp [hm]
  | cons a l ih =>
    obtain ⟨hfinished, hunfinished⟩ := ih fun b hb ↦ h b (List.mem_cons_of_mem a hb)
    have ha : p a = false := h a List.mem_cons_self
    rw [List.cons_append, finished_cons_of_neg _ ha, unfinished_cons_of_neg _ ha, hfinished,
      hunfinished]
    cases finished p m <;> simp

theorem exists_of_finished {l : List A} (h : finished p l ≠ []) : ∃ b ∈ l, p b = true := by
  by_contra hnone
  exact h (finished_eq_nil fun b hb ↦ by simpa using fun hp ↦ hnone ⟨b, hb, hp⟩)

theorem finished_ne_nil {l : List A} {b : A} (hb : b ∈ l) (hp : p b = true) :
    finished p l ≠ [] := by
  induction l with
  | nil => cases hb
  | cons a l ih =>
    cases ha : p a with
    | true => simp [finished_cons_of_pos l ha]
    | false =>
      have hbl : b ∈ l := by
        rcases List.mem_cons.mp hb with rfl | hbl
        · simp [hp] at ha
        · exact hbl
      rw [finished_cons_of_neg l ha]
      cases hl : finished p l with
      | nil => exact absurd hl (ih hbl)
      | cons part parts => simp

/-- A split of a list that does not begin with its head is one of its tail. -/
theorem exists_split_cons {a : A} {l : List A} {q : List A → A → List A → Prop} :
    (∃ before b after, a :: l = before ++ b :: after ∧ q before b after) ↔
      q [] a l ∨ ∃ before b after, l = before ++ b :: after ∧ q (a :: before) b after := by
  constructor
  · rintro ⟨before, b, after, heq, hq⟩
    cases before with
    | nil =>
      obtain ⟨rfl, rfl⟩ := List.cons.inj heq
      exact .inl hq
    | cons c before =>
      obtain ⟨rfl, hl⟩ := List.cons.inj heq
      exact .inr ⟨before, b, after, hl, hq⟩
  · rintro (hq | ⟨before, b, after, rfl, hq⟩)
    · exact ⟨[], a, l, rfl, hq⟩
    · exact ⟨a :: before, b, after, rfl, hq⟩

/-- An element that is no separator is in a finished part if a separator is behind it. -/
theorem mem_finished_iff {q : A → Prop} (l : List A) (hq : ∀ a ∈ l, q a → p a = false) :
    (∃ part ∈ finished p l, ∃ a ∈ part, q a) ↔
      ∃ before a after, l = before ++ a :: after ∧ q a ∧ ∃ b ∈ after, p b = true := by
  induction l with
  | nil => simp [finished]
  | cons a l ih =>
    rw [exists_split_cons, ← ih fun b hb ↦ hq b (List.mem_cons_of_mem a hb)]
    cases ha : p a with
    | true =>
      have hnot : ¬ q a := fun h ↦ by simp [hq a List.mem_cons_self h] at ha
      simp [finished_cons_of_pos l ha, hnot]
    | false =>
      rw [finished_cons_of_neg l ha]
      cases hl : finished p l with
      | nil =>
        have hnone : ¬ ∃ b ∈ l, p b = true := fun ⟨b, hb, hp⟩ ↦ finished_ne_nil hb hp hl
        simp [hnone]
      | cons part parts =>
        have hsome : ∃ b ∈ l, p b = true := exists_of_finished (by simp [hl])
        simp [hsome, or_assoc]

/-- Elements are replaced one by one, separators by separators. -/
theorem splitOnP_map {q : B → Bool} (f : A → B) (h : ∀ a, q (f a) = p a) (l : List A) :
    (l.map f).splitOnP q = (l.splitOnP p).map (List.map f) := by
  induction l with
  | nil => rfl
  | cons a l ih =>
    rw [List.map_cons, List.splitOnP_cons_eq_if_modifyHead, List.splitOnP_cons_eq_if_modifyHead, ih,
      h a]
    split
    · rfl
    · cases l.splitOnP p <;> rfl

theorem finished_map {q : B → Bool} (f : A → B) (h : ∀ a, q (f a) = p a) (l : List A) :
    finished q (l.map f) = (finished p l).map (List.map f) := by
  rw [finished, splitOnP_map f h, ← List.map_dropLast, finished]

/-- Related parts stay related when related lists are put in front of the first of them. -/
theorem forall₂_modifyHead {R : List A → List B → Prop} {parts : List (List A)}
    {parts' : List (List B)} {rest : List A} {rest' : List B} (h : List.Forall₂ R parts parts')
    (hrest : R rest rest') {pre : List A} {pre' : List B}
    (hpre : ∀ l m, R l m → R (pre ++ l) (pre' ++ m)) :
    List.Forall₂ R (parts.modifyHead (pre ++ ·)) (parts'.modifyHead (pre' ++ ·)) ∧
      R (if parts = [] then pre ++ rest else rest)
        (if parts' = [] then pre' ++ rest' else rest') := by
  cases h with
  | nil => exact ⟨.nil, by simpa using hpre rest rest' hrest⟩
  | cons hfirst hmore =>
    rw [if_neg (by simp), if_neg (by simp)]
    exact ⟨.cons (hpre _ _ hfirst) hmore, hrest⟩

end Lines

end GithubAgent.Base
