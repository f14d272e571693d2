import Mathlib.Data.List.Infix

/-!
# Words in a text

`occursIn word text` is `word in text`, and `without word 0 text` is `text.replace(word, "")` for a
word that is not empty: the occurrences are found from the left and do not overlap.
-/

namespace GithubAgent.Base

/-- `word in text`. -/
def occursIn (word text : String) : Bool := decide (word.toList <:+: text.toList)

variable {α : Type} [DecidableEq α]

/-- The text without the occurrences of the word, of which the first characters, as many as
given, are still to be skipped. -/
def without (word : List α) : Nat → List α → List α
  | _, [] => []
  | skip + 1, _ :: rest => without word skip rest
  | 0, c :: rest =>
    if word.isPrefixOf (c :: rest) then without word (word.length - 1) rest
    else c :: without word 0 rest

@[simp]
theorem without_nil (word : List α) (skip : Nat) : without word skip [] = [] := by
  cases skip <;> rfl

/-- What is to be skipped is skipped. -/
theorem without_skip (word rest : List α) (skipped : List α) :
    without word skipped.length (skipped ++ rest) = without word 0 rest := by
  induction skipped with
  | nil => rfl
  | cons c skipped ih => exact ih

/-- An occurrence at the start is deleted. -/
theorem without_append {word : List α} (rest : List α) (h : word ≠ []) :
    without word 0 (word ++ rest) = without word 0 rest := by
  obtain ⟨c, letters, rfl⟩ := List.exists_cons_of_ne_nil h
  have hlead : (c :: letters).isPrefixOf (c :: (letters ++ rest)) = true :=
    List.isPrefixOf_iff_prefix.mpr (List.prefix_append (c :: letters) rest)
  rw [List.cons_append, without, if_pos hlead]
  exact without_skip (c :: letters) rest letters

theorem length_without_le (word : List α) (skip : Nat) (text : List α) :
    (without word skip text).length ≤ text.length := by
  induction text generalizing skip with
  | nil => rw [without_nil]
  | cons c rest ih =>
    cases skip with
    | succ skip => exact Nat.le_succ_of_le (ih skip)
    | zero =>
      rw [without]
      split
      · exact Nat.le_succ_of_le (ih _)
      · exact Nat.succ_le_succ (ih 0)

/-- A text stays as it is exactly when the word does not occur in it. -/
theorem without_eq_self_iff {word : List α} (text : List α) (h : word ≠ []) :
    without word 0 text = text ↔ ¬ word <:+: text := by
  induction text with
  | nil =>
    rw [without_nil, List.infix_nil]
    simp [h]
  | cons c rest ih =>
    rw [without, List.infix_cons_iff, ← List.isPrefixOf_iff_prefix]
    split
    · next hlead =>
      have hshort : (without word (word.length - 1) rest).length ≤ rest.length :=
        length_without_le word _ rest
      constructor
      · intro heq
        rw [heq, List.length_cons] at hshort
        omega
      · intro hnot
        exact absurd (.inl hlead) hnot
    · next hlead =>
      rw [List.cons.injEq, ih]
      simp [hlead]

end GithubAgent.Base
