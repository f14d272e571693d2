import Mathlib.Algebra.BigOperators.Group.List.Basic
import Mathlib.Algebra.GroupWithZero.Nat
import Mathlib.Data.List.DropRight

/-!
# The words of a text

A text is cut into words at its separators; separators in a row and at the ends make no empty
words. Texts that are joined by separators keep their words.
-/

namespace GithubAgent.Base

universe u

variable {A : Type u} (space : A → Bool)

/-- `text.split()`: the runs between the separators that are not empty. -/
def words (text : List A) : List (List A) := (text.splitOnP space).filter (!·.isEmpty)

/-- `len(text.split())`. -/
def wordCount (text : List A) : Nat := (words space text).length

variable {space}

@[simp]
theorem words_nil : words space [] = [] := rfl

@[simp]
theorem wordCount_nil : wordCount space [] = 0 := rfl

/-- A separator ends a word. -/
theorem words_append_cons (l m : List A) {s : A} (h : space s = true) :
    words space (l ++ s :: m) = words space l ++ words space m := by
  rw [words, List.splitOnP_append_cons l m h, List.filter_append]
  rfl

theorem words_cons_of_pos {s : A} (l : List A) (h : space s = true) :
    words space (s :: l) = words space l :=
  words_append_cons [] l h

/-- Separators at the start make no word. -/
theorem words_append_of_forall {gap : List A} (h : ∀ s ∈ gap, space s = true) (text : List A) :
    words space (gap ++ text) = words space text := by
  induction gap with
  | nil => rfl
  | cons s gap ih =>
    rw [List.forall_mem_cons] at h
    rw [List.cons_append, words_cons_of_pos _ h.1, ih h.2]

/-- Separators at the end make no word. -/
theorem words_append_right_of_forall {gap : List A} (h : ∀ s ∈ gap, space s = true)
    (text : List A) : words space (text ++ gap) = words space text := by
  cases gap with
  | nil => rw [List.append_nil]
  | cons s gap =>
    rw [List.forall_mem_cons] at h
    have hgap : words space gap = [] := by simpa using words_append_of_forall h.2 []
    rw [words_append_cons text gap h.1, hgap, List.append_nil]

theorem words_dropWhile (text : List A) :
    words space (text.dropWhile space) = words space text := by
  have hgap : ∀ s ∈ text.takeWhile space, space s = true := fun s hs ↦ List.mem_takeWhile_imp hs
  rw [← words_append_of_forall hgap, List.takeWhile_append_dropWhile]

theorem words_rdropWhile (text : List A) :
    words space (text.rdropWhile space) = words space text := by
  have hgap : ∀ s ∈ text.rtakeWhile space, space s = true := fun s hs ↦ List.mem_rtakeWhile_imp hs
  rw [← words_append_right_of_forall hgap, List.rdropWhile_append_rtakeWhile]

/-- A gap between two texts keeps the words of both. -/
theorem words_append_gap {gap : List A} (hne : gap ≠ []) (h : ∀ s ∈ gap, space s = true)
    (l m : List A) : words space (l ++ gap ++ m) = words space l ++ words space m := by
  obtain ⟨s, rest, rfl⟩ := List.exists_cons_of_ne_nil hne
  rw [List.forall_mem_cons] at h
  rw [List.append_assoc, List.cons_append, words_append_cons l _ h.1,
    words_append_of_forall h.2 m]

/-- A text has no words exactly when it is made of separators. -/
theorem words_eq_nil_iff {text : List A} : words space text = [] ↔ ∀ s ∈ text, space s = true := by
  induction text with
  | nil => simp
  | cons a text ih =>
    rw [List.forall_mem_cons, ← ih]
    cases ha : space a with
    | true => rw [words_cons_of_pos text ha]; simp
    | false =>
      rw [words, List.splitOnP_cons_eq_if_modifyHead, if_neg (by simp [ha])]
      obtain ⟨part, parts, hparts⟩ := List.exists_cons_of_ne_nil (List.splitOnP_ne_nil space text)
      rw [hparts]
      simp

/-! ### Joining -/

theorem intercalate_append (gap : List A) {texts more : List (List A)} (h : texts ≠ [])
    (hmore : more ≠ []) : gap.intercalate (texts ++ more) =
      gap.intercalate texts ++ gap ++ gap.intercalate more := by
  induction texts with
  | nil => exact absurd rfl h
  | cons text texts ih =>
    cases texts with
    | nil =>
      rw [List.singleton_append, List.intercalate_cons_of_ne_nil hmore, List.intercalate_singleton]
    | cons next texts =>
      rw [List.cons_append, List.intercalate_cons_of_ne_nil (by simp), ih (by simp),
        List.intercalate_cons_cons]
      simp only [List.append_assoc]

/-- A text stands in what it is joined into. -/
theorem infix_intercalate (gap : List A) {text : List A} {texts : List (List A)}
    (h : text ∈ texts) : text <:+: gap.intercalate texts := by
  induction texts with
  | nil => cases h
  | cons first texts ih =>
    cases texts with
    | nil =>
      have hsingle : gap.intercalate [first] = text :=
        (List.intercalate_singleton ..).trans (List.mem_singleton.mp h).symm
      exact hsingle ▸ List.infix_rfl
    | cons next texts =>
      rw [List.intercalate_cons_cons, List.append_assoc]
      rcases List.mem_cons.mp h with rfl | h
      · exact (List.prefix_append text _).isInfix
      · exact (ih h).trans ((List.suffix_append gap _).trans (List.suffix_append first _)).isInfix

/-- Texts that gaps join keep their words. -/
theorem words_intercalate {gap : List A} (hne : gap ≠ []) (h : ∀ s ∈ gap, space s = true)
    (texts : List (List A)) :
    words space (gap.intercalate texts) = texts.flatMap (words space) := by
  induction texts with
  | nil => rfl
  | cons text texts ih =>
    cases texts with
    | nil => simp
    | cons next texts =>
      rw [List.intercalate_cons_cons, words_append_gap hne h, ih, ← List.flatMap_cons]

theorem wordCount_intercalate {gap : List A} (hne : gap ≠ []) (h : ∀ s ∈ gap, space s = true)
    (texts : List (List A)) :
    wordCount space (gap.intercalate texts) = (texts.map (wordCount space)).sum := by
  rw [wordCount, words_intercalate hne h, List.length_flatMap]
  rfl

end GithubAgent.Base
