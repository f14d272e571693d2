import GithubAgent.Base.Greedy
import GithubAgent.Executor.PromptPasses

/-!
# The lines that a truncated text keeps

`_truncate_text` of `src/shared/sdk_factory.py` stops at the first line that has no room, from the
one or the other end. Since more lines are never smaller, it keeps the longest run that has room.
-/

namespace GithubAgent.Executor

open GithubAgent.Base GithubAgent.Webhook

/-- The lines have room. -/
def Fits (maxTokens : Nat) (lines : List Text) : Prop :=
  estimateTokens (joinLines lines) ≤ maxTokens

instance (maxTokens : Nat) : DecidablePred (Fits maxTokens) := fun _ ↦
  inferInstanceAs (Decidable (_ ≤ _))

/-- Lines of the text from the end that is kept: its first ones, or its last ones. -/
def IsRun (fromTop : Bool) (text : Text) (lines : List Text) : Prop :=
  if fromTop then lines <:+ text.splitOn '\n' else lines <+: text.splitOn '\n'

/-- The longest of the runs that have room. -/
structure IsLongestRun (fromTop : Bool) (text : Text) (maxTokens : Nat) (kept : List Text) :
    Prop where
  isRun : IsRun fromTop text kept
  holds : Fits maxTokens kept
  longest : ∀ other, IsRun fromTop text other → Fits maxTokens other → other.length ≤ kept.length

/-- The lines that are kept, with the line that says what was cut. -/
def markCut (fromTop : Bool) (kept : List Text) : Text :=
  if fromTop then olderTruncated ++ '\n' :: joinLines kept
  else joinLines kept ++ '\n' :: truncatedMarker

/-- A text that has room is returned as it is, of any other one the longest run of lines that has
room; there is none exactly when the line at the end that is kept has no room. -/
structure KeepsLongestRun (text : Text) (maxTokens : Nat) (fromTop : Bool) : Prop where
  whole : estimateTokens text ≤ maxTokens → truncateText text maxTokens fromTop = some text
  cut : maxTokens < estimateTokens text → ∀ result, truncateText text maxTokens fromTop =
    some result → ∃ kept, IsLongestRun fromTop text maxTokens kept ∧ result = markCut fromTop kept
  lost : truncateText text maxTokens fromTop = none ↔
    maxTokens < estimateTokens (edgeLine fromTop text)

/-- Fewer lines are no larger. -/
theorem Fits.of_append {maxTokens : Nat} {l m : List Text} (h : Fits maxTokens (l ++ m)) :
    Fits maxTokens l ∧ Fits maxTokens m := by
  have hwords : wordCount isSpace (joinLines (l ++ m)) =
      wordCount isSpace (joinLines l) + wordCount isSpace (joinLines m) := by
    simp [wordCount_joinLines]
  unfold Fits estimateTokens at h ⊢
  rw [hwords] at h
  exact ⟨(tokens_mono (Nat.le_add_right _ _)).trans h, (tokens_mono (Nat.le_add_left _ _)).trans h⟩

theorem keepFirst_eq (maxTokens : Nat) (kept lines : List Text) :
    keepFirst maxTokens kept lines = takeFitting (Fits maxTokens) kept lines := by
  induction lines generalizing kept with
  | nil => rfl
  | cons line rest ih =>
    rw [keepFirst, takeFitting]
    split
    · next hlarge => exact (if_neg (Nat.not_le.mpr hlarge)).symm
    · next hroom => exact (ih _).trans (if_pos (Nat.not_lt.mp hroom)).symm

theorem keepLast_eq (maxTokens : Nat) (kept lines : List Text) :
    (keepLast maxTokens kept lines).reverse =
      takeFitting (fun l ↦ Fits maxTokens l.reverse) kept.reverse lines := by
  induction lines generalizing kept with
  | nil => rfl
  | cons line rest ih =>
    rw [keepLast, takeFitting, ← List.reverse_cons, List.reverse_reverse]
    split
    · next hlarge => exact (if_neg (Nat.not_le.mpr hlarge)).symm
    · next hroom => exact (ih _).trans (if_pos (Nat.not_lt.mp hroom)).symm

/-- The lines kept from the beginning. -/
theorem isLongestRun_keepFirst {text : Text} {maxTokens : Nat} (h : Fits maxTokens []) :
    IsLongestRun false text maxTokens (keepFirst maxTokens [] (text.splitOn '\n')) := by
  have htaken := longestFitting_takeFitting
    (fun l m (hfits : Fits maxTokens (l ++ m)) ↦ hfits.of_append.1) h (text.splitOn '\n')
  rw [keepFirst_eq]
  exact ⟨htaken.isRun, htaken.holds, htaken.longest⟩

/-- The lines kept from the end. -/
theorem isLongestRun_keepLast {text : Text} {maxTokens : Nat} (h : Fits maxTokens []) :
    IsLongestRun true text maxTokens (keepLast maxTokens [] (text.splitOn '\n').reverse) := by
  have hclosed (l m : List Text) (hfits : Fits maxTokens (l ++ m).reverse) :
      Fits maxTokens l.reverse := by
    rw [List.reverse_append] at hfits
    exact hfits.of_append.2
  have htaken := @longestFitting_takeFitting _ (fun l ↦ Fits maxTokens l.reverse) _ hclosed [] h
    (text.splitOn '\n').reverse
  have hkept := keepLast_eq maxTokens [] (text.splitOn '\n').reverse
  rw [List.reverse_nil] at hkept
  rw [List.nil_append, ← hkept] at htaken
  refine ⟨?_, ?_, fun other hrun hfits ↦ ?_⟩
  · exact List.reverse_prefix.mp htaken.isRun
  · have hholds := htaken.holds
    rwa [List.reverse_reverse] at hholds
  · have hroom : Fits maxTokens other.reverse.reverse := by rwa [List.reverse_reverse]
    have hlength := htaken.longest other.reverse (List.reverse_prefix.mpr hrun) hroom
    rwa [List.length_reverse, List.length_reverse] at hlength

theorem fits_singleton_iff {line : Text} {maxTokens : Nat} :
    Fits maxTokens [line] ↔ estimateTokens line ≤ maxTokens := by
  rw [Fits, joinLines, List.intercalate_singleton]

/-- The text that is returned when a run of lines is kept. -/
theorem truncateText_eq {text : Text} {maxTokens : Nat} {fromTop : Bool}
    (hlarge : maxTokens < estimateTokens text)
    (h : estimateTokens (edgeLine fromTop text) ≤ maxTokens) :
    ∃ kept, IsLongestRun fromTop text maxTokens kept ∧
      truncateText text maxTokens fromTop = some (markCut fromTop kept) := by
  have hempty : Fits maxTokens [] := Fits.of_append (l := []) (fits_singleton_iff.mpr h) |>.1
  obtain ⟨rest, hlines⟩ := exists_orderedLines fromTop text
  rw [truncateText, if_neg (Nat.not_le.mpr hlarge)]
  cases fromTop with
  | false =>
    have hlines : text.splitOn '\n' = edgeLine false text :: rest := hlines
    have hkept : keepFirst maxTokens [] (text.splitOn '\n') ≠ [] := by
      rw [hlines, Ne, keepFirst_eq_nil_iff]
      exact Nat.not_lt.mpr h
    refine ⟨_, isLongestRun_keepFirst hempty, ?_⟩
    rw [if_neg Bool.false_ne_true]
    split
    · next hnil => exact absurd hnil hkept
    · rfl
  | true =>
    have hlines : (text.splitOn '\n').reverse = edgeLine true text :: rest := hlines
    have hkept : keepLast maxTokens [] (text.splitOn '\n').reverse ≠ [] := by
      rw [hlines, Ne, keepLast_eq_nil_iff]
      exact Nat.not_lt.mpr h
    refine ⟨_, isLongestRun_keepLast hempty, ?_⟩
    rw [if_pos rfl]
    split
    · next hnil => exact absurd hnil hkept
    · rfl

/-- Truncation keeps the longest run of lines, in both directions. -/
theorem keepsLongestRun (text : Text) (maxTokens : Nat) (fromTop : Bool) :
    KeepsLongestRun text maxTokens fromTop := by
  refine ⟨fun hroom ↦ if_pos hroom, fun hlarge result hresult ↦ ?_, ?_, truncateText_eq_none⟩
  · by_cases hedge : estimateTokens (edgeLine fromTop text) ≤ maxTokens
    · obtain ⟨kept, hkept, hcut⟩ := truncateText_eq hlarge hedge
      exact ⟨kept, hkept, Option.some.inj (hresult.symm.trans hcut)⟩
    · rw [truncateText_eq_none (Nat.not_le.mp hedge)] at hresult
      cases hresult
  · intro hnone
    by_contra hedge
    have hedge := Nat.not_lt.mp hedge
    by_cases hlarge : maxTokens < estimateTokens text
    · obtain ⟨kept, -, hcut⟩ := truncateText_eq hlarge hedge
      rw [hcut] at hnone
      cases hnone
    · rw [truncateText, if_pos (Nat.not_lt.mp hlarge)] at hnone
      cases hnone

end GithubAgent.Executor
