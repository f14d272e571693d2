import Mathlib.Data.List.Basic

/-!
# The longest prefix that fits

A loop takes items as long as what it has taken fits. When every prefix of what fits also fits, it
takes the longest prefix that does.
-/

namespace GithubAgent.Base

universe u

variable {A : Type u} (fits : List A → Prop) [DecidablePred fits]

/-- The loop, with what it has taken. -/
def takeFitting (taken : List A) : List A → List A
  | [] => taken
  | a :: rest => if fits (taken ++ [a]) then takeFitting (taken ++ [a]) rest else taken

/-- The longest of the prefixes that fit. -/
structure LongestFitting (l taken : List A) : Prop where
  isRun : taken <+: l
  holds : fits taken
  longest : ∀ other, other <+: l → fits other → other.length ≤ taken.length

variable {fits}

/-- What is taken is a prefix, whatever is taken behind the items that are left does not fit. -/
theorem longestFitting_takeFitting (hclosed : ∀ l m, fits (l ++ m) → fits l) {taken : List A}
    (h : fits taken) (rest : List A) :
    LongestFitting fits (taken ++ rest) (takeFitting fits taken rest) := by
  induction rest generalizing taken with
  | nil =>
    rw [takeFitting, List.append_nil]
    exact ⟨List.prefix_rfl, h, fun other hother _ ↦ hother.length_le⟩
  | cons a rest ih =>
    rw [takeFitting]
    split
    · next hfits => exact List.append_cons taken a rest ▸ ih hfits
    · next hlarge =>
      refine ⟨List.prefix_append taken _, h, fun other hother hfits ↦ ?_⟩
      by_contra hlong
      -- a longer prefix has the first item that did not fit
      have hnext : taken ++ [a] <+: other := by
        refine List.prefix_of_prefix_length_le (List.append_cons taken a rest ▸
          List.prefix_append _ _) hother ?_
        rw [List.length_append, List.length_singleton]
        omega
      obtain ⟨more, rfl⟩ := hnext
      exact hlarge (hclosed _ _ hfits)

end GithubAgent.Base
