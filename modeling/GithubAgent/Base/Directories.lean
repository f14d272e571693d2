import Mathlib.Data.List.Infix

/-!
# Directory trees

The directories below a root, each as the list of its segments. Files are left out, and so is
the order in which a directory is read.
-/

namespace GithubAgent.Base

variable {α : Type} [DecidableEq α]

/-- The directories that exist. -/
abbrev Directories (α : Type) := List (List α)

namespace Directories

/-- `mkdir(parents=True, exist_ok=True)`. -/
def mkdirs (t : Directories α) (d : List α) : Directories α := d.inits ++ t

/-- `rmtree`. -/
def rmtree (t : Directories α) (d : List α) : Directories α := t.filter fun x ↦ !d.isPrefixOf x

/-- The directories that `iterdir` finds. -/
def children (t : Directories α) (d : List α) : List α :=
  t.filterMap fun x ↦ if x.dropLast = d then x.getLast? else none

/-- `rmdir`, which fails on a directory that is not empty. -/
def rmdir (t : Directories α) (d : List α) : Directories α :=
  if children t d = [] then t.filter (· ≠ d) else t

/-- With a directory, its parents exist. -/
def Closed (t : Directories α) : Prop := ∀ x ∈ t, ∀ d, d <+: x → d ∈ t

omit [DecidableEq α] in
theorem mem_mkdirs {t : Directories α} {d x : List α} : x ∈ t.mkdirs d ↔ x <+: d ∨ x ∈ t := by
  rw [mkdirs, List.mem_append, List.mem_inits]

theorem mem_rmtree {t : Directories α} {d x : List α} : x ∈ t.rmtree d ↔ x ∈ t ∧ ¬ d <+: x := by
  rw [rmtree, List.mem_filter, ← List.isPrefixOf_iff_prefix, Bool.not_eq_true']
  rw [Bool.not_eq_true]

theorem mem_of_mem_rmdir {t : Directories α} {d x : List α} (h : x ∈ t.rmdir d) : x ∈ t := by
  unfold rmdir at h
  split at h
  · exact List.mem_of_mem_filter h
  · exact h

theorem mem_children {t : Directories α} {d : List α} {a : α} :
    a ∈ children t d ↔ d ++ [a] ∈ t := by
  unfold children
  rw [List.mem_filterMap]
  constructor
  · rintro ⟨x, hx, hlast⟩
    split at hlast
    · next hparent =>
      obtain ⟨parent, rfl⟩ := List.getLast?_eq_some_iff.mp hlast
      rw [List.dropLast_concat] at hparent
      rw [← hparent]
      exact hx
    · cases hlast
  · intro h
    refine ⟨d ++ [a], h, ?_⟩
    rw [List.dropLast_concat, if_pos rfl, List.getLast?_concat]

omit [DecidableEq α] in
theorem Closed.mkdirs {t : Directories α} (h : t.Closed) (d : List α) : (t.mkdirs d).Closed := by
  intro x hx p hp
  rcases mem_mkdirs.mp hx with hlead | hold
  · exact mem_mkdirs.mpr (.inl (hp.trans hlead))
  · exact mem_mkdirs.mpr (.inr (h x hold p hp))

theorem Closed.rmtree {t : Directories α} (h : t.Closed) (d : List α) : (t.rmtree d).Closed := by
  intro x hx p hp
  obtain ⟨hold, hout⟩ := mem_rmtree.mp hx
  refine mem_rmtree.mpr ⟨h x hold p hp, ?_⟩
  intro hd
  exact hout (hd.trans hp)

theorem Closed.rmdir {t : Directories α} (h : t.Closed) (d : List α) : (t.rmdir d).Closed := by
  intro x hx p hp
  have hold := h x (mem_of_mem_rmdir hx) p hp
  unfold Directories.rmdir at hx ⊢
  split
  · next hempty =>
    rw [if_pos hempty] at hx
    obtain ⟨hxt, hxd⟩ := List.mem_filter.mp hx
    refine List.mem_filter.mpr ⟨hold, ?_⟩
    rw [decide_eq_true_eq] at hxd ⊢
    -- a path through the deleted directory would give it a child
    rintro rfl
    obtain ⟨rest, rfl⟩ := hp
    cases rest with
    | nil => exact hxd (List.append_nil p)
    | cons a rest =>
      have hchild : a ∈ children t p := by
        refine mem_children.mpr (h _ hxt _ ?_)
        exact ⟨rest, by simp⟩
      rw [hempty] at hchild
      cases hchild
  · exact hold

end Directories

end GithubAgent.Base
