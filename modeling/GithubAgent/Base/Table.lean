import GithubAgent.Base.Lists
import Mathlib.Tactic

/-!
# Tables ordered by key

The rows of a database table, in the order of their record ids, with the statements that
write them: an upsert of one row and the deletion of the rows that meet a condition. Two
tables that give every key the same row are equal.
-/

namespace GithubAgent.Base

universe u v

/-- Rows with strictly increasing keys. -/
structure Table (K : Type u) (V : Type v) [LinearOrder K] where
  rows : List (K × V)
  sorted : rows.Pairwise fun a b ↦ a.1 < b.1

namespace Table

variable {K : Type u} {V : Type v} [LinearOrder K]

/-- The table without rows. -/
def empty : Table K V := ⟨[], List.Pairwise.nil⟩

/-- The row of a key. -/
def get (t : Table K V) (key : K) : Option V := t.rows.lookup key

/-- Put a row at its place, over the row with the same key. -/
def insertRow (key : K) (value : V) : List (K × V) → List (K × V)
  | [] => [(key, value)]
  | row :: rest =>
    if key < row.1 then (key, value) :: row :: rest
    else if key = row.1 then (key, value) :: rest
    else row :: insertRow key value rest

theorem mem_insertRow {key : K} {value : V} {rows : List (K × V)} {row : K × V}
    (h : row ∈ insertRow key value rows) : row = (key, value) ∨ row ∈ rows := by
  induction rows with
  | nil => exact .inl (List.mem_singleton.mp h)
  | cons head rest ih =>
    unfold insertRow at h
    split at h
    · exact List.mem_cons.mp h
    · split at h
      · rcases List.mem_cons.mp h with h | h
        · exact .inl h
        · exact .inr (List.mem_cons_of_mem _ h)
      · rcases List.mem_cons.mp h with rfl | h
        · exact .inr List.mem_cons_self
        · exact (ih h).imp id (List.mem_cons_of_mem _)

theorem sorted_insertRow (key : K) (value : V) {rows : List (K × V)}
    (h : rows.Pairwise fun a b ↦ a.1 < b.1) :
    (insertRow key value rows).Pairwise fun a b ↦ a.1 < b.1 := by
  induction rows with
  | nil => exact List.pairwise_singleton _ _
  | cons head rest ih =>
    rw [List.pairwise_cons] at h
    unfold insertRow
    split
    · next hlt =>
      rw [List.pairwise_cons, List.pairwise_cons]
      refine ⟨?_, h⟩
      intro row hrow
      rcases List.mem_cons.mp hrow with rfl | hrow
      · exact hlt
      · exact lt_trans hlt (h.1 row hrow)
    · split
      · next heq =>
        rw [List.pairwise_cons]
        exact ⟨fun row hrow ↦ heq ▸ h.1 row hrow, h.2⟩
      · next hnlt hne =>
        rw [List.pairwise_cons]
        refine ⟨?_, ih h.2⟩
        intro row hrow
        rcases mem_insertRow hrow with rfl | hrow
        · exact lt_of_le_of_ne (not_lt.mp hnlt) fun heq ↦ hne heq.symm
        · exact h.1 row hrow

theorem lookup_insertRow (key : K) (value : V) (rows : List (K × V)) (other : K) :
    (insertRow key value rows).lookup other =
      if other = key then some value else rows.lookup other := by
  induction rows with
  | nil =>
    by_cases ho : other = key
    · simp [insertRow, ho]
    · have hbeq : (other == key) = false := by simpa using ho
      simp [insertRow, ho, List.lookup_cons, hbeq]
  | cons head rest ih =>
    unfold insertRow
    by_cases ho : other = key
    · subst ho
      split
      · simp
      · split
        · simp
        · next hne =>
          have hbeq : (other == head.1) = false := by simpa using hne
          rw [List.lookup_cons, hbeq, if_pos rfl]
          simpa using ih
    · have hbeq : (other == key) = false := by simpa using ho
      rw [if_neg ho] at ih ⊢
      split
      · rw [List.lookup_cons, hbeq]
      · split
        · next heq => rw [List.lookup_cons, List.lookup_cons, ← heq, hbeq]
        · rw [List.lookup_cons, List.lookup_cons, ih]

/-- Insert a row, or update the row with the same key. -/
def upsert (t : Table K V) (key : K) (value : V) : Table K V :=
  ⟨insertRow key value t.rows, sorted_insertRow key value t.sorted⟩

/-- Keep the rows that meet a condition. -/
def filter (t : Table K V) (keep : V → Bool) : Table K V :=
  ⟨t.rows.filter fun row ↦ keep row.2, t.sorted.filter _⟩

/-- Upserts in sequence. -/
def upsertAll (t : Table K V) (rows : List (K × V)) : Table K V :=
  rows.foldl (fun t row ↦ t.upsert row.1 row.2) t

/-- Change every row. -/
def mapValues {W : Type v} (f : V → W) (t : Table K V) : Table K W :=
  ⟨t.rows.map fun row ↦ (row.1, f row.2), List.pairwise_map.mpr t.sorted⟩

@[simp] theorem get_empty (key : K) : (empty : Table K V).get key = none := rfl

theorem get_upsert (t : Table K V) (key : K) (value : V) (other : K) :
    (t.upsert key value).get other = if other = key then some value else t.get other :=
  lookup_insertRow key value t.rows other

theorem mem_rows_iff {t : Table K V} {key : K} {value : V} :
    (key, value) ∈ t.rows ↔ t.get key = some value := by
  obtain ⟨rows, hsorted⟩ := t
  simp only [get]
  induction rows with
  | nil => simp
  | cons head rest ih =>
    rw [List.pairwise_cons] at hsorted
    rw [List.mem_cons, List.lookup_cons]
    by_cases hkey : key = head.1
    · subst hkey
      constructor
      · rintro (heq | hmem)
        · rw [beq_self_eq_true, ← heq]
        · exact absurd (hsorted.1 _ hmem) (lt_irrefl _)
      · intro h
        simp only [beq_self_eq_true] at h
        exact .inl (Prod.ext rfl (Option.some.inj h).symm)
    · have hbeq : (key == head.1) = false := by simpa using hkey
      rw [hbeq, ← ih hsorted.2]
      constructor
      · rintro (rfl | hmem)
        · exact absurd rfl hkey
        · exact hmem
      · exact .inr

theorem get_filter (t : Table K V) (keep : V → Bool) (key : K) :
    (t.filter keep).get key = (t.get key).filter keep := by
  ext value
  rw [← mem_rows_iff, Option.filter_eq_some_iff, ← mem_rows_iff]
  exact List.mem_filter

theorem get_upsertAll (t : Table K V) (rows : List (K × V)) (key : K) :
    (t.upsertAll rows).get key = (dictGet rows key).or (t.get key) := by
  induction rows generalizing t with
  | nil => rfl
  | cons row rest ih =>
    rw [upsertAll, List.foldl_cons, ← upsertAll, ih, get_upsert, dictGet_cons, Option.or_assoc]
    by_cases hkey : key = row.1 <;> simp [hkey]

theorem get_mapValues {W : Type v} (f : V → W) (t : Table K V) (key : K) :
    (t.mapValues f).get key = (t.get key).map f := by
  show (t.rows.map fun row ↦ (row.1, f row.2)).lookup key = (t.rows.lookup key).map f
  induction t.rows with
  | nil => rfl
  | cons row rest ih =>
    rw [List.map_cons, List.lookup_cons, List.lookup_cons, ih]
    cases key == row.1 <;> rfl

/-- A table with the rows of a dictionary that gives every key once. -/
theorem rows_perm {t : Table K V} {rows : List (K × V)} (hnodup : (rows.map Prod.fst).Nodup)
    (h : ∀ key, t.get key = dictGet rows key) : t.rows.Perm rows := by
  have hsorted : t.rows.Nodup := t.sorted.imp fun hlt heq ↦ absurd (heq ▸ hlt) (lt_irrefl _)
  rw [List.perm_ext_iff_of_nodup hsorted (List.Nodup.of_map _ hnodup)]
  intro row
  rw [mem_rows_iff, mem_iff_dictGet hnodup, h]

/-- Tables with the same row for every key are equal. -/
theorem ext_get {t t' : Table K V} (h : ∀ key, t.get key = t'.get key) : t = t' := by
  have hmem (row : K × V) : row ∈ t.rows ↔ row ∈ t'.rows := by
    obtain ⟨key, value⟩ := row
    rw [mem_rows_iff, mem_rows_iff, h]
  have hnodup (t : Table K V) : t.rows.Nodup :=
    t.sorted.imp fun hlt heq ↦ absurd (heq ▸ hlt) (lt_irrefl _)
  have hperm := (List.perm_ext_iff_of_nodup (hnodup t) (hnodup t')).mpr hmem
  have hrows : t.rows = t'.rows := by
    refine hperm.eq_of_pairwise ?_ t.sorted t'.sorted
    intro a b _ _ hab hba
    exact absurd (lt_trans hab hba) (lt_irrefl _)
  obtain ⟨rows, _⟩ := t
  cases hrows
  rfl

/-- Only the rows of the table matter. -/
theorem filter_congr {t : Table K V} {keep keep' : V → Bool}
    (h : ∀ key value, t.get key = some value → keep value = keep' value) :
    t.filter keep = t.filter keep' := by
  apply ext_get
  intro key
  rw [get_filter, get_filter]
  cases hrow : t.get key with
  | none => rfl
  | some value => simp [Option.filter, h key value hrow]

theorem filter_eq_self {t : Table K V} {keep : V → Bool}
    (h : ∀ key value, t.get key = some value → keep value = true) : t.filter keep = t := by
  apply ext_get
  intro key
  rw [get_filter]
  cases hrow : t.get key with
  | none => rfl
  | some value => simp [Option.filter, h key value hrow]

theorem filter_eq_empty {t : Table K V} {keep : V → Bool}
    (h : ∀ key value, t.get key = some value → keep value = false) : t.filter keep = empty := by
  apply ext_get
  intro key
  rw [get_filter, get_empty]
  cases hrow : t.get key with
  | none => rfl
  | some value => simp [Option.filter, h key value hrow]

theorem filter_filter (t : Table K V) (keep keep' : V → Bool) :
    (t.filter keep).filter keep' = t.filter fun value ↦ keep value && keep' value := by
  apply ext_get
  intro key
  simp only [get_filter]
  cases t.get key with
  | none => rfl
  | some value => cases hk : keep value <;> simp [Option.filter, hk]

/-- Deleting the rows with one of several labels, one label after the other. -/
theorem foldl_filter {A : Type v} [DecidableEq A] (label : V → A) (gone : List A)
    (t : Table K V) :
    gone.foldl (fun t a ↦ t.filter (label · ≠ a)) t = t.filter (label · ∉ gone) := by
  induction gone generalizing t with
  | nil => exact (filter_eq_self fun _ value _ ↦ by simp).symm
  | cons a rest ih =>
    rw [List.foldl_cons, ih, filter_filter]
    congr 1
    funext value
    simp only [List.mem_cons, not_or, Bool.decide_and, ne_eq]

end Table

end GithubAgent.Base
