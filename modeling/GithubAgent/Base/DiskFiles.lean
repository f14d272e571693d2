import GithubAgent.Base.Disk
import Mathlib.Data.List.Sort

/-!
# The files of a directory

The names in each directory of a tree are distinct, and the calls keep them so. Then the files of a
tree are listed once each, in the order of their paths.
-/

namespace GithubAgent.Base

universe u v

namespace Disk

variable {N : Type u} {C : Type v} [DecidableEq N]

/-! ### Names -/

/-- The names in each directory are distinct, and all meet a condition. -/
def Named (P : N → Prop) (t : Option (Disk N C)) : Prop :=
  ∀ path children, get? t path = some (.dir children) →
    (children.map Prod.fst).Nodup ∧ ∀ name ∈ children.map Prod.fst, P name

section Named

variable {P : N → Prop}

theorem named_none : Named P (none : Option (Disk N C)) := by
  intro path children h
  rw [get?_none] at h
  cases h

theorem named_file (content : C) : Named P (some (.file content) : Option (Disk N C)) := by
  intro path children h
  cases path with
  | nil => cases h
  | cons name rest => cases h

theorem named_dir_iff {children : List (N × Disk N C)} :
    Named P (some (.dir children)) ↔
      ((children.map Prod.fst).Nodup ∧ ∀ name ∈ children.map Prod.fst, P name) ∧
        ∀ name, Named P (children.lookup name) := by
  constructor
  · intro h
    exact ⟨h [] children rfl, fun name path below hget ↦ h (name :: path) below hget⟩
  · rintro ⟨hhere, hbelow⟩ path below hget
    cases path with
    | nil =>
      cases hget
      exact hhere
    | cons name rest => exact hbelow name rest below hget

theorem Named.get? {t : Option (Disk N C)} (h : Named P t) (path : List N) :
    Named P (get? t path) := by
  intro more children hget
  rw [← get?_append] at hget
  exact h _ children hget

/-- The names on the way to a file meet the condition. -/
theorem Named.of_fileAt {t : Option (Disk N C)} (h : Named P t) {path : List N}
    (hfile : (fileAt t path).isSome = true) {name : N} (hname : name ∈ path) : P name := by
  induction path generalizing t with
  | nil => cases hname
  | cons x rest ih =>
    match t with
    | none =>
      rw [fileAt_none] at hfile
      cases hfile
    | some (.file _) => cases hfile
    | some (.dir children) =>
      obtain ⟨⟨-, hnames⟩, hbelow⟩ := named_dir_iff.mp h
      rw [fileAt_dir_cons] at hfile
      rcases List.mem_cons.mp hname with rfl | hrest
      · cases hlookup : children.lookup name with
        | none =>
          rw [hlookup, fileAt_none] at hfile
          cases hfile
        | some u =>
          obtain ⟨before, after, rfl, -⟩ := List.lookup_eq_some_iff.mp hlookup
          exact hnames name (by simp)
      · exact ih (hbelow x) hfile hrest

/-- A child that meets the condition may be set. -/
theorem Named.setChild {children : List (N × Disk N C)} (h : Named P (some (.dir children)))
    {name : N} {t : Disk N C} (hname : P name) (ht : Named P (some t)) :
    Named P (some (.dir (setChild name t children))) := by
  obtain ⟨⟨hnodup, hnames⟩, hbelow⟩ := named_dir_iff.mp h
  refine named_dir_iff.mpr ⟨⟨nodup_setChild hnodup, fun x hx ↦ ?_⟩, fun x ↦ ?_⟩
  · rw [map_fst_setChild] at hx
    split at hx
    · exact hnames x hx
    · rcases List.mem_append.mp hx with hx | hx
      · exact hnames x hx
      · rw [List.mem_singleton.mp hx]
        exact hname
  · rw [lookup_setChild]
    split
    · exact ht
    · exact hbelow x

theorem named_empty : Named P (some (.dir []) : Option (Disk N C)) :=
  named_dir_iff.mpr ⟨⟨List.nodup_nil, nofun⟩, fun _ ↦ named_none⟩

theorem Named.mkdirs {t : Option (Disk N C)} (h : Named P t) {path : List N}
    (hpath : ∀ name ∈ path, P name) {t' : Disk N C} (hmade : mkdirs t path = .ok t') :
    Named P (some t') := by
  induction path generalizing t t' with
  | nil =>
    match t with
    | none =>
      cases hmade
      exact named_empty
    | some (.file _) => cases hmade
    | some (.dir children) =>
      cases hmade
      exact h
  | cons name rest ih =>
    obtain ⟨children, u, ht, hu, rfl⟩ := mkdirs_cons hmade
    have hchildren : Named P (some (.dir children)) := by
      rcases ht with ⟨rfl, rfl⟩ | rfl
      · exact named_empty
      · exact h
    obtain ⟨hname, hrest⟩ := List.forall_mem_cons.mp hpath
    exact hchildren.setChild hname (ih ((named_dir_iff.mp hchildren).2 name) hrest hu)

theorem Named.write {content : C} {t : Option (Disk N C)} (h : Named P t) {path : List N}
    (hpath : ∀ name ∈ path, P name) {t' : Disk N C} (hwritten : write content t path = .ok t') :
    Named P (some t') := by
  induction path generalizing t t' with
  | nil =>
    match t with
    | none | some (.file _) =>
      cases hwritten
      exact named_file content
    | some (.dir _) => cases hwritten
  | cons name rest ih =>
    match t with
    | none | some (.file _) => cases hwritten
    | some (.dir children) =>
      obtain ⟨u, hu, rfl⟩ := map_eq_ok hwritten
      obtain ⟨hname, hrest⟩ := List.forall_mem_cons.mp hpath
      exact h.setChild hname (ih ((named_dir_iff.mp h).2 name) hrest hu)

end Named

/-! ### All files -/

section Files

variable {L : Type u} [LE L] [DecidableLE L]

mutual

/-- The paths of all files, the entries of each directory in the order of their names. -/
def files : Disk L C → List (List L)
  | .file _ => [[]]
  | .dir children => ((filesIn children).insertionSort (·.1 ≤ ·.1)).flatMap fun child ↦
      child.2.map (child.1 :: ·)

/-- The children of a directory, each with the paths of its files. -/
def filesIn : List (L × Disk L C) → List (L × List (List L))
  | [] => []
  | (name, t) :: rest => (name, files t) :: filesIn rest

end

theorem filesIn_eq_map (children : List (L × Disk L C)) :
    filesIn children = children.map fun child ↦ (child.1, files child.2) := by
  induction children with
  | nil => rfl
  | cons child rest ih => rw [filesIn, ih, List.map_cons]

theorem lookup_eq_some_iff_mem {children : List (N × Disk N C)}
    (h : (children.map Prod.fst).Nodup) {name : N} {t : Disk N C} :
    children.lookup name = some t ↔ (name, t) ∈ children := by
  induction children with
  | nil => exact iff_of_false nofun List.not_mem_nil
  | cons child rest ih =>
    obtain ⟨k, u⟩ := child
    obtain ⟨hk, hrest⟩ := List.nodup_cons.mp h
    rw [List.lookup_cons, List.mem_cons]
    by_cases hname : name = k
    · subst hname
      rw [BEq.rfl]
      refine ⟨fun ht ↦ .inl (by rw [Option.some.inj ht]), ?_⟩
      rintro (heq | hmem)
      · rw [(Prod.mk.inj heq).2]
      · exact absurd (List.mem_map_of_mem hmem) hk
    · rw [beq_eq_false_iff_ne.mpr hname]
      refine (ih hrest).trans (or_iff_right fun heq ↦ hname (Prod.mk.inj heq).1).symm

/-- The sorted children of a directory are in strict order. -/
theorem pairwise_filesIn [LT L] [Std.IsLinearOrder L] [Std.LawfulOrderLT L]
    {children : List (L × Disk L C)} (h : (children.map Prod.fst).Nodup) :
    ((filesIn children).insertionSort (·.1 ≤ ·.1)).Pairwise (·.1 < ·.1) := by
  have htotal : Std.Total fun a b : L × List (List L) ↦ a.1 ≤ b.1 := ⟨fun _ _ ↦ Std.le_total⟩
  have htrans : IsTrans (L × List (List L)) (·.1 ≤ ·.1) := ⟨fun _ _ _ ↦ Std.le_trans⟩
  have hsorted := List.pairwise_insertionSort (·.1 ≤ ·.1) (filesIn children)
  have hnames : ((filesIn children).map Prod.fst).Nodup := by
    rw [filesIn_eq_map, List.map_map]
    exact h
  have hdistinct : ((filesIn children).insertionSort (·.1 ≤ ·.1)).Pairwise (·.1 ≠ ·.1) :=
    List.pairwise_map.mp (((List.perm_insertionSort
      (fun a b : L × List (List L) ↦ a.1 ≤ b.1) _).map Prod.fst).nodup_iff.mpr hnames)
  exact (hsorted.and hdistinct).imp fun hab ↦ Std.lt_of_le_of_ne hab.1 hab.2

variable [DecidableEq L] {P : L → Prop}

omit [DecidableEq L] in
theorem mem_files_dir {children : List (L × Disk L C)} {path : List L} :
    path ∈ files (.dir children) ↔
      ∃ child ∈ children, ∃ rest ∈ files child.2, path = child.1 :: rest := by
  rw [files, List.mem_flatMap]
  constructor
  · rintro ⟨found, hfound, hpath⟩
    rw [List.mem_insertionSort, filesIn_eq_map] at hfound
    obtain ⟨child, hchild, rfl⟩ := List.mem_map.mp hfound
    obtain ⟨rest, hrest, rfl⟩ := List.mem_map.mp hpath
    exact ⟨child, hchild, rest, hrest, rfl⟩
  · rintro ⟨child, hchild, rest, hrest, rfl⟩
    refine ⟨(child.1, files child.2), ?_, List.mem_map_of_mem hrest⟩
    rw [List.mem_insertionSort, filesIn_eq_map]
    exact List.mem_map_of_mem hchild

/-- The paths of all files are the paths at which there is a file. -/
theorem mem_files_iff {t : Disk L C} (h : Named P (some t)) {path : List L} :
    path ∈ files t ↔ (fileAt (some t) path).isSome = true := by
  induction path generalizing t with
  | nil =>
    cases t with
    | file content => exact iff_of_true List.mem_cons_self rfl
    | dir children =>
      refine iff_of_false (fun hmem ↦ ?_) nofun
      obtain ⟨_, _, _, _, heq⟩ := mem_files_dir.mp hmem
      cases heq
  | cons name rest ih =>
    cases t with
    | file content => exact iff_of_false (by simp [files]) nofun
    | dir children =>
      obtain ⟨⟨hnodup, -⟩, hbelow⟩ := named_dir_iff.mp h
      rw [mem_files_dir, fileAt_dir_cons]
      constructor
      · rintro ⟨⟨k, u⟩, hchild, more, hmore, heq⟩
        obtain ⟨rfl, rfl⟩ := List.cons.inj heq
        have hlookup := (lookup_eq_some_iff_mem hnodup).mpr hchild
        rw [hlookup]
        exact (ih (hlookup ▸ hbelow name)).mp hmore
      · intro hsome
        cases hlookup : children.lookup name with
        | none =>
          rw [hlookup, fileAt_none] at hsome
          cases hsome
        | some u =>
          rw [hlookup] at hsome
          exact ⟨(name, u), (lookup_eq_some_iff_mem hnodup).mp hlookup, rest,
            (ih (hlookup ▸ hbelow name)).mpr hsome, rfl⟩

/-- They are listed in the order of their paths. -/
theorem pairwise_files [LT L] [Std.IsLinearOrder L] [Std.LawfulOrderLT L] :
    ∀ {t : Disk L C}, Named P (some t) → (files t).Pairwise (· < ·)
  | .file _, _ => List.pairwise_singleton _ _
  | .dir children, h => by
    obtain ⟨⟨hnodup, -⟩, hbelow⟩ := named_dir_iff.mp h
    rw [files, List.pairwise_flatMap]
    refine ⟨fun found hfound ↦ ?_, (pairwise_filesIn hnodup).imp fun hlt x hx y hy ↦ ?_⟩
    · rw [List.mem_insertionSort, filesIn_eq_map] at hfound
      obtain ⟨⟨name, u⟩, hchild, rfl⟩ := List.mem_map.mp hfound
      have hlookup := (lookup_eq_some_iff_mem hnodup).mpr hchild
      have hu := pairwise_files (t := u) (hlookup ▸ hbelow name)
      exact List.pairwise_map.mpr (hu.imp fun hlt ↦ List.cons_lt_cons_self.mpr hlt)
    · obtain ⟨p, _, rfl⟩ := List.mem_map.mp hx
      obtain ⟨q, _, rfl⟩ := List.mem_map.mp hy
      exact List.cons_lt_cons_iff.mpr (.inl hlt)
  termination_by t => sizeOf t
  decreasing_by
    have hsize := List.sizeOf_lt_of_mem hchild
    simp only [Prod.mk.sizeOf_spec, dir.sizeOf_spec] at hsize ⊢
    omega

end Files

end Disk

end GithubAgent.Base
