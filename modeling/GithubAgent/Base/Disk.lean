import Mathlib.Data.List.Infix

/-!
# Directories with files

A tree of named entries, each a file with its content or a directory, and the calls that create
directories, write a file and read one. A path is the list of the names on it. The calls fail as the
operating system lets them fail, and leave the tree as it is then. There are no links.
-/

namespace GithubAgent.Base

universe u v w x

/-- A file or a directory. -/
inductive Disk (N : Type u) (C : Type v) where
  | file (content : C)
  | dir (children : List (N × Disk N C))

namespace Disk

/-- The errors of the calls. -/
inductive Error where
  | exists
  | notFound
  | notADirectory
  | isADirectory
  deriving DecidableEq

variable {N : Type u} {C : Type v} [DecidableEq N]

/-- The children with the one of this name replaced, or added. -/
def setChild (name : N) (t : Disk N C) : List (N × Disk N C) → List (N × Disk N C)
  | [] => [(name, t)]
  | (k, old) :: rest => if k = name then (k, t) :: rest else (k, old) :: setChild name t rest

/-- The entry at a path. -/
def get? : Option (Disk N C) → List N → Option (Disk N C)
  | t, [] => t
  | some (.dir children), name :: rest => get? (children.lookup name) rest
  | some (.file _), _ :: _ => none
  | none, _ :: _ => none

/-- The content of the file at a path. -/
def fileAt (t : Option (Disk N C)) (path : List N) : Option C :=
  match get? t path with
  | some (.file content) => some content
  | _ => none

/-- There is a directory at the path. -/
def isDir (t : Option (Disk N C)) (path : List N) : Bool :=
  match get? t path with
  | some (.dir _) => true
  | _ => false

/-- `mkdir(parents=True, exist_ok=True)`. -/
def mkdirs : Option (Disk N C) → List N → Except Error (Disk N C)
  | none, [] => .ok (.dir [])
  | some (.dir children), [] => .ok (.dir children)
  | some (.file _), [] => .error .exists
  | none, name :: rest => (mkdirs none rest).map fun t ↦ .dir [(name, t)]
  | some (.dir children), name :: rest =>
    (mkdirs (children.lookup name) rest).map fun t ↦ .dir (setChild name t children)
  | some (.file _), _ :: _ => .error .notADirectory

/-- Open a file for writing and write its content. -/
def write (content : C) : Option (Disk N C) → List N → Except Error (Disk N C)
  | none, [] => .ok (.file content)
  | some (.file _), [] => .ok (.file content)
  | some (.dir _), [] => .error .isADirectory
  | none, _ :: _ => .error .notFound
  | some (.dir children), name :: rest =>
    (write content (children.lookup name) rest).map fun t ↦ .dir (setChild name t children)
  | some (.file _), _ :: _ => .error .notADirectory

/-! ### Children -/

theorem lookup_setChild (name other : N) (t : Disk N C) (children : List (N × Disk N C)) :
    (setChild name t children).lookup other =
      if other = name then some t else children.lookup other := by
  induction children with
  | nil =>
    rw [setChild, List.lookup_cons]
    by_cases h : other = name
    · rw [h, BEq.rfl, if_pos rfl]
    · rw [beq_eq_false_iff_ne.mpr h, if_neg h]
  | cons child rest ih =>
    obtain ⟨k, old⟩ := child
    rw [setChild]
    by_cases hk : k = name
    · subst hk
      rw [if_pos rfl, List.lookup_cons, List.lookup_cons]
      by_cases h : other = k
      · rw [h, BEq.rfl, if_pos rfl]
      · rw [beq_eq_false_iff_ne.mpr h, if_neg h]
    · rw [if_neg hk, List.lookup_cons, List.lookup_cons, ih]
      by_cases h : other = k
      · subst h
        simp only [BEq.rfl, if_neg hk]
      · rw [beq_eq_false_iff_ne.mpr h]

theorem lookup_setChild_self (name : N) (t : Disk N C) (children : List (N × Disk N C)) :
    (setChild name t children).lookup name = some t := by
  rw [lookup_setChild, if_pos rfl]

theorem map_fst_setChild (name : N) (t : Disk N C) (children : List (N × Disk N C)) :
    (setChild name t children).map Prod.fst =
      if name ∈ children.map Prod.fst then children.map Prod.fst
      else children.map Prod.fst ++ [name] := by
  induction children with
  | nil => rfl
  | cons child rest ih =>
    obtain ⟨k, old⟩ := child
    rw [setChild]
    by_cases hk : k = name
    · subst hk
      rw [if_pos rfl, if_pos (by simp)]
      rfl
    · rw [if_neg hk, List.map_cons, List.map_cons, ih]
      by_cases hmem : name ∈ rest.map Prod.fst
      · rw [if_pos hmem, if_pos (List.mem_cons_of_mem _ hmem)]
      · rw [if_neg hmem, if_neg, List.cons_append]
        rw [List.mem_cons, not_or]
        exact ⟨fun h ↦ hk h.symm, hmem⟩

/-- Names stay distinct. -/
theorem nodup_setChild {name : N} {t : Disk N C} {children : List (N × Disk N C)}
    (h : (children.map Prod.fst).Nodup) : ((setChild name t children).map Prod.fst).Nodup := by
  rw [map_fst_setChild]
  split
  · exact h
  · next hmem =>
    refine List.nodup_append.mpr ⟨h, List.pairwise_singleton _ _, fun x hx y hy ↦ ?_⟩
    rw [List.mem_singleton] at hy
    rintro rfl
    exact hmem (hy ▸ hx)

/-! ### Reading -/

@[simp] theorem get?_nil (t : Option (Disk N C)) : get? t [] = t := by
  cases t with
  | none => rfl
  | some t => cases t <;> rfl

@[simp] theorem get?_dir_cons (children : List (N × Disk N C)) (name : N) (rest : List N) :
    get? (some (.dir children)) (name :: rest) = get? (children.lookup name) rest := rfl

@[simp] theorem get?_file_cons (content : C) (name : N) (rest : List N) :
    get? (some (.file content)) (name :: rest) = none := rfl

@[simp] theorem get?_none (path : List N) : get? (none : Option (Disk N C)) path = none := by
  cases path <;> rfl

theorem get?_append (t : Option (Disk N C)) (path more : List N) :
    get? t (path ++ more) = get? (get? t path) more := by
  induction path generalizing t with
  | nil => rw [List.nil_append, get?_nil]
  | cons name rest ih =>
    rw [List.cons_append]
    match t with
    | none => simp
    | some (.file content) => simp
    | some (.dir children) => exact ih _

theorem fileAt_append (t : Option (Disk N C)) (path more : List N) :
    fileAt t (path ++ more) = fileAt (get? t path) more := by
  rw [fileAt, fileAt, get?_append]

theorem isDir_append (t : Option (Disk N C)) (path more : List N) :
    isDir t (path ++ more) = isDir (get? t path) more := by
  rw [isDir, isDir, get?_append]

@[simp] theorem fileAt_none (path : List N) : fileAt (none : Option (Disk N C)) path = none := by
  rw [fileAt, get?_none]

@[simp] theorem isDir_none (path : List N) : isDir (none : Option (Disk N C)) path = false := by
  rw [isDir, get?_none]

@[simp] theorem fileAt_dir_cons (children : List (N × Disk N C)) (name : N) (rest : List N) :
    fileAt (some (.dir children)) (name :: rest) = fileAt (children.lookup name) rest := rfl

@[simp] theorem isDir_dir_cons (children : List (N × Disk N C)) (name : N) (rest : List N) :
    isDir (some (.dir children)) (name :: rest) = isDir (children.lookup name) rest := rfl

/-! ### Creating directories -/

theorem map_eq_ok {E : Type x} {A B : Type w} {f : A → B} {x : Except E A} {b : B} (h : x.map f = .ok b) :
    ∃ a, x = .ok a ∧ b = f a := by
  cases x with
  | error e => cases h
  | ok a => exact ⟨a, rfl, (Except.ok.inj h).symm⟩

theorem map_eq_error_iff {E : Type x} {A B : Type w} {f : A → B} {x : Except E A} {e : E} :
    x.map f = .error e ↔ x = .error e := by
  cases x with
  | error _ => exact ⟨fun h ↦ by cases h; rfl, fun h ↦ by cases h; rfl⟩
  | ok _ => exact ⟨nofun, nofun⟩

/-- What is missing has no files, as a new directory has none. -/
theorem fileAt_empty (path : List N) :
    fileAt (some (.dir []) : Option (Disk N C)) path = fileAt none path := by
  cases path with
  | nil => rfl
  | cons name rest => exact fileAt_none rest

/-- A directory on the way is created, or is there with its children. -/
theorem mkdirs_cons {t : Option (Disk N C)} {name : N} {rest : List N} {t' : Disk N C}
    (h : mkdirs t (name :: rest) = .ok t') :
    ∃ children u, (t = none ∧ children = [] ∨ t = some (.dir children)) ∧
      mkdirs (children.lookup name) rest = .ok u ∧ t' = .dir (setChild name u children) := by
  match t with
  | none =>
    obtain ⟨u, hu, rfl⟩ := map_eq_ok h
    exact ⟨[], u, .inl ⟨rfl, rfl⟩, hu, rfl⟩
  | some (.file _) => cases h
  | some (.dir children) =>
    obtain ⟨u, hu, rfl⟩ := map_eq_ok h
    exact ⟨children, u, .inr rfl, hu, rfl⟩

/-- No content changes. -/
theorem fileAt_mkdirs {t : Option (Disk N C)} {path : List N} {t' : Disk N C}
    (h : mkdirs t path = .ok t') (q : List N) : fileAt (some t') q = fileAt t q := by
  induction path generalizing t t' q with
  | nil =>
    match t with
    | none =>
      cases h
      exact fileAt_empty q
    | some (.file _) => cases h
    | some (.dir children) =>
      cases h
      rfl
  | cons name rest ih =>
    obtain ⟨children, u, ht, hu, rfl⟩ := mkdirs_cons h
    have hbefore : fileAt t q = fileAt (some (.dir children)) q := by
      rcases ht with ⟨rfl, rfl⟩ | rfl
      · exact (fileAt_empty q).symm
      · rfl
    rw [hbefore]
    cases q with
    | nil => rfl
    | cons x qs =>
      rw [fileAt_dir_cons, fileAt_dir_cons, lookup_setChild]
      split
      · next hx => rw [hx, ih hu qs]
      · rfl

/-- The directories on the path are there, besides those that were. -/
theorem isDir_mkdirs {t : Option (Disk N C)} {path : List N} {t' : Disk N C}
    (h : mkdirs t path = .ok t') (q : List N) :
    isDir (some t') q = true ↔ isDir t q = true ∨ q <+: path := by
  induction path generalizing t t' q with
  | nil =>
    rw [List.prefix_nil]
    match t with
    | none =>
      cases h
      cases q with
      | nil => simp [isDir]
      | cons name rest => simp
    | some (.file _) => cases h
    | some (.dir children) =>
      cases h
      constructor
      · exact .inl
      · rintro (hdir | rfl)
        · exact hdir
        · rfl
  | cons name rest ih =>
    obtain ⟨children, u, ht, hu, rfl⟩ := mkdirs_cons h
    cases q with
    | nil => exact iff_of_true rfl (.inr List.nil_prefix)
    | cons x qs =>
      have hbefore : isDir t (x :: qs) = isDir (children.lookup x) qs := by
        rcases ht with ⟨rfl, rfl⟩ | rfl
        · rw [isDir_none, List.lookup_nil, isDir_none]
        · rfl
      rw [hbefore, isDir_dir_cons, lookup_setChild, List.cons_prefix_cons]
      split
      · next hx =>
        subst hx
        rw [ih hu qs, and_iff_right rfl]
      · next hx => rw [or_iff_left fun hand ↦ hx hand.1]

/-- The call fails exactly where a file is on the path. -/
theorem mkdirs_isOk_iff (t : Option (Disk N C)) (path : List N) :
    (∃ t', mkdirs t path = .ok t') ↔ ∀ q, q <+: path → fileAt t q = none := by
  induction path generalizing t with
  | nil =>
    match t with
    | none => exact iff_of_true ⟨_, rfl⟩ fun q _ ↦ fileAt_none q
    | some (.file _) =>
      refine iff_of_false ?_ fun h ↦ Option.some_ne_none _ (h [] List.nil_prefix)
      rintro ⟨t', h⟩
      cases h
    | some (.dir children) =>
      refine iff_of_true ⟨_, rfl⟩ fun q hq ↦ ?_
      rw [List.prefix_nil.mp hq]
      rfl
  | cons name rest ih =>
    match t with
    | none =>
      obtain ⟨u, hu⟩ := (ih none).mpr fun q _ ↦ fileAt_none q
      exact iff_of_true ⟨.dir [(name, u)], by rw [mkdirs, hu]; rfl⟩ fun q _ ↦ fileAt_none q
    | some (.file _) =>
      refine iff_of_false ?_ fun h ↦ Option.some_ne_none _ (h [] List.nil_prefix)
      rintro ⟨t', h⟩
      cases h
    | some (.dir children) =>
      have hstep : (∃ t', mkdirs (some (.dir children)) (name :: rest) = .ok t') ↔
          ∃ u, mkdirs (children.lookup name) rest = .ok u := by
        constructor
        · rintro ⟨t', h⟩
          obtain ⟨u, hu, -⟩ := map_eq_ok h
          exact ⟨u, hu⟩
        · rintro ⟨u, hu⟩
          exact ⟨_, by rw [mkdirs, hu]; rfl⟩
      rw [hstep, ih]
      constructor
      · intro h q hq
        cases q with
        | nil => rfl
        | cons x qs =>
          obtain ⟨rfl, hqs⟩ := List.cons_prefix_cons.mp hq
          exact h qs hqs
      · intro h q hq
        exact h (name :: q) (List.cons_prefix_cons.mpr ⟨rfl, hq⟩)

/-! ### Writing -/

/-- The file has the content that was written, and no other file changes. -/
theorem fileAt_write {content : C} {t : Option (Disk N C)} {path : List N} {t' : Disk N C}
    (h : write content t path = .ok t') (q : List N) :
    fileAt (some t') q = if q = path then some content else fileAt t q := by
  induction path generalizing t t' q with
  | nil =>
    have hnone : q ≠ [] → fileAt t q = none := by
      intro hq
      match t, q with
      | none, _ => exact fileAt_none _
      | some (.file _), [] => exact absurd rfl hq
      | some (.file _), _ :: _ => rfl
      | some (.dir _), _ => cases h
    have ht' : t' = .file content := by
      match t with
      | none | some (.file _) =>
        cases h
        rfl
      | some (.dir _) => cases h
    rw [ht']
    split
    · next hq =>
      rw [hq]
      rfl
    · next hq =>
      rw [hnone hq]
      cases q with
      | nil => exact absurd rfl hq
      | cons x qs => rfl
  | cons name rest ih =>
    match t with
    | none | some (.file _) => cases h
    | some (.dir children) =>
      obtain ⟨u, hu, rfl⟩ := map_eq_ok h
      cases q with
      | nil => rw [if_neg (List.cons_ne_nil _ _).symm]; rfl
      | cons x qs =>
        rw [fileAt_dir_cons, fileAt_dir_cons, lookup_setChild]
        by_cases hx : x = name
        · subst hx
          rw [if_pos rfl, ih hu qs]
          simp only [List.cons.injEq, true_and]
        · rw [if_neg hx, if_neg fun heq ↦ hx (List.cons.inj heq).1]

/-- In a directory that is there, only another directory is in the way. -/
theorem write_of_isDir {content : C} {t : Option (Disk N C)} {path : List N} {name : N}
    (h : isDir t path = true) :
    if isDir t (path ++ [name]) then write content t (path ++ [name]) = .error .isADirectory
    else ∃ t', write content t (path ++ [name]) = .ok t' := by
  induction path generalizing t with
  | nil =>
    match t with
    | none => cases h
    | some (.file _) => cases h
    | some (.dir children) =>
      rw [List.nil_append, isDir_dir_cons, write]
      match children.lookup name with
      | none => exact ⟨_, rfl⟩
      | some (.file _) => exact ⟨_, rfl⟩
      | some (.dir _) => rfl
  | cons x rest ih =>
    match t with
    | none => cases (isDir_none (N := N) (C := C) _).symm.trans h
    | some (.file _) => cases h
    | some (.dir children) =>
      have hstep := ih (t := children.lookup x) h
      rw [List.cons_append, isDir_dir_cons, write]
      split
      · next hdir =>
        rw [if_pos hdir] at hstep
        rw [hstep]
        rfl
      · next hdir =>
        rw [if_neg hdir] at hstep
        obtain ⟨u, hu⟩ := hstep
        exact ⟨_, by rw [hu]; rfl⟩

/-! ### What a call depends on -/

/-- Which error a call of `mkdirs` ends with depends on where files are on the path. -/
theorem mkdirs_error_congr {t u : Option (Disk N C)} {path : List N}
    (h : ∀ q, q <+: path → fileAt t q = fileAt u q) (e : Error) :
    mkdirs t path = .error e ↔ mkdirs u path = .error e := by
  induction path generalizing t u with
  | nil =>
    have hroot := h [] List.nil_prefix
    match t, u with
    | none, none | none, some (.dir _) | some (.dir _), none | some (.dir _), some (.dir _) =>
      exact iff_of_false nofun nofun
    | some (.file _), some (.file _) => exact Iff.rfl
    | none, some (.file _) | some (.dir _), some (.file _) => cases hroot
    | some (.file _), none | some (.file _), some (.dir _) => cases hroot
  | cons name rest ih =>
    have hroot := h [] List.nil_prefix
    have hstep {v w : Option (Disk N C)} (hv : ∀ q, fileAt t (name :: q) = fileAt v q)
        (hw : ∀ q, fileAt u (name :: q) = fileAt w q) :
        mkdirs v rest = .error e ↔ mkdirs w rest = .error e :=
      ih fun q hq ↦ by rw [← hv, ← hw, h _ (List.cons_prefix_cons.mpr ⟨rfl, hq⟩)]
    have hnone (q : List N) : fileAt (none : Option (Disk N C)) (name :: q) = fileAt none q := by
      rw [fileAt_none, fileAt_none]
    match t, u with
    | none, none => exact Iff.rfl
    | none, some (.dir children) =>
      rw [mkdirs, mkdirs, map_eq_error_iff, map_eq_error_iff]
      exact hstep hnone fun _ ↦ rfl
    | some (.dir children), none =>
      rw [mkdirs, mkdirs, map_eq_error_iff, map_eq_error_iff]
      exact hstep (fun _ ↦ rfl) hnone
    | some (.dir children), some (.dir children') =>
      rw [mkdirs, mkdirs, map_eq_error_iff, map_eq_error_iff]
      exact hstep (fun _ ↦ rfl) fun _ ↦ rfl
    | some (.file _), some (.file _) => exact Iff.rfl
    | none, some (.file _) | some (.dir _), some (.file _) => cases hroot
    | some (.file _), none | some (.file _), some (.dir _) => cases hroot

/-- What is not on the path stays as it is. -/
theorem get?_mkdirs_of_not_prefix {t : Option (Disk N C)} {path q : List N} {t' : Disk N C}
    (h : mkdirs t path = .ok t') (hq : ¬ q <+: path) : get? (some t') q = get? t q := by
  induction path generalizing t t' q with
  | nil =>
    match t with
    | none =>
      cases h
      cases q with
      | nil => exact absurd List.nil_prefix hq
      | cons x qs => exact get?_none qs
    | some (.file _) => cases h
    | some (.dir children) =>
      cases h
      rfl
  | cons name rest ih =>
    obtain ⟨children, u, ht, hu, rfl⟩ := mkdirs_cons h
    cases q with
    | nil => exact absurd List.nil_prefix hq
    | cons x qs =>
      have hbefore : get? t (x :: qs) = get? (children.lookup x) qs := by
        rcases ht with ⟨rfl, rfl⟩ | rfl
        · exact (get?_none qs).symm
        · rfl
      rw [hbefore, get?_dir_cons, lookup_setChild]
      split
      · next hx =>
        subst hx
        exact ih hu fun hqs ↦ hq (List.cons_prefix_cons.mpr ⟨rfl, hqs⟩)
      · rfl

theorem get?_write_of_not_prefix {content : C} {t : Option (Disk N C)} {path q : List N}
    {t' : Disk N C} (h : write content t path = .ok t') (hq : ¬ q <+: path) :
    get? (some t') q = get? t q := by
  induction path generalizing t t' q with
  | nil =>
    cases q with
    | nil => exact absurd List.nil_prefix hq
    | cons x qs =>
      match t with
      | none | some (.file _) =>
        cases h
        rfl
      | some (.dir _) => cases h
  | cons name rest ih =>
    match t with
    | none | some (.file _) => cases h
    | some (.dir children) =>
      obtain ⟨u, hu, rfl⟩ := map_eq_ok h
      cases q with
      | nil => exact absurd List.nil_prefix hq
      | cons x qs =>
        rw [get?_dir_cons, get?_dir_cons, lookup_setChild]
        split
        · next hx =>
          subst hx
          exact ih hu fun hqs ↦ hq (List.cons_prefix_cons.mpr ⟨rfl, hqs⟩)
        · rfl

/-- Below a place, directories are made as they are made there. -/
theorem mkdirs_append {t : Option (Disk N C)} {path rest : List N} {t' : Disk N C}
    (h : mkdirs t (path ++ rest) = .ok t') :
    ∃ u, mkdirs (get? t path) rest = .ok u ∧ get? (some t') path = some u := by
  induction path generalizing t t' with
  | nil => exact ⟨t', by rwa [get?_nil], get?_nil _⟩
  | cons name more ih =>
    obtain ⟨children, v, ht, hv, rfl⟩ := mkdirs_cons h
    obtain ⟨u, hu, hget⟩ := ih hv
    refine ⟨u, ?_, by rw [get?_dir_cons, lookup_setChild_self, hget]⟩
    rcases ht with ⟨rfl, rfl⟩ | rfl
    · rw [List.lookup_nil, get?_none] at hu
      rwa [get?_none]
    · exact hu

theorem write_append {content : C} {t : Option (Disk N C)} {path rest : List N} {t' : Disk N C}
    (h : write content t (path ++ rest) = .ok t') :
    ∃ u, write content (get? t path) rest = .ok u ∧ get? (some t') path = some u := by
  induction path generalizing t t' with
  | nil => exact ⟨t', by rwa [get?_nil], get?_nil _⟩
  | cons name more ih =>
    match t with
    | none | some (.file _) => cases h
    | some (.dir children) =>
      obtain ⟨v, hv, rfl⟩ := map_eq_ok h
      obtain ⟨u, hu, hget⟩ := ih hv
      exact ⟨u, hu, by rw [get?_dir_cons, lookup_setChild_self, hget]⟩

end Disk

end GithubAgent.Base
