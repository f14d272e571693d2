import GithubAgent.Indexing.TreeListing

/-!
# The files that a file tree shows

What `generate_file_tree` and `walk_source_files` of `src/shared/file_tree.py` collect, each by its own
rules, and when this is the same.
-/

namespace GithubAgent.Indexing.FileTree

/-! ### The files of a checkout -/

/-- All files below a directory. -/
def filesOf : List (String × Node) → List Place
  | [] => []
  | (name, .file) :: rest => ⟨[], name⟩ :: filesOf rest
  | (name, .dir linked entries) :: rest =>
    (filesOf entries).map (fun p ↦ ⟨(name, linked) :: p.dirs, p.name⟩) ++ filesOf rest

/-- The number of levels of a directory. -/
def levels : List (String × Node) → Nat
  | [] => 0
  | (_, .file) :: rest => max 1 (levels rest)
  | (_, .dir _ entries) :: rest => max (levels entries + 1) (levels rest)

/-- Every directory above the file is kept, and the file is. -/
def Rules.passes (rules : Rules) : (done dirs : List (String × Bool)) → String → Bool
  | done, [], name => rules.file done name
  | done, d :: rest, name => rules.dir done d && rules.passes (done ++ [d]) rest name

theorem mem_filesOf {entries : List (String × Node)} {p : Place} :
    p ∈ filesOf entries ↔ (∃ name, (name, .file) ∈ entries ∧ p = ⟨[], name⟩) ∨
      ∃ name linked inside q, (name, .dir linked inside) ∈ entries ∧ q ∈ filesOf inside ∧
        p = ⟨(name, linked) :: q.dirs, q.name⟩ := by
  induction entries with
  | nil => simp [filesOf]
  | cons e rest ih =>
    obtain ⟨name, node⟩ := e
    cases node with
    | file =>
      rw [filesOf, List.mem_cons, ih]
      simp only [List.mem_cons, Prod.mk.injEq, and_true, reduceCtorEq, and_false, false_or]
      constructor
      · rintro (rfl | ⟨other, hmem, rfl⟩ | hdir)
        · exact Or.inl ⟨name, Or.inl rfl, rfl⟩
        · exact Or.inl ⟨other, Or.inr hmem, rfl⟩
        · exact Or.inr hdir
      · rintro (⟨other, rfl | hmem, rfl⟩ | hdir)
        · exact Or.inl rfl
        · exact Or.inr (Or.inl ⟨other, hmem, rfl⟩)
        · exact Or.inr (Or.inr hdir)
    | dir linked inside =>
      rw [filesOf, List.mem_append, List.mem_map, ih]
      constructor
      · rintro (⟨q, hq, rfl⟩ | ⟨other, hmem, rfl⟩ | ⟨other, linked', inside', q, hmem, hq, rfl⟩)
        · exact Or.inr ⟨name, linked, inside, q, List.mem_cons_self, hq, rfl⟩
        · exact Or.inl ⟨other, List.mem_cons_of_mem _ hmem, rfl⟩
        · exact Or.inr ⟨other, linked', inside', q, List.mem_cons_of_mem _ hmem, hq, rfl⟩
      · rintro (⟨other, hmem, rfl⟩ | ⟨other, linked', inside', q, hmem, hq, rfl⟩)
        · rcases List.mem_cons.mp hmem with heq | hmem
          · cases heq
          · exact Or.inr (Or.inl ⟨other, hmem, rfl⟩)
        · rcases List.mem_cons.mp hmem with heq | hmem
          · cases heq
            exact Or.inl ⟨q, hq, rfl⟩
          · exact Or.inr (Or.inr ⟨other, linked', inside', q, hmem, hq, rfl⟩)

theorem levels_of_mem {name : String} {linked : Bool} {inside entries : List (String × Node)}
    (h : (name, .dir linked inside) ∈ entries) : levels inside + 1 ≤ levels entries := by
  induction entries with
  | nil => cases h
  | cons e rest ih =>
    obtain ⟨other, node⟩ := e
    cases node with
    | file =>
      rw [levels]
      rcases List.mem_cons.mp h with heq | hmem
      · cases heq
      · exact (ih hmem).trans (le_max_right _ _)
    | dir linked' inside' =>
      rw [levels]
      rcases List.mem_cons.mp h with heq | hmem
      · cases heq
        exact le_max_left _ _
      · exact (ih hmem).trans (le_max_right _ _)

theorem eq_nil_of_levels_eq_zero {entries : List (String × Node)} (h : levels entries = 0) :
    entries = [] := by
  cases entries with
  | nil => rfl
  | cons e rest =>
    obtain ⟨name, node⟩ := e
    cases node <;> (rw [levels] at h; omega)

/-- What collects the files that are kept in a directory and in the directories that are kept. -/
structure Collects (rules : Rules)
    (found : Nat → List (String × Bool) → List (String × Node) → List Place) : Prop where
  nil : ∀ done, found 0 done [] = []
  mem : ∀ left done entries p, p ∈ found (left + 1) done entries ↔
    (∃ name, (name, .file) ∈ entries ∧ rules.file done name = true ∧ p = ⟨done, name⟩) ∨
      ∃ name linked inside, (name, .dir linked inside) ∈ entries ∧
        rules.dir done (name, linked) = true ∧ p ∈ found left (done ++ [(name, linked)]) inside

/-- It collects the files that pass the rules, if it may go through all levels. -/
theorem Collects.mem_iff {rules : Rules}
    {found : Nat → List (String × Bool) → List (String × Node) → List Place}
    (h : Collects rules found) {left : Nat} {entries : List (String × Node)}
    (hleft : levels entries ≤ left) (done : List (String × Bool)) (p : Place) :
    p ∈ found left done entries ↔ ∃ q ∈ filesOf entries,
      p = ⟨done ++ q.dirs, q.name⟩ ∧ rules.passes done q.dirs q.name = true := by
  induction left generalizing entries done with
  | zero =>
    obtain rfl := eq_nil_of_levels_eq_zero (Nat.le_zero.mp hleft)
    rw [h.nil, filesOf]
    exact iff_of_false List.not_mem_nil fun ⟨_, hq, _⟩ ↦ List.not_mem_nil hq
  | succ left ih =>
    rw [h.mem]
    constructor
    · rintro (⟨name, hmem, hfile, rfl⟩ | ⟨name, linked, inside, hmem, hdir, hp⟩)
      · exact ⟨⟨[], name⟩, mem_filesOf.mpr (Or.inl ⟨name, hmem, rfl⟩),
          by rw [List.append_nil], hfile⟩
      · have hinside : levels inside ≤ left :=
          Nat.le_of_succ_le_succ ((levels_of_mem hmem).trans hleft)
        obtain ⟨q, hq, rfl, hpasses⟩ := (ih hinside _).mp hp
        refine ⟨⟨(name, linked) :: q.dirs, q.name⟩,
          mem_filesOf.mpr (Or.inr ⟨name, linked, inside, q, hmem, hq, rfl⟩), ?_, ?_⟩
        · rw [List.append_assoc, List.singleton_append]
        · rw [Rules.passes, hdir, hpasses]
          rfl
    · rintro ⟨q, hq, rfl, hpasses⟩
      rcases mem_filesOf.mp hq with ⟨name, hmem, rfl⟩ | ⟨name, linked, inside, r, hmem, hr, rfl⟩
      · exact Or.inl ⟨name, hmem, hpasses, by rw [List.append_nil]⟩
      · have hinside : levels inside ≤ left :=
          Nat.le_of_succ_le_succ ((levels_of_mem hmem).trans hleft)
        obtain ⟨hdir, hpasses⟩ := Bool.and_eq_true_iff.mp hpasses
        refine Or.inr ⟨name, linked, inside, hmem, hdir, (ih hinside _).mpr ⟨r, hr, ?_, hpasses⟩⟩
        rw [List.append_assoc, List.singleton_append]

theorem walkNode_dir (rules : Rules) (dirs : List (String × Bool)) (linked : Bool)
    (entries : List (String × Node)) :
    walkNode rules dirs (.dir linked entries) = walkNode rules dirs (.dir false entries) := by
  rw [walkNode, walkNode]

/-- What a name adds to the directories to enter. -/
def entered (rules : Rules) (dirs : List (String × Bool)) :
    String × Node → Option (String × List Place)
  | (_, .file) => none
  | (name, .dir linked entries) =>
    if rules.dir dirs (name, linked) then
      some (name, walkNode rules (dirs ++ [(name, linked)]) (.dir false entries))
    else none

theorem walkDirs_eq (rules : Rules) (dirs : List (String × Bool))
    (entries : List (String × Node)) :
    walkDirs rules dirs entries = entries.filterMap (entered rules dirs) := by
  induction entries with
  | nil => rw [walkDirs, List.filterMap_nil]
  | cons e rest ih =>
    obtain ⟨name, node⟩ := e
    cases node with
    | file => rw [walkDirs, ih, List.filterMap_cons, entered]
    | dir linked inside =>
      rw [walkDirs, ih, walkNode_dir, List.filterMap_cons, entered]
      split <;> rfl

theorem entered_eq_some {rules : Rules} {dirs : List (String × Bool)} {e : String × Node}
    {found : String × List Place} :
    entered rules dirs e = some found ↔ ∃ linked inside, e = (found.1, .dir linked inside) ∧
      rules.dir dirs (found.1, linked) = true ∧
        found.2 = walkNode rules (dirs ++ [(found.1, linked)]) (.dir false inside) := by
  constructor
  · intro h
    obtain ⟨name, node⟩ := e
    cases node with
    | file => cases h
    | dir linked inside =>
      rw [entered, Option.ite_none_right_eq_some] at h
      obtain ⟨hkept, rfl⟩ := h.imp_right Option.some.inj
      exact ⟨linked, inside, rfl, hkept, rfl⟩
  · rintro ⟨linked, inside, rfl, hkept, hfound⟩
    rw [entered, if_pos hkept, ← hfound]

theorem mem_walkDirs {rules : Rules} {dirs : List (String × Bool)} {entries : List (String × Node)}
    {found : String × List Place} :
    found ∈ walkDirs rules dirs entries ↔ ∃ linked inside,
      (found.1, .dir linked inside) ∈ entries ∧ rules.dir dirs (found.1, linked) = true ∧
        found.2 = walkNode rules (dirs ++ [(found.1, linked)]) (.dir false inside) := by
  rw [walkDirs_eq, List.mem_filterMap]
  constructor
  · rintro ⟨e, hmem, hentered⟩
    obtain ⟨linked, inside, rfl, h⟩ := entered_eq_some.mp hentered
    exact ⟨linked, inside, hmem, h⟩
  · rintro ⟨linked, inside, hmem, h⟩
    exact ⟨_, hmem, entered_eq_some.mpr ⟨linked, inside, rfl, h⟩⟩

/-- `walk_source_files` collects the files that pass its rules. -/
theorem collects_walkNode (rules : Rules) :
    Collects rules fun _ done entries ↦ walkNode rules done (.dir false entries) where
  nil := fun done ↦ by
    rw [walkNode, walkDirs]
    rfl
  mem := by
    intro left done entries p
    rw [walkNode, List.mem_append, List.mem_map, List.mem_flatMap]
    refine or_congr ?_ ?_
    · constructor
      · rintro ⟨name, hname, rfl⟩
        rw [List.mem_insertionSort, List.mem_map] at hname
        obtain ⟨⟨other, node⟩, hmem, rfl⟩ := hname
        obtain ⟨hmem, hkept⟩ := List.mem_filter.mp hmem
        obtain ⟨hfile, hrule⟩ := Bool.and_eq_true_iff.mp hkept
        cases node with
        | file => exact ⟨other, hmem, hrule, rfl⟩
        | dir linked inside => cases hfile
      · rintro ⟨name, hmem, hrule, rfl⟩
        refine ⟨name,
          (List.mem_insertionSort _).mpr (List.mem_map.mpr ⟨(name, .file), ?_, rfl⟩), rfl⟩
        exact List.mem_filter.mpr ⟨hmem, Bool.and_eq_true_iff.mpr ⟨rfl, hrule⟩⟩
    · constructor
      · rintro ⟨found, hfound, hp⟩
        rw [List.mem_insertionSort] at hfound
        obtain ⟨linked, inside, hmem, hdir, heq⟩ := mem_walkDirs.mp hfound
        exact ⟨found.1, linked, inside, hmem, hdir, heq ▸ hp⟩
      · rintro ⟨name, linked, inside, hmem, hdir, hp⟩
        exact ⟨(name, _), (List.mem_insertionSort _).mpr
          (mem_walkDirs.mpr ⟨linked, inside, hmem, hdir, rfl⟩), hp⟩

/-- The files among entries of the tree. -/
def placesOf (items : List Item) : List Place :=
  items.filterMap fun item ↦ if item.2 then none else some item.1

theorem mem_placesOf {items : List Item} {p : Place} : p ∈ placesOf items ↔ (p, false) ∈ items := by
  rw [placesOf, List.mem_filterMap]
  constructor
  · rintro ⟨⟨q, isDir⟩, hmem, heq⟩
    cases isDir with
    | false => exact Option.some.inj heq ▸ hmem
    | true => cases heq
  · exact fun h ↦ ⟨(p, false), h, rfl⟩

theorem mem_visible {lower : String → String} {spec : IgnoreSpec} {dirs : List (String × Bool)}
    {entries : List (String × Node)} {e : String × Node} :
    e ∈ visible lower spec dirs entries ↔
      e ∈ entries ∧ (treeRules spec).keeps dirs e = true := by
  rw [visible, List.mem_filter, List.mem_insertionSort]

/-- `generate_file_tree` collects the files that pass its rules. -/
theorem collects_within (lower : String → String) (spec : IgnoreSpec) :
    Collects (treeRules spec) fun left done entries ↦ placesOf (within lower spec left done entries)
    where
  nil := fun _ ↦ rfl
  mem := by
    intro left done entries p
    rw [mem_placesOf, within, List.mem_flatMap]
    constructor
    · rintro ⟨⟨name, node⟩, hmem, hp⟩
      obtain ⟨hmem, hkept⟩ := mem_visible.mp hmem
      cases node with
      | file =>
        rcases List.mem_cons.mp hp with heq | hp
        · exact Or.inl ⟨name, hmem, hkept, (Prod.mk.inj heq).1⟩
        · cases hp
      | dir linked inside =>
        rcases List.mem_cons.mp hp with heq | hp
        · cases heq
        · exact Or.inr ⟨name, linked, inside, hmem, hkept, mem_placesOf.mpr hp⟩
    · rintro (⟨name, hmem, hkept, rfl⟩ | ⟨name, linked, inside, hmem, hkept, hp⟩)
      · exact ⟨(name, .file), mem_visible.mpr ⟨hmem, hkept⟩, List.mem_cons_self⟩
      · exact ⟨(name, .dir linked inside), mem_visible.mpr ⟨hmem, hkept⟩,
          List.mem_cons_of_mem _ (mem_placesOf.mp hp)⟩

/-- No entries come behind the last level. -/
theorem within_succ_of_levels_le {lower : String → String} {spec : IgnoreSpec} {left : Nat}
    {entries : List (String × Node)} (h : levels entries ≤ left) (dirs : List (String × Bool)) :
    within lower spec (left + 1) dirs entries = within lower spec left dirs entries := by
  induction left generalizing entries dirs with
  | zero =>
    obtain rfl := eq_nil_of_levels_eq_zero (Nat.le_zero.mp h)
    rfl
  | succ left ih =>
    rw [within, within]
    refine List.flatMap_congr fun e he ↦ ?_
    obtain ⟨name, node⟩ := e
    cases node with
    | file => rfl
    | dir linked inside =>
      have hinside : levels inside ≤ left :=
        Nat.le_of_succ_le_succ ((levels_of_mem (mem_visible.mp he).1).trans h)
      rw [childItems, childItems, ih hinside]

theorem within_eq_of_levels_le {lower : String → String} {spec : IgnoreSpec} {left : Nat}
    {entries : List (String × Node)} (h : levels entries ≤ left) (dirs : List (String × Bool)) :
    within lower spec left dirs entries = within lower spec (levels entries) dirs entries := by
  induction left, h using Nat.le_induction with
  | base => rfl
  | succ left hle ih => rw [within_succ_of_levels_le hle, ih]

/-! ### What the tree says of a checkout -/

section Claim

variable (lower : String → String) (spec : IgnoreSpec) (rootName : String)
  (entries : List (String × Node))

/-- From some limits on, the files of the tree are those to index. -/
def ShowsIndexed : Prop :=
  ∃ minDepth minEntries, ∀ maxDepth maxEntries, minDepth ≤ maxDepth → minEntries ≤ maxEntries →
    ∀ p, p ∈ placesOf (itemsOf (generateFileTree lower spec maxEntries rootName entries maxDepth)) ↔
      p ∈ walkSourceFiles lower spec entries

/-- There are no more entries than the limit, and a line about those that are left out if one
is. -/
structure SaysWhenCut (maxDepth maxEntries : Nat) : Prop where
  limit : (itemsOf (generateFileTree lower spec maxEntries rootName entries maxDepth)).length ≤
    maxEntries
  truncated : itemsOf (generateFileTree lower spec maxEntries rootName entries maxDepth) ≠
    within lower spec maxDepth [] entries →
      saysTruncated (generateFileTree lower spec maxEntries rootName entries maxDepth) = true

/-- No name above the file or its own is left out by both. -/
def namesPass (p : Place) : Bool :=
  p.dirs.all (fun d ↦ !shouldExcludeDir d.1) && !shouldExcludeFile p.name

/-- Only `walk_source_files` leaves the file out: it is below a link, or for its name. -/
def onlyInTree (p : Place) : Bool := p.dirs.any Prod.snd || isGenerated lower p.name

/-- The ignore files match the file or a directory above it, by paths that are written so. -/
def ignoredAlong (text : List (String × Bool) → String → String) :
    (done dirs : List (String × Bool)) → String → Bool
  | done, [], name => isIgnored spec (text done name) false
  | done, d :: rest, name =>
    isIgnored spec (text done d.1) true || ignoredAlong text (done ++ [d]) rest name

/-- A file that passes by its names is ignored where only `walk_source_files` leaves it out, and
else it is ignored by both or by none. -/
structure RulesAgree : Prop where
  ignored : ∀ p ∈ filesOf entries, namesPass p = true → onlyInTree lower p = true →
    ignoredAlong spec relText [] p.dirs p.name = true
  alike : ∀ p ∈ filesOf entries, namesPass p = true → onlyInTree lower p = false →
    ignoredAlong spec relText [] p.dirs p.name = ignoredAlong spec walkText [] p.dirs p.name

/-- All entries fit, or one of those behind the limit is not deeper than the last one before it. -/
def FitsOrLeaves (maxDepth maxEntries : Nat) : Prop :=
  (within lower spec maxDepth [] entries).length ≤ maxEntries ∨
    LeavesItems maxEntries (within lower spec maxDepth [] entries)

end Claim

section Passes

variable {lower : String → String} {spec : IgnoreSpec}

theorem passes_treeRules (done dirs : List (String × Bool)) (name : String) :
    (treeRules spec).passes done dirs name =
      (namesPass ⟨dirs, name⟩ && !ignoredAlong spec relText done dirs name) := by
  induction dirs generalizing done with
  | nil =>
    rw [Rules.passes, namesPass, ignoredAlong, List.all_nil, Bool.true_and, ← Bool.not_or]
    rfl
  | cons d rest ih =>
    rw [Rules.passes, ih, namesPass, namesPass, ignoredAlong, List.all_cons]
    simp only [treeRules, Bool.not_or]
    cases shouldExcludeDir d.1 <;> cases isIgnored spec (relText done d.1) true <;>
      simp

theorem passes_walkRules (done dirs : List (String × Bool)) (name : String) :
    (walkRules lower spec).passes done dirs name =
      (namesPass ⟨dirs, name⟩ &&
        !(onlyInTree lower ⟨dirs, name⟩ || ignoredAlong spec walkText done dirs name)) := by
  induction dirs generalizing done with
  | nil =>
    rw [Rules.passes, namesPass, onlyInTree, ignoredAlong, List.all_nil, List.any_nil]
    simp only [walkRules, Bool.not_or, Bool.true_and, Bool.false_or]
    cases isGenerated lower name <;> cases shouldExcludeFile name <;> simp
  | cons d rest ih =>
    rw [Rules.passes, ih, namesPass, namesPass, onlyInTree, onlyInTree, ignoredAlong,
      List.all_cons, List.any_cons]
    simp only [walkRules, Bool.not_or]
    cases shouldExcludeDir d.1 <;> cases isIgnored spec (walkText done d.1) true <;>
      cases d.2 <;> simp

end Passes

section Claim

variable (lower : String → String) (spec : IgnoreSpec) (rootName : String)
  (entries : List (String × Node))

/-- The tree lists the first of the entries within its levels. -/
theorem itemsOf_generateFileTree (maxDepth maxEntries : Nat) :
    itemsOf (generateFileTree lower spec maxEntries rootName entries maxDepth) =
      (within lower spec maxDepth [] entries).take maxEntries :=
  (lists_walk lower spec maxEntries maxDepth "" [] entries ⟨[.root rootName], 0⟩).listed

theorem saysTruncated_generateFileTree (maxDepth maxEntries : Nat) :
    saysTruncated (generateFileTree lower spec maxEntries rootName entries maxDepth) = true ↔
      LeavesItems maxEntries (within lower spec maxDepth [] entries) := by
  have h := lists_walk lower spec maxEntries maxDepth "" [] entries ⟨[.root rootName], 0⟩
  exact h.truncated.trans (or_iff_right Bool.false_ne_true)

theorem saysWhenCut_iff (maxDepth maxEntries : Nat) :
    SaysWhenCut lower spec rootName entries maxDepth maxEntries ↔
      FitsOrLeaves lower spec entries maxDepth maxEntries := by
  rw [FitsOrLeaves, ← saysTruncated_generateFileTree lower spec rootName]
  constructor
  · intro h
    rcases Nat.lt_or_ge maxEntries (within lower spec maxDepth [] entries).length with hlt | hle
    · refine Or.inr (h.truncated ?_)
      intro heq
      have hlen := congrArg List.length heq
      rw [itemsOf_generateFileTree, List.length_take, min_eq_left hlt.le] at hlen
      exact hlt.ne hlen
    · exact Or.inl hle
  · intro h
    refine ⟨?_, fun hne ↦ h.resolve_left fun hle ↦ hne ?_⟩
    · rw [itemsOf_generateFileTree, List.length_take]
      exact min_le_left _ _
    · rw [itemsOf_generateFileTree, List.take_of_length_le hle]

/-- The files that pass both rules or none are the same if the rules agree. -/
theorem rulesAgree_iff : RulesAgree lower spec entries ↔
    ∀ p ∈ filesOf entries, (treeRules spec).passes [] p.dirs p.name =
      (walkRules lower spec).passes [] p.dirs p.name := by
  constructor
  · intro h p hp
    rw [passes_treeRules, passes_walkRules]
    cases hnames : namesPass p with
    | false => rfl
    | true =>
      cases honly : onlyInTree lower p with
      | true => rw [h.ignored p hp hnames honly, Bool.true_or]
      | false => rw [h.alike p hp hnames honly, Bool.false_or]
  · intro h
    have hat : ∀ p ∈ filesOf entries, namesPass p = true →
        ignoredAlong spec relText [] p.dirs p.name =
          (onlyInTree lower p || ignoredAlong spec walkText [] p.dirs p.name) := by
      intro p hp hnames
      have hp := h p hp
      rw [passes_treeRules, passes_walkRules, hnames, Bool.true_and, Bool.true_and] at hp
      exact Bool.not_inj hp
    refine ⟨fun p hp hnames honly ↦ ?_, fun p hp hnames honly ↦ ?_⟩
    · rw [hat p hp hnames, honly, Bool.true_or]
    · rw [hat p hp hnames, honly, Bool.false_or]

theorem mem_walkSourceFiles (p : Place) : p ∈ walkSourceFiles lower spec entries ↔
    p ∈ filesOf entries ∧ (walkRules lower spec).passes [] p.dirs p.name = true := by
  refine ((collects_walkNode (walkRules lower spec)).mem_iff (le_refl (levels entries)) []
    p).trans ?_
  constructor
  · rintro ⟨q, hq, rfl, hpasses⟩
    exact ⟨hq, hpasses⟩
  · rintro ⟨hp, hpasses⟩
    exact ⟨p, hp, rfl, hpasses⟩

theorem mem_placesOf_within {left : Nat} (h : levels entries ≤ left) (p : Place) :
    p ∈ placesOf (within lower spec left [] entries) ↔
      p ∈ filesOf entries ∧ (treeRules spec).passes [] p.dirs p.name = true := by
  refine ((collects_within lower spec).mem_iff h [] p).trans ?_
  constructor
  · rintro ⟨q, hq, rfl, hpasses⟩
    exact ⟨hq, hpasses⟩
  · rintro ⟨hp, hpasses⟩
    exact ⟨p, hp, rfl, hpasses⟩

theorem showsIndexed_iff :
    ShowsIndexed lower spec rootName entries ↔ RulesAgree lower spec entries := by
  have hall : ∀ maxDepth maxEntries, levels entries ≤ maxDepth →
      (within lower spec (levels entries) [] entries).length ≤ maxEntries → ∀ p,
        p ∈ placesOf (itemsOf (generateFileTree lower spec maxEntries rootName entries maxDepth)) ↔
          p ∈ filesOf entries ∧ (treeRules spec).passes [] p.dirs p.name = true := by
    intro maxDepth maxEntries hdepth hentries p
    rw [itemsOf_generateFileTree, within_eq_of_levels_le hdepth, List.take_of_length_le hentries]
    exact mem_placesOf_within lower spec entries le_rfl p
  rw [rulesAgree_iff]
  constructor
  · rintro ⟨minDepth, minEntries, h⟩ p hp
    have hp' := h _ _ (le_max_left minDepth (levels entries))
      (le_max_left minEntries (within lower spec (levels entries) [] entries).length) p
    rw [hall _ _ (le_max_right _ _) (le_max_right _ _), mem_walkSourceFiles,
      and_congr_right_iff] at hp'
    exact Bool.eq_iff_iff.mpr (hp' hp)
  · intro h
    refine ⟨levels entries, (within lower spec (levels entries) [] entries).length,
      fun maxDepth maxEntries hdepth hentries p ↦ ?_⟩
    rw [hall maxDepth maxEntries hdepth hentries, mem_walkSourceFiles]
    exact and_congr_right fun hp ↦ by rw [h p hp]

/-- From some limits on the tree shows the files to index if and only if every file that is left out
by no name, and that only `walk_source_files` leaves out, is ignored, and every other one is ignored
by both or by none. Under any limits it says that entries are left out if and only if none is, or
one of them is not deeper than the last entry that is listed. -/
theorem showsIndexed_and_saysWhenCut_iff :
    (ShowsIndexed lower spec rootName entries ↔ RulesAgree lower spec entries) ∧
      ∀ maxDepth maxEntries, SaysWhenCut lower spec rootName entries maxDepth maxEntries ↔
        FitsOrLeaves lower spec entries maxDepth maxEntries :=
  ⟨showsIndexed_iff lower spec rootName entries, saysWhenCut_iff lower spec rootName entries⟩

end Claim

/-- The `.git` file of a worktree is in the tree, and where the limit is reached at the line of a
directory nothing says that its file is left out. -/
theorem not_showsIndexed_gitFile :
    ¬ ShowsIndexed id none "worktree" [(".git", .file)] ∧
      ¬ SaysWhenCut id none "repo" [("src", .dir false [("main.py", .file)])] 3 1 := by
  constructor
  · intro h
    have hagree := ((showsIndexed_iff _ _ _ _).mp h).ignored ⟨[], ".git"⟩
      (mem_filesOf.mpr (Or.inl ⟨".git", List.mem_cons_self, rfl⟩)) rfl rfl
    cases hagree
  · intro h
    have hcut := h.truncated fun heq ↦ absurd (congrArg List.length heq) (by decide)
    exact absurd hcut (by decide)

end GithubAgent.Indexing.FileTree
