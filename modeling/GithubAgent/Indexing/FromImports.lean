import GithubAgent.Base.Scan
import GithubAgent.Indexing.Attribution

/-!
# From-imports and their modules

How `_extract_relationships` of `src/shared/code_graph.py` pairs the names of the from-imports of a
Python file with modules: by their lines. What the queries report of an import statement is that of
`src/shared/ts_languages.py:108-121`.
-/

namespace GithubAgent.Indexing

open GithubAgent.Base

/-! ### The module of a line -/

/-- The module is the nearest one that is not after the line and at most 20 lines before it; of
those on one line it is the one that is listed last. -/
def NearestModule (modules : List (Nat × String)) (line : Nat) (m : Nat × String) : Prop :=
  ∃ before after, modules = before ++ m :: after ∧ m.1 ≤ line ∧ line - m.1 ≤ 20 ∧
    (∀ m' ∈ before, m'.1 ≤ line → m'.1 ≤ m.1) ∧ ∀ m' ∈ after, m'.1 ≤ line → m'.1 < m.1

theorem getLast?_eq_some_of_pairwise {l : List Nat} (h : l.Pairwise (· ≤ ·)) {n : Nat} :
    l.getLast? = some n ↔ n ∈ l ∧ ∀ k ∈ l, k ≤ n := by
  constructor
  · intro hlast
    obtain ⟨before, rfl⟩ := List.getLast?_eq_some_iff.mp hlast
    refine ⟨List.mem_append_right _ List.mem_cons_self, fun k hk ↦ ?_⟩
    rcases List.mem_append.mp hk with hk | hk
    · exact (List.pairwise_append.mp h).2.2 k hk n List.mem_cons_self
    · exact (List.mem_singleton.mp hk).le
  · rintro ⟨hn, hle⟩
    cases hlast : l.getLast? with
    | none =>
      rw [List.getLast?_eq_none_iff.mp hlast] at hn
      cases hn
    | some last =>
      obtain ⟨before, rfl⟩ := List.getLast?_eq_some_iff.mp hlast
      have hge : n ≤ last := by
        rcases List.mem_append.mp hn with hn | hn
        · exact (List.pairwise_append.mp h).2.2 n hn last List.mem_cons_self
        · exact (List.mem_singleton.mp hn).le
      rw [le_antisymm (hle last (List.mem_append_right _ List.mem_cons_self)) hge]

/-- The last line of a module that is not after a line. -/
theorem getLast?_moduleLines {modules : List (Nat × String)} {line before : Nat} :
    ((((modules.map Prod.fst).dedup.insertionSort (· ≤ ·)).take
        (bisectRight ((modules.map Prod.fst).dedup.insertionSort (· ≤ ·)) line)).getLast? =
      some before) ↔
      (∃ m ∈ modules, m.1 = before) ∧ before ≤ line ∧ ∀ m ∈ modules, m.1 ≤ line → m.1 ≤ before := by
  have hsorted := List.pairwise_insertionSort (· ≤ ·) (modules.map Prod.fst).dedup
  have htake := take_bisectRight id hsorted line
  rw [List.map_id] at htake
  rw [htake, getLast?_eq_some_of_pairwise (hsorted.sublist List.filter_sublist)]
  simp only [List.mem_filter, List.mem_insertionSort, List.mem_dedup, List.mem_map, id_eq,
    decide_eq_true_eq, and_assoc, and_imp, forall_exists_index, forall_apply_eq_imp_iff₂]

theorem moduleOfLine_eq_some_iff {modules : List (Nat × String)} {line : Nat} {text : String} :
    moduleOfLine modules line = some text ↔ ∃ m, NearestModule modules line m ∧ m.2 = text := by
  unfold moduleOfLine
  dsimp only
  constructor
  · intro h
    rcases Option.or_eq_some_iff.mp h with h | ⟨hnone, h⟩
    · obtain ⟨before, after, heq, hafter⟩ := dictGet_eq_some_iff.mp h
      refine ⟨(line, text), ⟨before, after, heq, le_rfl, by omega, fun _ _ hle ↦ hle, ?_⟩, rfl⟩
      exact fun m' hm' hle ↦ lt_of_le_of_ne hle (hafter m' hm')
    · obtain ⟨last, hlast, h⟩ := Option.bind_eq_some_iff.mp h
      obtain ⟨-, hle, hmax⟩ := getLast?_moduleLines.mp hlast
      split at h
      · next hnear =>
        obtain ⟨before, after, rfl, hafter⟩ := dictGet_eq_some_iff.mp h
        refine ⟨(last, text), ⟨before, after, rfl, hle, hnear, fun m' hm' ↦ ?_, ?_⟩, rfl⟩
        · exact hmax m' (List.mem_append_left _ hm')
        · intro m' hm' hle'
          exact lt_of_le_of_ne (hmax m' (List.mem_append_right _ (List.mem_cons_of_mem _ hm')) hle')
            (hafter m' hm')
      · cases h
  · rintro ⟨⟨last, value⟩, ⟨before, after, rfl, hle, hnear, hbefore, hafter⟩, rfl⟩
    have hget : dictGet (before ++ (last, value) :: after) last = some value :=
      dictGet_eq_some_iff.mpr ⟨before, after, rfl, fun m' hm' heq ↦
        (hafter m' hm' (heq ▸ hle)).ne heq⟩
    have hmax : ∀ m ∈ before ++ (last, value) :: after, m.1 ≤ line → m.1 ≤ last := by
      intro m hm hmle
      rcases List.mem_append.mp hm with hm | hm
      · exact hbefore m hm hmle
      · rcases List.mem_cons.mp hm with rfl | hm
        · exact le_rfl
        · exact (hafter m hm hmle).le
    rw [getLast?_moduleLines.mpr
      ⟨⟨_, List.mem_append_right _ List.mem_cons_self, rfl⟩, hle, hmax⟩, Option.bind_some,
      if_pos hnear, hget]
    cases hline : dictGet (before ++ (last, value) :: after) line with
    | none => rfl
    | some other =>
      have heq : line = last := le_antisymm (hmax _ (mem_of_dictGet hline) le_rfl) hle
      rw [← hline, heq, hget]
      rfl

/-! ### What is captured of the imports -/

/-- The module of a from-import. Only the name of an absolute one is captured: that of a relative
one, `.utils`, is not, and of `from __future__ import …` nothing is. -/
inductive FromModule where
  | absolute (name : Span)
  | relative (text : String)
  | future

def FromModule.text : FromModule → String
  | .absolute name => name.text
  | .relative text => text
  | .future => "__future__"

/-- A name of a from-import, which may be followed by `as`. -/
structure ImportedName where
  name : Span
  aliased : Bool

/-- An import statement: `import …`, with the identifiers of its names that have no `as`, or
`from … import …`. -/
inductive ImportStatement where
  | plain (identifiers : List Span)
  | fromImport (source : FromModule) (names : List ImportedName)

namespace ImportStatement

def identifiers : ImportStatement → List Span
  | .plain identifiers => identifiers
  | .fromImport _ _ => []

def moduleName : ImportStatement → Option Span
  | .fromImport (.absolute name) _ => some name
  | .fromImport (.relative _) _ | .fromImport .future _ | .plain _ => none

/-- The imported names, each with the module of its own statement. -/
def imported : ImportStatement → List (FromModule × ImportedName)
  | .plain _ => []
  | .fromImport source names => names.map fun name ↦ (source, name)

end ImportStatement

/-- A Python file with its import statements, as the import queries report them
(`ts_languages.py:108-121`). -/
structure ImportFile extends ParsedFile where
  statements : List ImportStatement
  plain : Captures
  modules : Captures
  names : Captures
  queries : importQueries =
    [(.importStatement, plain), (.importFromModule, modules), (.importFromName, names)]
  reportsPlain : ∀ s, s ∈ plain.targets ↔ ∃ statement ∈ statements, s ∈ statement.identifiers
  reportsModules : ∀ s, s ∈ modules.targets ↔
    ∃ statement ∈ statements, statement.moduleName = some s
  reportsNames : ∀ s, s ∈ names.targets ↔
    ∃ i ∈ statements.flatMap ImportStatement.imported,
      i.1 ≠ .future ∧ i.2.aliased = false ∧ i.2.name = s
  distinct : ((statements.flatMap ImportStatement.imported).map (·.2.name)).Nodup

/-- The tightest node around a target is the target: a node around it is not smaller. -/
theorem tightestNode_eq_self (nodes : List Span) (target : Span) :
    tightestNode nodes target = target := by
  unfold tightestNode
  induction nodes with
  | nil => rfl
  | cons node rest ih =>
    have hnot : ¬ (node.Contains target ∧ node.size < target.size) := by
      rintro ⟨⟨hstart, hend⟩, hlt⟩
      unfold Span.size at hlt
      omega
    rw [List.foldl_cons, if_neg hnot]
    exact ih

theorem runRelQuery_eq (c : Captures) :
    runRelQuery c = c.targets.map fun target ↦ (target.text, target) := by
  simp only [runRelQuery, tightestNode_eq_self]

/-- The imports, without regard to their order. -/
theorem importRelationships_perm (path : String) (resolveModule : String → Option String)
    (found : List ImportMatch) :
    (importRelationships path resolveModule found).Perm
      ((found.filter (·.category ∉ [.importSource, .importFromModule, .importFromName])).map
          (fun m ↦ m.relationship path (resolveModule m.target)) ++
        (found.filter (·.category = .importFromName)).map fun m ↦ m.relationship path
          (((moduleOfLine (modulesByLine found) m.line).filter (· ≠ "")).bind resolveModule)) := by
  refine List.Perm.append_left _ ?_
  let names := found.filter (·.category = .importFromName)
  have hgroups := (flatMap_dedupBy_perm ImportMatch.line names).map fun m ↦ m.relationship path
    (((moduleOfLine (modulesByLine found) m.line).filter (· ≠ "")).bind resolveModule)
  refine .trans (.of_eq ?_) hgroups
  rw [List.map_flatMap]
  apply List.flatMap_congr
  intro line _
  apply List.map_congr_left
  intro m hm
  rw [of_decide_eq_true (List.mem_filter.mp hm).2]

namespace ImportFile

variable (f : ImportFile) (path : String) (resolveModule : String → Option String)

/-- The lines and the texts of the modules that are captured. -/
def moduleLines : List (Nat × String) := f.modules.targets.map fun s ↦ (s.line, s.text)

/-- The match of a captured identifier. -/
def importMatch (category : ImportCategory) (s : Span) : ImportMatch :=
  ⟨category, s.text, s.line, findEnclosingDef (buildDefinitionMap f.toParsedFile) s⟩

/-- The file that the names on a line are taken to come from (`code_graph.py:412-425`). -/
def fileOfLine (line : Nat) : Option String :=
  ((moduleOfLine f.moduleLines line).filter (· ≠ "")).bind resolveModule

/-- What a captured name of a from-import yields. -/
def fromRelationship (name : Span) : Relationship :=
  (f.importMatch .importFromName name).relationship path (f.fileOfLine resolveModule name.line)

theorem importMatches_eq :
    importMatches (buildDefinitionMap f.toParsedFile) f.importQueries =
      f.plain.targets.map (f.importMatch .importStatement) ++
        (f.modules.targets.map (f.importMatch .importFromModule) ++
          f.names.targets.map (f.importMatch .importFromName)) := by
  simp only [importMatches, f.queries, runRelQuery_eq, List.flatMap_cons, List.flatMap_nil,
    List.append_nil, List.map_map]
  rfl

/-- The relationships of the file: each captured name of a from-import yields one. -/
theorem extractFile_perm (h : buildDefinitionMap f.toParsedFile ≠ []) :
    (extractFile path resolveModule f.toParsedFile).Perm
      (enclosedRelationships .calls path (buildDefinitionMap f.toParsedFile) f.callQueries ++
        (f.plain.targets.map (fun s ↦
            (f.importMatch .importStatement s).relationship path (resolveModule s.text)) ++
          f.names.targets.map (f.fromRelationship path resolveModule)) ++
        enclosedRelationships .inherits path (buildDefinitionMap f.toParsedFile)
          f.inheritanceQueries) := by
  rw [extractFile, if_neg h]
  refine (List.Perm.append_left _ ((importRelationships_perm path resolveModule _).trans
    (.of_eq ?_))).append_right _
  have hmodules : modulesByLine (importMatches (buildDefinitionMap f.toParsedFile)
      f.importQueries) = f.moduleLines := by
    rw [importMatches_eq, modulesByLine]
    simp [List.filter_map, Function.comp_def, importMatch, moduleLines]
  rw [hmodules, importMatches_eq]
  simp [List.filter_map, Function.comp_def, importMatch, fromRelationship, fileOfLine]

/-- The names of the from-imports, each with the module of its own statement. -/
def imported : List (FromModule × ImportedName) :=
  f.statements.flatMap ImportStatement.imported

/-- A name is captured when it has no `as` and is not a feature from `__future__`. -/
theorem mem_names_iff {i : FromModule × ImportedName} (hi : i ∈ f.imported) :
    i.2.name ∈ f.names.targets ↔ i.1 ≠ .future ∧ i.2.aliased = false := by
  rw [f.reportsNames]
  constructor
  · rintro ⟨i', hi', hfuture, haliased, heq⟩
    obtain rfl := List.inj_on_of_nodup_map f.distinct hi' hi heq
    exact ⟨hfuture, haliased⟩
  · exact fun ⟨hfuture, haliased⟩ ↦ ⟨i, hi, hfuture, haliased, rfl⟩

/-- Every name of a from-import yields a relationship, to the file of the module of its own
statement. -/
def PairsOwnModules : Prop :=
  ∀ i ∈ f.imported, buildDefinitionMap f.toParsedFile ≠ [] ∧ i.2.name ∈ f.names.targets ∧
    (f.fromRelationship path resolveModule i.2.name).targetFile = resolveModule i.1.text

/-- The nearest absolute module at the name, or none, stands for the same file as its own one. -/
def NearestIsOwn (i : FromModule × ImportedName) : Prop :=
  (∀ m, NearestModule f.moduleLines i.2.name.line m →
      (if m.2 = "" then none else resolveModule m.2) = resolveModule i.1.text) ∧
    ((∀ m, ¬ NearestModule f.moduleLines i.2.name.line m) → resolveModule i.1.text = none)

theorem fileOfLine_eq_iff {line : Nat} {file : Option String} :
    f.fileOfLine resolveModule line = file ↔
      (∀ m, NearestModule f.moduleLines line m →
        (if m.2 = "" then none else resolveModule m.2) = file) ∧
      ((∀ m, ¬ NearestModule f.moduleLines line m) → file = none) := by
  unfold fileOfLine
  cases hmodule : moduleOfLine f.moduleLines line with
  | none =>
    have hnone : ∀ m, ¬ NearestModule f.moduleLines line m := by
      intro m hm
      cases hmodule.symm.trans (moduleOfLine_eq_some_iff.mpr ⟨m, hm, rfl⟩)
    constructor
    · exact fun h ↦ ⟨fun m hm ↦ absurd hm (hnone m), fun _ ↦ h.symm⟩
    · exact fun h ↦ (h.2 hnone).symm
  | some text =>
    obtain ⟨m, hm, rfl⟩ := moduleOfLine_eq_some_iff.mp hmodule
    have htext : ∀ m', NearestModule f.moduleLines line m' → m'.2 = m.2 := fun m' hm' ↦
      Option.some.inj ((moduleOfLine_eq_some_iff.mpr ⟨m', hm', rfl⟩).symm.trans hmodule)
    have hfile : ((some m.2).filter (· ≠ "")).bind resolveModule =
        if m.2 = "" then none else resolveModule m.2 := by
      split
      · next h => rw [Option.filter_some_neg (by simp [h]), Option.bind_none]
      · next h => rw [Option.filter_some_pos (by simp [h]), Option.bind_some]
    rw [hfile]
    constructor
    · rintro rfl
      exact ⟨fun m' hm' ↦ by rw [htext m' hm'], fun hnone ↦ absurd hm (hnone m)⟩
    · exact fun h ↦ h.1 m hm

/-- The names are paired with their own modules when all of them are captured, something is
recorded as a definition, and the nearest absolute modules stand for the same files. -/
theorem pairsOwnModules_iff :
    f.PairsOwnModules path resolveModule ↔
      ∀ i ∈ f.imported, f.recordings ≠ [] ∧ (i.1 ≠ .future ∧ i.2.aliased = false) ∧
        f.NearestIsOwn resolveModule i := by
  refine forall₂_congr fun i hi ↦ ?_
  have hrecordings : buildDefinitionMap f.toParsedFile ≠ [] ↔ f.recordings ≠ [] := by
    simp only [ne_eq, List.eq_nil_iff_forall_not_mem, mem_buildDefinitionMap]
  rw [hrecordings, f.mem_names_iff hi]
  exact and_congr_right fun _ ↦ and_congr_right fun _ ↦ f.fileOfLine_eq_iff resolveModule

end ImportFile

/-! ### A relative import after an absolute one -/

section Mixed

private def libModule : Span := ⟨5, 8, 1, "lib"⟩

private def helperName : Span := ⟨16, 22, 1, "helper"⟩

private def slugName : Span := ⟨42, 46, 2, "slug"⟩

private def limitName : Span := ⟨47, 52, 3, "LIMIT"⟩

/-- `from lib import helper`, on the next line `from .utils import slug`, and then `LIMIT = 3`. -/
def mixedImports : ImportFile where
  root :=
    .node "module" ⟨0, 57, 1, ""⟩ none
      [.node "import_from_statement" ⟨0, 22, 1, "from lib import helper"⟩ (some helperName.text) [],
        .node "import_from_statement" ⟨23, 46, 2, "from .utils import slug"⟩
          (some slugName.text) [],
        .node "assignment" ⟨47, 56, 3, "LIMIT = 3"⟩ none [.node "identifier" limitName none []]]
  definableTypes := ["function_definition", "class_definition"]
  definitionQueries := [⟨[limitName], [⟨47, 56, 3, "LIMIT = 3"⟩]⟩]
  callQueries := []
  importQueries :=
    [(.importStatement, ⟨[], []⟩),
      (.importFromModule, ⟨[libModule], [⟨0, 22, 1, "from lib import helper"⟩]⟩),
      (.importFromName, ⟨[helperName, slugName],
        [⟨0, 22, 1, "from lib import helper"⟩, ⟨23, 46, 2, "from .utils import slug"⟩]⟩)]
  inheritanceQueries := []
  statements := [.fromImport (.absolute libModule) [⟨helperName, false⟩],
    .fromImport (.relative ".utils") [⟨slugName, false⟩]]
  plain := ⟨[], []⟩
  modules := ⟨[libModule], [⟨0, 22, 1, "from lib import helper"⟩]⟩
  names := ⟨[helperName, slugName],
    [⟨0, 22, 1, "from lib import helper"⟩, ⟨23, 46, 2, "from .utils import slug"⟩]⟩
  queries := rfl
  reportsPlain := by simp [ImportStatement.identifiers]
  reportsModules := by simp [ImportStatement.moduleName, eq_comm]
  reportsNames := by
    intro s
    simp only [List.flatMap_cons, List.flatMap_nil, ImportStatement.imported, List.map_cons,
      List.map_nil, List.append_nil, List.cons_append, List.nil_append, List.mem_cons,
      List.not_mem_nil, or_false, exists_eq_or_imp, exists_eq_left, ne_eq, reduceCtorEq,
      not_false_eq_true, true_and, eq_comm (a := s)]
  distinct := List.nodup_cons.mpr
    ⟨fun h ↦ absurd (congrArg Span.line (List.mem_singleton.mp h)) (by decide),
      List.nodup_singleton slugName⟩

/-- Both modules have a file. -/
def resolveMixed (name : String) : Option String :=
  if name = "lib" then some "pkg/lib.py"
  else if name = ".utils" then some "pkg/utils.py" else none

theorem targetFile_slug :
    (mixedImports.fromRelationship "pkg/app.py" resolveMixed slugName).targetFile =
      some "pkg/lib.py" := by decide

/-- What is imported from `.utils` is taken to come from `lib`. -/
theorem not_pairsOwnModules_mixedImports :
    ¬ mixedImports.PairsOwnModules "pkg/app.py" resolveMixed := by
  intro h
  have hslug : (FromModule.relative ".utils", ImportedName.mk slugName false) ∈
      mixedImports.imported :=
    List.mem_cons_of_mem _ List.mem_cons_self
  exact absurd (targetFile_slug.symm.trans (h _ hslug).2.2) (by decide)

end Mixed

end GithubAgent.Indexing
