import GithubAgent.Indexing.ImportResolver
import Mathlib.Tactic

/-!
# What imports resolve to

The module texts that `_extract_relationships` of `src/shared/code_graph.py` passes to the
resolvers, and the files that they denote. The queries of Python capture identifiers and dotted
names, as they stand in the source; those of TypeScript and JavaScript bindings and quoted sources.
-/

namespace GithubAgent.Indexing

open GithubAgent.Base GithubAgent.Shared

/-! ### Module texts -/

/-- Blanks, and the beginning of a comment: what the grammar lets stand between two tokens has one
of them. -/
def extraChars : List Char :=
  [' ', '\t', '\n', '\x0b', '\x0c', '\r', '#', '\u200b', '\u2060', '\ufeff']

def IsIdentifier (text : String) : Prop :=
  text ≠ "" ∧ ∀ c ∈ text.toList, c ∉ '.' :: '/' :: '\\' :: extraChars

/-- Nothing, or a text with a blank or a comment, such as the end of a continued line. -/
def IsGap (text : String) : Prop := text = "" ∨ ∃ c ∈ text.toList, c ∈ extraChars

/-- A dot with the identifier behind it, and what stands around the dot. -/
structure NamePart where
  before : String
  behind : String
  identifier : String

def NamePart.chars (p : NamePart) : List Char :=
  p.before.toList ++ '.' :: (p.behind.toList ++ p.identifier.toList)

/-- A dotted name of a source file. -/
structure DottedName where
  first : String
  rest : List NamePart
  first_valid : IsIdentifier first
  rest_valid : ∀ p ∈ rest, IsGap p.before ∧ IsGap p.behind ∧ IsIdentifier p.identifier

namespace DottedName

variable (name : DottedName)

/-- The text of the node. -/
def text : String := String.ofList (name.first.toList ++ name.rest.flatMap NamePart.chars)

def identifiers : List String := name.first :: name.rest.map NamePart.identifier

/-- Something stands between an identifier and a dot. -/
def HasGap : Prop := ∃ p ∈ name.rest, p.before ≠ "" ∨ p.behind ≠ ""

/-- The parts of the path that the text is turned into. -/
def spelled : List String := joinPath [] (dotsToSlashes name.text)

end DottedName

/-- A module text (`ts_languages.py:106-118, 190-195`, `code_graph.py:391-425`): a name in Python,
and in TypeScript and JavaScript an identifier or a quoted text, which do not begin with a dot. -/
inductive ExtractedModule where
  | python (name : DottedName)
  | script (text : String) (bare : text.toList.head? ≠ some '.')

/-- A file of the repository, by its directory and its name. -/
structure RepoFile where
  directory : List String
  name : String
  valid : ∀ part ∈ directory ++ [name], part ≠ "" ∧ part ≠ "." ∧ '/' ∉ part.toList

def RepoFile.text (file : RepoFile) : String := "/".intercalate (file.directory ++ [file.name])

/-! ### What they denote -/

/-- The module file and the package of some parts below a directory. -/
def moduleFiles (directory parts : List String) : List (List String) :=
  [directory ++ (parts.dropLast ++ [parts.getLastD "" ++ ".py"]),
    directory ++ (parts ++ ["__init__.py"])]

/-- The files that a module denotes, relative to the importing package or to the root; a bare
specifier denotes an external package. -/
def ExtractedModule.denoted (file : RepoFile) : ExtractedModule → List (List String)
  | .python name => moduleFiles file.directory name.identifiers ++ moduleFiles [] name.identifiers
  | .script _ _ => []

section Targets

variable (fs : FileSystem) (repo : List String) (file : RepoFile)

def ExtractedModule.resolve : ExtractedModule → Except PathError (Option String)
  | .python name => resolvePythonImport fs repo name.text file.text
  | .script text _ => resolveTsImport fs repo text file.text

/-- The text is that of a path in the repository, one of the given ones, with a file. -/
def IsFileOf (paths : List (List String)) (text : String) : Prop :=
  ∃ path ∈ paths, fs.stat (repo ++ path) = .file ∧ text = "/".intercalate path

/-- A module is resolved without an exception, and only to an existing file that it denotes. -/
def StaysOnTarget (m : ExtractedModule) : Prop :=
  ∃ result, m.resolve fs repo file = .ok result ∧
    ∀ text ∈ result, IsFileOf fs repo (m.denoted file) text

/-- The first of some paths in the repository at which there is anything to be found. -/
def firstFound (paths : List (List String)) : Option (List String) :=
  paths.find? fun path ↦ fs.stat (repo ++ path) ≠ .other

end Targets

/-! ### The parts that a name spells -/

namespace DottedName

variable {name : DottedName}

theorem toList_text (name : DottedName) :
    name.text.toList = name.first.toList ++ name.rest.flatMap NamePart.chars :=
  String.toList_ofList

theorem toList_dotsToSlashes (text : String) :
    (dotsToSlashes text).toList = text.toList.map fun c ↦ if c = '.' then '/' else c :=
  String.toList_ofList

/-- The text of a name begins with a character of an identifier. -/
theorem head_text (name : DottedName) :
    ∃ c ∈ name.first.toList, name.text.toList.head? = some c := by
  cases hfirst : name.first.toList with
  | nil => exact absurd (String.toList_inj.mp hfirst) name.first_valid.1
  | cons c rest =>
    refine ⟨c, List.mem_cons_self, ?_⟩
    rw [toList_text, hfirst]
    rfl

theorem head_text_ne (name : DottedName) {c : Char} (hc : c ∈ ['.', '/']) :
    name.text.toList.head? ≠ some c := by
  obtain ⟨first, hfirst, hhead⟩ := name.head_text
  rw [hhead]
  rintro ⟨rfl⟩
  have hnot := name.first_valid.2 _ hfirst
  simp only [List.mem_cons, List.not_mem_nil, or_false] at hc
  rcases hc with rfl | rfl <;> exact hnot (by simp)

theorem head_dotsToSlashes_ne (name : DottedName) :
    (dotsToSlashes name.text).toList.head? ≠ some '/' := by
  rw [toList_dotsToSlashes, List.head?_map]
  intro h
  obtain ⟨c, hc, hslash⟩ := Option.map_eq_some_iff.mp h
  split at hslash
  · next hdot => exact name.head_text_ne (by simp) (hdot ▸ hc)
  · exact name.head_text_ne (by simp) (hslash ▸ hc)

/-- A character of the text that is no separator stands in a part. -/
theorem mem_spelled {c : Char} (hc : c ∈ name.text.toList) (hdot : c ≠ '.') (hslash : c ≠ '/') :
    ∃ part ∈ name.spelled, c ∈ part.toList := by
  have hmem : c ∈ (dotsToSlashes name.text).toList := by
    rw [toList_dotsToSlashes]
    exact List.mem_map.mpr ⟨c, hc, if_neg hdot⟩
  obtain heq | ⟨part, hpart, hcpart⟩ := mem_splitOn hmem
  · exact absurd heq hslash
  · refine ⟨String.ofList part, mem_joinPath_nil.mpr ⟨?_, ?_, ?_⟩, ?_⟩
    · rwa [String.toList_ofList]
    · rintro hempty
      rw [← String.toList_inj, String.toList_ofList] at hempty
      rw [hempty] at hcpart
      cases hcpart
    · intro hsingle
      rw [← String.toList_inj, String.toList_ofList] at hsingle
      rw [hsingle] at hcpart
      exact hdot (List.mem_singleton.mp hcpart)
    · rwa [String.toList_ofList]

theorem spelled_ne_nil (name : DottedName) : name.spelled ≠ [] := by
  obtain ⟨c, hc, hhead⟩ := name.head_text
  have hmem : c ∈ name.text.toList := List.mem_of_head? hhead
  have hnot := name.first_valid.2 c hc
  obtain ⟨part, hpart, -⟩ := mem_spelled hmem (fun h ↦ hnot (by simp [h]))
    (fun h ↦ hnot (by simp [h]))
  exact List.ne_nil_of_mem hpart

/-- No part has a dot. -/
theorem dot_notMem_spelled {part : String} (hpart : part ∈ name.spelled) :
    '.' ∉ part.toList := by
  intro hdot
  have hmem := mem_of_mem_splitOn (mem_joinPath_nil.mp hpart).1 hdot
  rw [toList_dotsToSlashes] at hmem
  obtain ⟨c, -, hc⟩ := List.mem_map.mp hmem
  split at hc
  · exact absurd hc (by decide)
  · next hne => exact hne hc

/-- What stands between the parts of a name has a character that no identifier has. -/
theorem exists_extra (h : name.HasGap) :
    ∃ c ∈ extraChars, ∃ part ∈ name.spelled, c ∈ part.toList := by
  obtain ⟨p, hp, hgap⟩ := h
  obtain ⟨hbefore, hbehind, -⟩ := name.rest_valid p hp
  have hextra : ∃ c ∈ p.chars, c ∈ extraChars := by
    rcases hgap with hne | hne
    · obtain ⟨c, hc, hmem⟩ := hbefore.resolve_left hne
      exact ⟨c, List.mem_append_left _ hc, hmem⟩
    · obtain ⟨c, hc, hmem⟩ := hbehind.resolve_left hne
      exact ⟨c, by simp [NamePart.chars, hc], hmem⟩
  obtain ⟨c, hc, hmem⟩ := hextra
  have htext : c ∈ name.text.toList := by
    rw [toList_text]
    exact List.mem_append_right _ (List.mem_flatMap.mpr ⟨p, hp, hc⟩)
  have hdot : c ≠ '.' := by
    rintro rfl
    exact absurd hmem (by decide)
  have hslash : c ≠ '/' := by
    rintro rfl
    exact absurd hmem (by decide)
  exact ⟨c, hmem, mem_spelled htext hdot hslash⟩

theorem identifiers_ne_nil (name : DottedName) : name.identifiers ≠ [] := List.cons_ne_nil _ _

theorem identifier_valid {text : String} (h : text ∈ name.identifiers) : IsIdentifier text := by
  rcases List.mem_cons.mp h with rfl | h
  · exact name.first_valid
  · obtain ⟨p, hp, rfl⟩ := List.mem_map.mp h
    exact (name.rest_valid p hp).2.2

/-- Dots between identifiers become slashes between them. -/
theorem map_dots (first : String) (rest : List NamePart) (hfirst : IsIdentifier first)
    (hrest : ∀ p ∈ rest, p.before = "" ∧ p.behind = "" ∧ IsIdentifier p.identifier) :
    (first.toList ++ rest.flatMap NamePart.chars).map (fun c ↦ if c = '.' then '/' else c) =
      ['/'].intercalate ((first :: rest.map NamePart.identifier).map String.toList) := by
  have hself : ∀ s : String, IsIdentifier s →
      s.toList.map (fun c ↦ if c = '.' then '/' else c) = s.toList := by
    intro s hs
    refine (List.map_congr_left fun c hc ↦ ?_).trans (List.map_id _)
    exact if_neg fun hdot ↦ hs.2 c hc (by simp [hdot])
  induction rest generalizing first with
  | nil => simpa using hself first hfirst
  | cons p rest ih =>
    obtain ⟨hbefore, hbehind, hidentifier⟩ := hrest p List.mem_cons_self
    have hchars : p.chars = '.' :: p.identifier.toList := by
      simp [NamePart.chars, hbefore, hbehind]
    have hrest' := ih p.identifier hidentifier fun q hq ↦ hrest q (List.mem_cons_of_mem _ hq)
    rw [List.flatMap_cons, hchars, List.cons_append, List.map_append, List.map_cons, hself _ hfirst,
      hrest', if_pos rfl, List.map_cons, List.map_cons, List.map_cons, List.map_cons,
      List.intercalate_cons_cons, List.append_assoc, List.singleton_append]

/-- The parts of a name with nothing but dots in between are its identifiers. -/
theorem spelled_eq_identifiers (h : ¬ name.HasGap) : name.spelled = name.identifiers := by
  have hrest : ∀ p ∈ name.rest, p.before = "" ∧ p.behind = "" ∧ IsIdentifier p.identifier := by
    intro p hp
    obtain ⟨-, -, hidentifier⟩ := name.rest_valid p hp
    refine ⟨?_, ?_, hidentifier⟩ <;> by_contra hne
    · exact h ⟨p, hp, .inl hne⟩
    · exact h ⟨p, hp, .inr hne⟩
  have htext : dotsToSlashes name.text = "/".intercalate name.identifiers := by
    rw [← String.toList_inj, toList_dotsToSlashes, toList_text, String.toList_intercalate]
    exact map_dots name.first name.rest name.first_valid hrest
  rw [spelled, htext, joinPath_intercalate [] name.identifiers_ne_nil, List.nil_append]
  intro part hpart
  obtain ⟨hne, hchars⟩ := identifier_valid hpart
  refine ⟨hne, ?_, fun hslash ↦ hchars _ hslash (by simp)⟩
  rintro rfl
  exact hchars '.' (by decide) (by simp)

end DottedName

/-! ### What the resolvers find -/

section Found

variable (fs : FileSystem) (repo : List String)

/-- What is returned for the first path at which something is found. -/
def foundResult : Option (List String) → Except PathError (Option String)
  | none => .ok none
  | some path =>
    if fs.stat (repo ++ path) = .file then .ok (some (relativeText path)) else .error .osError

theorem relativeTo_append (path : List String) : relativeTo (repo ++ path) repo = some path := by
  have hprefix : repo.isPrefixOf (repo ++ path) = true :=
    List.isPrefixOf_iff_prefix.mpr (List.prefix_append repo path)
  rw [relativeTo, if_pos hprefix, List.drop_left]

theorem firstFile_eq (paths : List (List String)) :
    firstFile fs (paths.map (repo ++ ·)) =
      match firstFound fs repo paths with
      | none => .ok none
      | some path =>
        if fs.stat (repo ++ path) = .file then .ok (some (repo ++ path)) else .error .osError := by
  unfold firstFound
  induction paths with
  | nil => rfl
  | cons path rest ih =>
    rw [List.map_cons, firstFile, List.find?_cons]
    cases hstat : fs.stat (repo ++ path) with
    | other => simpa using ih
    | file => simp [hstat]
    | error => simp [hstat]

theorem nameStem_of_notMem {name : String} (h : '.' ∉ name.toList) : nameStem name = name :=
  if_neg fun hand ↦ h hand.1

/-- Of parts without dots below a directory of the repository, `_find_module` tries the module file
and the package. -/
theorem findModule_eq (directory : List String) {parts : List String} (hne : parts ≠ [])
    (hdots : ∀ part ∈ parts, '.' ∉ part.toList) :
    findModule fs repo (repo ++ (directory ++ parts)) =
      foundResult fs repo (firstFound fs repo (moduleFiles directory parts)) := by
  obtain ⟨init, last, rfl⟩ := (List.eq_nil_or_concat parts).resolve_left hne
  rw [List.concat_eq_append] at hdots ⊢
  have hstem : nameStem last = last := nameStem_of_notMem (hdots last (by simp))
  have hsuffix : withSuffix (repo ++ (directory ++ (init ++ [last]))) ".py" =
      .ok (repo ++ (directory ++ (init ++ [last ++ ".py"]))) := by
    have hlast : (repo ++ (directory ++ (init ++ [last]))).getLast? = some last := by simp
    have hinit : (repo ++ (directory ++ (init ++ [last]))).dropLast =
        repo ++ (directory ++ init) := by
      rw [← List.append_assoc, ← List.append_assoc, List.dropLast_concat, List.append_assoc]
    simp only [withSuffix, hlast, hinit, hstem, List.append_assoc]
  have hcandidates : [repo ++ (directory ++ (init ++ [last ++ ".py"])),
      repo ++ (directory ++ (init ++ [last])) ++ ["__init__.py"]] =
      (moduleFiles directory (init ++ [last])).map (repo ++ ·) := by
    simp [moduleFiles]
  simp only [findModule, hsuffix, hcandidates, firstFile_eq]
  cases firstFound fs repo (moduleFiles directory (init ++ [last])) with
  | none => rfl
  | some path =>
    by_cases hfile : fs.stat (repo ++ path) = .file
    · simp [foundResult, hfile, relativeTo_append]
    · simp [foundResult, hfile]

variable (file : RepoFile)

/-- A name is looked for in the importing directory and then at the root. -/
theorem resolvePythonImport_eq (name : DottedName) :
    resolvePythonImport fs repo name.text file.text =
      if isStdlib name.text then .ok none
      else
        match firstFound fs repo (moduleFiles file.directory name.spelled) with
        | none => foundResult fs repo (firstFound fs repo (moduleFiles [] name.spelled))
        | some path => foundResult fs repo (some path) := by
  have hdir : importingDir repo file.text = repo ++ file.directory := by
    rw [importingDir, RepoFile.text, joinPath_intercalate repo (by simp) file.valid,
      ← List.append_assoc, List.dropLast_concat]
  have hjoin (base : List String) :
      joinPath base (dotsToSlashes name.text) = base ++ name.spelled :=
    joinPath_of_relative base name.head_dotsToSlashes_ne
  have hdots : ∀ part ∈ name.spelled, '.' ∉ part.toList := fun part hpart ↦
    DottedName.dot_notMem_spelled hpart
  have hpackage := findModule_eq fs repo file.directory name.spelled_ne_nil hdots
  have hroot := findModule_eq fs repo [] name.spelled_ne_nil hdots
  rw [List.nil_append] at hroot
  rw [resolvePythonImport, if_neg (name.head_text_ne (by simp)), hdir, hjoin, hjoin,
    List.append_assoc, hpackage, hroot]
  cases firstFound fs repo (moduleFiles file.directory name.spelled) with
  | none => rfl
  | some path =>
    by_cases hfile : fs.stat (repo ++ path) = .file <;> simp [foundResult, hfile]

end Found

/-! ### The texts of paths -/

/-- The characters of the parts. -/
def partChars (path : List String) : List Char := (path.map String.toList).flatten

theorem partChars_append (path path' : List String) :
    partChars (path ++ path') = partChars path ++ partChars path' := by
  simp [partChars]

/-- Every other character occurs in the text as often as in the parts. -/
theorem count_intercalate {c : Char} (hc : c ≠ '/') (path : List String) :
    ("/".intercalate path).toList.count c = (partChars path).count c := by
  rw [String.toList_intercalate]
  exact count_intercalate_of_ne hc.symm _

/-- A slash occurs in the text between any two parts. -/
theorem count_slash_intercalate {path : List String} (hne : path ≠ []) :
    ("/".intercalate path).toList.count '/' + 1 = (partChars path).count '/' + path.length := by
  obtain ⟨part, rest, rfl⟩ := List.exists_cons_of_ne_nil hne
  have hcount := count_intercalate_self (a := '/') part.toList (rest.map String.toList)
  rw [String.toList_intercalate]
  simp only [partChars, List.map_cons, List.length_cons, List.length_map] at hcount ⊢
  exact congrArg (· + 1) hcount

theorem toList_relativeText (path : List String) :
    (relativeText path).toList = slashed ("/".intercalate path).toList := String.toList_ofList

theorem count_slashed {c : Char} (hslash : c ≠ '/') (hback : c ≠ '\\') (text : List Char) :
    (slashed text).count c = text.count c := by
  induction text with
  | nil => rfl
  | cons d rest ih =>
    unfold slashed at ih ⊢
    rw [List.map_cons, List.count_cons, List.count_cons, ih]
    by_cases hd : d = '\\'
    · subst hd
      simp [hslash.symm, hback.symm]
    · rw [if_neg hd]

theorem count_slash_slashed (text : List Char) :
    (slashed text).count '/' = text.count '/' + text.count '\\' := by
  induction text with
  | nil => rfl
  | cons d rest ih =>
    unfold slashed at ih ⊢
    rw [List.map_cons, List.count_cons, List.count_cons, List.count_cons, ih]
    by_cases hd : d = '\\'
    · subst hd
      simp [Nat.add_assoc]
    · simp [hd, Nat.add_right_comm]

theorem backslash_notMem_slashed (text : List Char) : '\\' ∉ slashed text := by
  intro h
  obtain ⟨c, -, hc⟩ := List.mem_map.mp h
  split at hc
  · exact absurd hc (by decide)
  · next hne => exact hne hc

/-- A path without backslashes keeps its text. -/
theorem relativeText_eq {path : List String} (h : '\\' ∉ partChars path) :
    relativeText path = "/".intercalate path := by
  have hnot : '\\' ∉ ("/".intercalate path).toList := by
    rw [← List.count_eq_zero, count_intercalate (by decide), List.count_eq_zero]
    exact h
  rw [← String.toList_inj, toList_relativeText]
  refine (List.map_congr_left fun c hc ↦ ?_).trans (List.map_id _)
  exact if_neg fun (hback : c = '\\') ↦ hnot (hback ▸ hc)

/-- The files of a module have the characters of the directory and of the parts, and others only
from `.py` and `__init__`. -/
theorem count_moduleFiles {directory parts path : List String} (hne : parts ≠ [])
    (hpath : path ∈ moduleFiles directory parts) {c : Char} (hc : c ∉ "__init__.py".toList) :
    (partChars path).count c = (partChars directory).count c + (partChars parts).count c := by
  have hinit : (partChars ["__init__.py"]).count c = 0 :=
    List.count_eq_zero.mpr (by simpa [partChars] using hc)
  obtain ⟨init, last, rfl⟩ := (List.eq_nil_or_concat parts).resolve_left hne
  simp only [List.concat_eq_append, moduleFiles, List.mem_cons, List.not_mem_nil, or_false] at hpath
  rcases hpath with rfl | rfl
  · have hpy : (".py".toList).count c = 0 := List.count_eq_zero.mpr fun h ↦ hc (by
      have hsuffix : ".py".toList <:+ "__init__.py".toList := by decide
      exact hsuffix.subset h)
    have hlast : partChars [last ++ ".py"] = partChars [last] ++ ".py".toList := by
      simp [partChars]
    simp only [List.concat_eq_append, List.dropLast_concat, List.getLastD_concat, partChars_append,
      hlast, List.count_append, hpy]
    omega
  · simp only [List.concat_eq_append, partChars_append, List.count_append, hinit]
    omega

/-- The number of parts of the files of a module. -/
theorem length_moduleFiles {directory parts path : List String} (hne : parts ≠ [])
    (hpath : path ∈ moduleFiles directory parts) :
    directory.length + parts.length ≤ path.length ∧
      path.length ≤ directory.length + parts.length + 1 := by
  have hpos : 0 < parts.length := List.length_pos_iff.mpr hne
  simp only [moduleFiles, List.mem_cons, List.not_mem_nil, or_false] at hpath
  rcases hpath with rfl | rfl
  · simp only [List.length_append, List.length_dropLast, List.length_singleton]
    omega
  · simp only [List.length_append, List.length_singleton]
    omega

theorem count_identifiers (name : DottedName) {c : Char}
    (hc : c ∈ '.' :: '/' :: '\\' :: extraChars) : (partChars name.identifiers).count c = 0 := by
  refine List.count_eq_zero.mpr fun hmem ↦ ?_
  obtain ⟨chars, hchars, hmem⟩ := List.mem_flatten.mp hmem
  obtain ⟨identifier, hidentifier, rfl⟩ := List.mem_map.mp hchars
  exact (DottedName.identifier_valid hidentifier).2 c hmem hc

/-- The files of identifiers below a directory without backslashes have none. -/
theorem relativeText_eq_of_mem {name : DottedName} {directory path : List String}
    (hdirectory : ∀ part ∈ directory, '\\' ∉ part.toList)
    (hpath : path ∈ moduleFiles directory name.identifiers) :
    relativeText path = "/".intercalate path := by
  have hnone : (partChars directory).count '\\' = 0 := by
    refine List.count_eq_zero.mpr fun hmem ↦ ?_
    obtain ⟨chars, hchars, hmem⟩ := List.mem_flatten.mp hmem
    obtain ⟨part, hpart, rfl⟩ := List.mem_map.mp hchars
    exact hdirectory part hpart hmem
  apply relativeText_eq
  rw [← List.count_eq_zero, count_moduleFiles name.identifiers_ne_nil hpath (by decide), hnone,
    count_identifiers name (by simp)]

/-! ### When the result is what the module denotes -/

section Main

variable (fs : FileSystem) (repo : List String) (file : RepoFile)

/-- The text of a path that a name with a gap spells is not that of a path that its identifiers
spell, unless that one is below a directory and the first is not. -/
theorem relativeText_ne_of_gap {name : DottedName} (hgap : name.HasGap)
    {directory directory' path path' : List String} (hdirectory : directory' <+: directory)
    (hpath : path ∈ moduleFiles directory name.spelled)
    (hpath' : path' ∈ moduleFiles directory' name.identifiers) :
    relativeText path ≠ "/".intercalate path' := by
  obtain ⟨c, hextra, part, hpart, hc⟩ := DottedName.exists_extra hgap
  have hfree : c ∉ "__init__.py".toList ∧ c ≠ '/' ∧ c ≠ '\\' := by
    have hall : (extraChars.all fun d ↦
        decide (d ∉ "__init__.py".toList ∧ d ≠ '/' ∧ d ≠ '\\')) = true := by decide
    exact of_decide_eq_true (List.all_eq_true.mp hall c hextra)
  obtain ⟨hinit, hslash, hback⟩ := hfree
  intro heq
  have hcount := congrArg (List.count c ∘ String.toList) heq
  simp only [Function.comp_apply] at hcount
  rw [toList_relativeText, count_slashed hslash hback, count_intercalate hslash,
    count_intercalate hslash, count_moduleFiles name.spelled_ne_nil hpath hinit,
    count_moduleFiles name.identifiers_ne_nil hpath' hinit] at hcount
  have hspelled : 0 < (partChars name.spelled).count c :=
    List.count_pos_iff.mpr (List.mem_flatten_of_mem (List.mem_map_of_mem hpart) hc)
  have hidentifiers := count_identifiers name (List.mem_append_right ['.', '/', '\\'] hextra)
  have hle : (partChars directory').count c ≤ (partChars directory).count c := by
    obtain ⟨rest, rfl⟩ := hdirectory
    rw [partChars_append, List.count_append]
    exact Nat.le_add_right _ _
  omega

/-- The text of a path below a directory with a backslash is that of no path that the module
denotes. -/
theorem relativeText_ne_of_backslash {name : DottedName}
    (hback : ∃ part ∈ file.directory, '\\' ∈ part.toList) {path path' : List String}
    (hpath : path ∈ moduleFiles file.directory name.identifiers)
    (hpath' : path' ∈ (ExtractedModule.python name).denoted file) :
    relativeText path ≠ "/".intercalate path' := by
  have hne := name.identifiers_ne_nil
  have hdirectory : 0 < (partChars file.directory).count '\\' := by
    obtain ⟨part, hpart, hc⟩ := hback
    exact List.count_pos_iff.mpr (List.mem_flatten_of_mem (List.mem_map_of_mem hpart) hc)
  have hlength : 0 < file.directory.length := by
    obtain ⟨part, hpart, -⟩ := hback
    exact List.length_pos_of_mem hpart
  intro heq
  rcases List.mem_append.mp hpath' with hpath' | hpath'
  · -- the denoted path has the backslash, and its text keeps it
    have hcount := congrArg (List.count '\\' ∘ String.toList) heq
    simp only [Function.comp_apply] at hcount
    rw [toList_relativeText, List.count_eq_zero.mpr (backslash_notMem_slashed _),
      count_intercalate (by decide), count_moduleFiles hne hpath' (by decide)] at hcount
    omega
  · -- a path at the root has fewer parts
    have hcount := congrArg (List.count '/' ∘ String.toList) heq
    simp only [Function.comp_apply] at hcount
    obtain ⟨hlower, -⟩ := length_moduleFiles hne hpath
    obtain ⟨hlower', hupper'⟩ := length_moduleFiles hne hpath'
    have hpos : 0 < name.identifiers.length := List.length_pos_iff.mpr hne
    have hnil : path ≠ [] := List.length_pos_iff.mp (by omega)
    have hnil' : path' ≠ [] := List.length_pos_iff.mp (by omega)
    have hslash := count_slash_intercalate hnil
    have hslash' := count_slash_intercalate hnil'
    rw [toList_relativeText, count_slash_slashed, count_intercalate (c := '\\') (by decide),
      count_moduleFiles hne hpath (c := '\\') (by decide)] at hcount
    rw [count_moduleFiles hne hpath' (by decide), count_identifiers name (by simp)] at hslash'
    have hempty : (partChars ([] : List String)).count '/' = 0 := rfl
    simp only [List.length_nil] at hupper'
    omega

/-- What is found first of the spelled paths is a file. In the importing directory, its path has no
backslash and nothing stands between the parts of the name; at the root, nothing stands there, or
the path reads as that of a file which the identifiers spell in the importing directory. -/
structure FindsOwnFile (name : DottedName) : Prop where
  package : ∀ path, firstFound fs repo (moduleFiles file.directory name.spelled) = some path →
    fs.stat (repo ++ path) = .file ∧ ¬ name.HasGap ∧ ∀ part ∈ file.directory, '\\' ∉ part.toList
  root : firstFound fs repo (moduleFiles file.directory name.spelled) = none → ∀ path,
    firstFound fs repo (moduleFiles [] name.spelled) = some path → fs.stat (repo ++ path) = .file ∧
      (name.HasGap → IsFileOf fs repo (moduleFiles file.directory name.identifiers)
        (relativeText path))

/-- The condition on a module: a bare specifier is never looked for. -/
def ExtractedModule.FindsOwnFile : ExtractedModule → Prop
  | .python name => isStdlib name.text = true ∨ Indexing.FindsOwnFile fs repo file name
  | .script _ _ => True

variable {fs repo file}

theorem foundResult_iff {paths : List (List String)} {path : List String} :
    (∃ result, foundResult fs repo (some path) = .ok result ∧
        ∀ text ∈ result, IsFileOf fs repo paths text) ↔
      fs.stat (repo ++ path) = .file ∧ IsFileOf fs repo paths (relativeText path) := by
  by_cases hfile : fs.stat (repo ++ path) = .file
  · simp [foundResult, hfile]
  · simp [foundResult, hfile]

theorem mem_of_firstFound {paths : List (List String)} {path : List String}
    (h : firstFound fs repo paths = some path) : path ∈ paths := List.mem_of_find?_eq_some h

/-- A file that is found in the importing directory is what the name denotes when nothing stands
between its parts and the directory has no backslash. -/
theorem isFileOf_package_iff {name : DottedName} {path : List String}
    (hfile : fs.stat (repo ++ path) = .file)
    (hpath : path ∈ moduleFiles file.directory name.spelled) :
    IsFileOf fs repo ((ExtractedModule.python name).denoted file) (relativeText path) ↔
      ¬ name.HasGap ∧ ∀ part ∈ file.directory, '\\' ∉ part.toList := by
  constructor
  · rintro ⟨path', hpath', -, heq⟩
    have hgap : ¬ name.HasGap := by
      intro hgap
      rcases List.mem_append.mp hpath' with hmem | hmem
      · exact relativeText_ne_of_gap hgap List.prefix_rfl hpath hmem heq
      · exact relativeText_ne_of_gap hgap List.nil_prefix hpath hmem heq
    rw [DottedName.spelled_eq_identifiers hgap] at hpath
    refine ⟨hgap, fun part hpart hback ↦ ?_⟩
    exact relativeText_ne_of_backslash file ⟨part, hpart, hback⟩ hpath hpath' heq
  · rintro ⟨hgap, hback⟩
    rw [DottedName.spelled_eq_identifiers hgap] at hpath
    exact ⟨path, List.mem_append_left _ hpath, hfile, relativeText_eq_of_mem hback hpath⟩

/-- A file that is found at the root is what the name denotes when nothing stands between its
parts, but for a path that reads as one below the importing directory. -/
theorem isFileOf_root_iff {name : DottedName} {path : List String}
    (hfile : fs.stat (repo ++ path) = .file) (hpath : path ∈ moduleFiles [] name.spelled) :
    IsFileOf fs repo ((ExtractedModule.python name).denoted file) (relativeText path) ↔
      (name.HasGap → IsFileOf fs repo (moduleFiles file.directory name.identifiers)
        (relativeText path)) := by
  constructor
  · rintro ⟨path', hpath', hfile', heq⟩ hgap
    rcases List.mem_append.mp hpath' with hmem | hmem
    · exact ⟨path', hmem, hfile', heq⟩
    · exact absurd heq (relativeText_ne_of_gap hgap List.prefix_rfl hpath hmem)
  · intro h
    by_cases hgap : name.HasGap
    · obtain ⟨path', hmem, hfile', heq⟩ := h hgap
      exact ⟨path', List.mem_append_left _ hmem, hfile', heq⟩
    · rw [DottedName.spelled_eq_identifiers hgap] at hpath
      have hnone : ∀ part ∈ ([] : List String), '\\' ∉ part.toList := fun _ h ↦ by cases h
      exact ⟨path, List.mem_append_right _ hpath, hfile, relativeText_eq_of_mem hnone hpath⟩

/-- A module is resolved to what it denotes exactly when it finds its own file. -/
theorem staysOnTarget_iff (m : ExtractedModule) :
    StaysOnTarget fs repo file m ↔ m.FindsOwnFile fs repo file := by
  cases m with
  | script text bare =>
    have hnone : resolveTsImport fs repo text file.text = .ok none := if_pos bare
    exact iff_of_true ⟨none, hnone, nofun⟩ trivial
  | python name =>
    simp only [StaysOnTarget, ExtractedModule.resolve, resolvePythonImport_eq,
      ExtractedModule.FindsOwnFile]
    by_cases hstdlib : isStdlib name.text = true
    · simp [hstdlib]
    · simp only [hstdlib, if_false, false_or, Bool.false_eq_true]
      cases hpackage : firstFound fs repo (moduleFiles file.directory name.spelled) with
      | some path =>
        have hpath := mem_of_firstFound hpackage
        rw [foundResult_iff]
        constructor
        · rintro ⟨hfile, hof⟩
          have hclean := (isFileOf_package_iff hfile hpath).mp hof
          exact ⟨fun path' hpath' ↦ Option.some.inj (hpackage.symm.trans hpath') ▸ ⟨hfile, hclean⟩,
            fun hnone ↦ by cases hpackage.symm.trans hnone⟩
        · intro h
          obtain ⟨hfile, hclean⟩ := h.package path hpackage
          exact ⟨hfile, (isFileOf_package_iff hfile hpath).mpr hclean⟩
      | none =>
        have hvacuous (P : List String → Prop) : ∀ path,
            firstFound fs repo (moduleFiles file.directory name.spelled) = some path → P path := by
          intro path hpath
          cases hpackage.symm.trans hpath
        cases hroot : firstFound fs repo (moduleFiles [] name.spelled) with
        | none =>
          refine iff_of_true ⟨none, rfl, nofun⟩ ⟨hvacuous _, fun _ path hpath ↦ ?_⟩
          cases hroot.symm.trans hpath
        | some path =>
          have hpath := mem_of_firstFound hroot
          rw [foundResult_iff]
          constructor
          · rintro ⟨hfile, hof⟩
            refine ⟨hvacuous _, fun _ path' hpath' ↦ ?_⟩
            obtain rfl := Option.some.inj (hroot.symm.trans hpath')
            exact ⟨hfile, (isFileOf_root_iff hfile hpath).mp hof⟩
          · intro h
            obtain ⟨hfile, hclean⟩ := h.root hpackage path hroot
            exact ⟨hfile, (isFileOf_root_iff hfile hpath).mpr hclean⟩

end Main

/-! ### Blanks around a dot -/

section Blanks

private theorem isIdentifier_of_all {text : String} (hne : text ≠ "")
    (h : (text.toList.all fun c ↦ decide (c ∉ '.' :: '/' :: '\\' :: extraChars)) = true) :
    IsIdentifier text :=
  ⟨hne, fun c hc ↦ of_decide_eq_true (List.all_eq_true.mp h c hc)⟩

private def blankName : DottedName where
  first := "a"
  rest := [⟨" ", " ", "b"⟩]
  first_valid := isIdentifier_of_all (by decide) (by decide)
  rest_valid := by
    intro p hp
    obtain rfl := List.mem_singleton.mp hp
    have hgap : IsGap " " := .inr ⟨' ', by decide, by decide⟩
    exact ⟨hgap, hgap, isIdentifier_of_all (by decide) (by decide)⟩

private def mainFile : RepoFile where
  directory := []
  name := "main.py"
  valid := by decide

/-- A repository with the file ` b.py` in the directory `a `. -/
private def blankFiles : FileSystem where
  stat path := if path = ["srv", "app", "a ", " b.py"] ∨ path = ["srv", "app", "main.py"] then .file
    else .other
  resolve := some

/-- The module `a . b` is resolved to a file of other names. -/
theorem not_staysOnTarget_blankName :
    ¬ StaysOnTarget blankFiles ["srv", "app"] mainFile (.python blankName) := by
  rintro ⟨result, hresult, hof⟩
  have hfound : resolvePythonImport blankFiles ["srv", "app"] blankName.text mainFile.text =
      .ok (some "a / b.py") := by
    rfl
  obtain rfl := Except.ok.inj (hfound.symm.trans hresult)
  obtain ⟨path, hpath, -, htext⟩ := hof "a / b.py" rfl
  have hne : ∀ path ∈ (ExtractedModule.python blankName).denoted mainFile,
      "a / b.py" ≠ "/".intercalate path := by
    decide
  exact hne path hpath htext

end Blanks

end GithubAgent.Indexing
