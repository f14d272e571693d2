import GithubAgent.Base.Strings
import GithubAgent.Indexing.TextSearch
import Mathlib.Data.List.Sort

/-!
# The file tree of a repository

`src/shared/file_tree.py` goes through a checkout in two ways: `walk_source_files` yields the files
to index, and `generate_file_tree` lists what an agent is shown. What the ignore files match and how
a name is written in lower case are given.
-/

namespace GithubAgent.Indexing.FileTree

open GithubAgent.Base

/-- What a name in a directory stands for. A directory may be reached through a symbolic link. -/
inductive Node where
  | file
  | dir (linked : Bool) (entries : List (String × Node))

/-- `e.is_dir()`. -/
def Node.isDir : Node → Bool
  | .file => false
  | .dir _ _ => true

/-- A name, with the directories above it, of which each may be a link. -/
structure Place where
  dirs : List (String × Bool)
  name : String

/-- The ignore files of the repository: what they match, if there is anything in them. -/
abbrev IgnoreSpec := Option (String → Bool)

/-! ### What is left out -/

/-- `EXCLUDE_FILES` (`file_tree.py:54-65`). -/
def excludeFiles : List String :=
  ["package-lock.json", "yarn.lock", "pnpm-lock.yaml", "Gemfile.lock", "poetry.lock", "uv.lock",
    ".DS_Store", "Thumbs.db"]

/-- `EXCLUDE_SUFFIXES` (`file_tree.py:67-83`). -/
def excludeSuffixes : List String :=
  [".min.js", ".min.css", ".bundle.js", ".pb.go", "_pb2.py", "_pb2.pyi", "_pb2_grpc.py", ".pyc",
    ".pyo", ".so", ".dylib", ".dll", ".exe"]

/-- `_should_exclude_dir` (`file_tree.py:174-175`). -/
def shouldExcludeDir (name : String) : Bool :=
  excludeDirs.contains name || ".".toList.isPrefixOf name.toList

/-- `_should_exclude_file` (`file_tree.py:178-181`). -/
def shouldExcludeFile (name : String) : Bool :=
  excludeFiles.contains name || excludeSuffixes.any fun s ↦ s.toList.isSuffixOf name.toList

/-- The path of a name in a directory. -/
def relText (dirs : List (String × Bool)) (name : String) : String :=
  "/".intercalate (dirs.map Prod.fst ++ [name])

/-- `str(Path(root).relative_to(repo_path)).replace("\\", "/")`. -/
def rootText (dirs : List (String × Bool)) : String :=
  String.ofList <| ("/".intercalate (dirs.map Prod.fst)).toList.map fun c ↦
    if c = '\\' then '/' else c

/-- `f"\x7brel_root\x7d/\x7bname\x7d" if rel_root else name`. -/
def walkText (dirs : List (String × Bool)) (name : String) : String :=
  if rootText dirs = "" then name else rootText dirs ++ "/" ++ name

/-- `ignore_spec.match_file`, for a directory with and without a slash. -/
def isIgnored (spec : IgnoreSpec) (rel : String) (isDir : Bool) : Bool :=
  match spec with
  | none => false
  | some matchFile => if isDir then matchFile (rel ++ "/") || matchFile rel else matchFile rel

/-- What is kept of a directory: the directories to enter and the files. -/
structure Rules where
  dir : List (String × Bool) → String × Bool → Bool
  file : List (String × Bool) → String → Bool

section Rules

variable (lower : String → String) (spec : IgnoreSpec)

/-- The rules of `generate_file_tree` (`file_tree.py:236-244`). -/
def treeRules : Rules where
  dir := fun dirs d ↦ !(shouldExcludeDir d.1 || isIgnored spec (relText dirs d.1) true)
  file := fun dirs name ↦ !(shouldExcludeFile name || isIgnored spec (relText dirs name) false)

/-- `.generated.`, `.min.` and `.bundle.`. -/
def generatedParts : List String := [".generated.", ".min.", ".bundle."]

/-- A name that only `walk_source_files` leaves out. -/
def isGenerated (name : String) : Bool :=
  name == ".git" || generatedParts.any fun part ↦ occursIn part (lower name)

/-- The rules of `walk_source_files` (`file_tree.py:145-170`); `os.walk` enters no link. -/
def walkRules : Rules where
  dir := fun dirs d ↦
    !(shouldExcludeDir d.1 || isIgnored spec (walkText dirs d.1) true) && !d.2
  file := fun dirs name ↦
    !(isGenerated lower name || shouldExcludeFile name ||
      isIgnored spec (walkText dirs name) false)

end Rules

/-! ### The files to index -/

section Walk

variable (rules : Rules)

mutual

/-- The files below a directory. -/
def walkNode (dirs : List (String × Bool)) : Node → List Place
  | .file => []
  | .dir _ entries =>
    ((entries.filter fun e ↦ !e.2.isDir && rules.file dirs e.1).map Prod.fst |>.insertionSort
      (· ≤ ·)).map (⟨dirs, ·⟩) ++
      ((walkDirs dirs entries).insertionSort (·.1 ≤ ·.1)).flatMap Prod.snd

/-- The directories to enter, with the files below each. -/
def walkDirs (dirs : List (String × Bool)) : List (String × Node) → List (String × List Place)
  | [] => []
  | (_, .file) :: rest => walkDirs dirs rest
  | (name, .dir linked entries) :: rest =>
    if rules.dir dirs (name, linked) then
      (name, walkNode (dirs ++ [(name, linked)]) (.dir linked entries)) :: walkDirs dirs rest
    else walkDirs dirs rest

end

end Walk

/-- `walk_source_files` (`file_tree.py:113-171`). -/
def walkSourceFiles (lower : String → String) (spec : IgnoreSpec)
    (entries : List (String × Node)) : List Place :=
  walkNode (walkRules lower spec) [] (.dir false entries)

/-! ### The tree -/

/-- A line of the tree. -/
inductive TreeLine where
  | root (name : String)
  | entry (lead : String) (place : Place) (isDir : Bool)
  | truncated (lead : String) (more : Nat)

/-- The text of a line. -/
def TreeLine.text : TreeLine → String
  | .root name => name ++ "/"
  | .entry lead place isDir => lead ++ place.name ++ if isDir then "/" else ""
  | .truncated lead more => lead ++ "... (truncated, " ++ toString more ++ " more entries)"

/-- `lines` and `entry_count`. -/
structure Listing where
  lines : List TreeLine
  entryCount : Nat

section Tree

variable (lower : String → String) (spec : IgnoreSpec) (maxEntries : Nat)

/-- The sort key `(not e.is_dir(), e.name.lower())` of one entry is not behind that of another. -/
def sortsBefore (a b : String × Node) : Prop :=
  match a.2.isDir, b.2.isDir with
  | true, false => True
  | false, true => False
  | _, _ => lower a.1 ≤ lower b.1

instance : DecidableRel (sortsBefore lower) := fun a b ↦ by
  unfold sortsBefore
  split <;> infer_instance

/-- A file or a directory that is kept. -/
def Rules.keeps (rules : Rules) (dirs : List (String × Bool)) : String × Node → Bool
  | (name, .file) => rules.file dirs name
  | (name, .dir linked _) => rules.dir dirs (name, linked)

/-- `visible` (`file_tree.py:227-244`). -/
def visible (dirs : List (String × Bool)) (entries : List (String × Node)) :
    List (String × Node) :=
  (entries.insertionSort (sortsBefore lower)).filter ((treeRules spec).keeps dirs)

/-- The loop over the entries of a directory, with what enters a directory
(`file_tree.py:246-263`). -/
def listEntries (enter : String → List (String × Bool) → List (String × Node) → Listing → Listing)
    (lead : String) (dirs : List (String × Bool)) : List (String × Node) → Listing → Listing
  | [], w => w
  | (name, node) :: rest, w =>
    if maxEntries ≤ w.entryCount then
      { w with lines := w.lines ++ [.truncated lead (rest.length + 1)] }
    else
      let connector := if rest.isEmpty then "└── " else "├── "
      let childPrefix := if rest.isEmpty then "    " else "│   "
      let w : Listing :=
        ⟨w.lines ++ [.entry (lead ++ connector) ⟨dirs, name⟩ node.isDir], w.entryCount + 1⟩
      listEntries enter lead dirs rest
        (match node with
        | .file => w
        | .dir linked entries => enter (lead ++ childPrefix) (dirs ++ [(name, linked)]) entries w)

/-- `_walk` (`file_tree.py:223-263`), with the levels that are left up to `max_depth`. -/
def walk : (left : Nat) → String → List (String × Bool) → List (String × Node) → Listing → Listing
  | 0, _, _, _, w => w
  | left + 1, lead, dirs, entries, w =>
    if maxEntries ≤ w.entryCount then w
    else listEntries maxEntries (walk left) lead dirs (visible lower spec dirs entries) w

/-- The lines of `generate_file_tree` (`file_tree.py:184-274`). -/
def generateFileTree (rootName : String) (entries : List (String × Node)) (maxDepth : Nat) :
    List TreeLine :=
  (walk lower spec maxEntries maxDepth "" [] entries ⟨[.root rootName], 0⟩).lines

end Tree

end GithubAgent.Indexing.FileTree
