import GithubAgent.Base.TextLines
import GithubAgent.Base.WordSearch
import GithubAgent.Indexing.ImportResolver

/-!
# Searching the code base for a word

`_search_with_rg` and `_search_with_re` of `src/mcp_servers/codebase_tools/tools.py` on the pattern
that `find_references` builds of a symbol's name. What ripgrep prints and the character tables of
`re` are given.
-/

namespace GithubAgent.Indexing

open GithubAgent.Base GithubAgent.Webhook

/-! ### The repository -/

/-- A file below the repository: its directories, its name and its text, unless it cannot be
read. -/
structure SearchFile where
  directory : List String
  name : String
  text : Option (List Char)

def SearchFile.path (f : SearchFile) : List String := f.directory ++ [f.name]

/-- The path as it is reported. -/
def SearchFile.relPath (f : SearchFile) : String := relativeText f.path

/-- A repository without hidden or ignored files: the path of its directory, and its files in the
order in which `os.walk` reaches them with the directories sorted. -/
structure SearchRepo where
  root : List Char
  files : List SearchFile
  visible : ∀ f ∈ files, ∀ part ∈ f.path, part.toList.head? ≠ some '.'

/-- The characters of words for `re`, and the characters that `re.IGNORECASE` takes for the same. -/
structure CharTables where
  isWord : Char → Bool
  sameCase : Char → Char → Bool
  sameCase_refl : ∀ c, sameCase c c = true

/-- What is raised. -/
inductive SearchError where
  | attributeError
  deriving DecidableEq

/-- An entry of the results. -/
structure SearchResult where
  file : String
  line : Nat
  matched : String
  context : String
  deriving DecidableEq

/-- The place of a result. -/
def SearchResult.place (r : SearchResult) : String × Nat := (r.file, r.line)

/-- `rstrip()`. -/
def rstrip (text : List Char) : String := String.ofList (text.reverse.dropWhile isSpace).reverse

/-! ### ripgrep -/

/-- `_FILE_TYPE_MAP` (`tools.py:47-57`). -/
def fileTypeMap : List (String × String) :=
  [("python", "py"), ("js", "js"), ("ts", "ts"), ("go", "go"), ("rust", "rust"), ("java", "java"),
    ("ruby", "ruby"), ("c", "c"), ("cpp", "cpp")]

/-- The value of `--type`, if it is given (`tools.py:444-446`). -/
def rgType (fileType : Option String) : Option String :=
  (fileType.filter (· ≠ "")).map fun t ↦ (fileTypeMap.lookup t).getD t

/-- A message of type `match` on the output: the path below the repository, the number of the line,
the line, and the text of its first match. -/
structure RgMatch where
  path : List String
  lineNumber : Nat
  lines : List Char
  submatch : List Char

/-- ripgrep: its characters of words, the names that belong to a type, and the order in which it
reaches files. Of a message that is cut, `readsAsValue` has the parts that `json.loads` reads as a
value other than an object. -/
structure Ripgrep where
  isWord : Char → Bool
  hasType : String → String → Bool
  order : List SearchFile → List SearchFile
  order_perm : ∀ files, (order files).Perm files
  readsAsValue : List Char → Bool

section Search

variable (tables : CharTables) (rg : Ripgrep) (repo : SearchRepo) (symbol : List Char)
  (fileType : Option String)

/-- The file is of the type, or no type is given. -/
def Ripgrep.Searches (f : SearchFile) : Prop := ∀ t ∈ rgType fileType, rg.hasType t f.name = true

instance (f : SearchFile) : Decidable (rg.Searches fileType f) :=
  inferInstanceAs (Decidable (∀ t ∈ _, _))

/-- The lines that ripgrep counts, from 1. -/
def rgLines (f : SearchFile) : List (List Char × Nat) :=
  match f.text with
  | some text => (text.splitOn '\n').zipIdx 1
  | none => []

/-- The message for a line that has the word as it is. -/
def rgMatch (f : SearchFile) (line : List Char × Nat) : Option RgMatch :=
  (searchWord (· == ·) rg.isWord symbol none line.1).map fun m ↦
    { path := f.path
      lineNumber := line.2
      lines := line.1
      submatch := m }

/-- What ripgrep prints: up to `--max-count` lines of each file of the type. -/
def rgOutput (maxCount : Nat) : List RgMatch :=
  ((rg.order repo.files).filter (rg.Searches fileType ·)).flatMap fun f ↦
    ((rgLines f).filterMap (rgMatch rg symbol f)).take maxCount

/-- A line break that JSON does not escape: U+0085, U+2028 and U+2029. `stdout.splitlines()` cuts a
message there. -/
def isRawBreak (c : Char) : Bool := c.toNat ∈ [133, 8232, 8233]

/-- The texts of a message, a path and a line. -/
def messageTexts (root : List Char) (path : List String) (line : List Char) : List (List Char) :=
  [root ++ '/' :: ("/".intercalate path).toList, line]

/-- The message is not cut. -/
def isWhole (texts : List (List Char)) : Bool := texts.all (·.all (!isRawBreak ·))

/-- A part of a text between two cuts is read as a value without `get`. The parts that the rest of
the message belongs to are no JSON. -/
def hasValuePart (texts : List (List Char)) : Bool :=
  texts.any fun text ↦ ((text.splitOnP isRawBreak).drop 1).dropLast.any rg.readsAsValue

/-- The entry for a message, unless it is cut: no part of it is a message then. -/
def RgMatch.entry (m : RgMatch) : Option SearchResult :=
  if isWhole (messageTexts repo.root m.path m.lines) then
    some
      { file := relativeText m.path
        line := m.lineNumber
        matched := String.ofList m.submatch
        context := rstrip m.lines }
  else none

/-- `_parse_rg_json_line` on a message or on its parts (`tools.py:464-505`). -/
def parseRgMatch (m : RgMatch) : Except SearchError (Option SearchResult) :=
  if hasValuePart rg (messageTexts repo.root m.path m.lines) then .error .attributeError
  else .ok (m.entry repo)

/-! ### The fallback -/

/-- `EXCLUDE_DIRS` (`file_tree.py:25-51`). -/
def excludeDirs : List String :=
  ["node_modules", "vendor", "third_party", "__pycache__", ".git", ".venv", "venv", "env", "dist",
    "build", ".tox", ".mypy_cache", ".pytest_cache", ".ruff_cache", "site-packages", "egg-info",
    ".eggs", ".hg", ".svn", ".idea", ".vscode", ".fleet", ".cargo"]

/-- `type_to_ext` (`tools.py:523-531`). -/
def typeToExt : List (String × List String) :=
  [("python", [".py"]), ("js", [".js", ".jsx", ".mjs"]), ("ts", [".ts", ".tsx"]), ("go", [".go"]),
    ("rust", [".rs"]), ("java", [".java"]), ("ruby", [".rb"])]

/-- `allowed_ext`; an empty set filters nothing (`tools.py:532-534`). -/
def allowedExt : List String :=
  ((fileType.filter (· ≠ "")).bind fun t ↦ typeToExt.lookup t).getD []

/-- `filepath.suffix.lower()`. -/
def suffixLower (name : String) : String :=
  String.ofList ((name.toList.drop (nameStem name).length).map Char.toLower)

/-- The fallback reads the file: no directory is left out, and the suffix is allowed. -/
def ReadByFallback (f : SearchFile) : Prop :=
  (∀ part ∈ f.directory, part ∉ excludeDirs ∧ part.toList.head? ≠ some '.') ∧
    (allowedExt fileType = [] ∨ suffixLower f.name ∈ allowedExt fileType)

instance (f : SearchFile) : Decidable (ReadByFallback fileType f) :=
  inferInstanceAs (Decidable (_ ∧ _))

/-- The lines of `splitlines`, counted from 1. -/
def reLines (f : SearchFile) : List (List Char × Nat) :=
  match f.text with
  | some text => (splitlines text).zipIdx 1
  | none => []

/-- The result for a line that has the word in any case. -/
def reResult (f : SearchFile) (line : List Char × Nat) : Option SearchResult :=
  (searchWord tables.sameCase tables.isWord symbol none line.1).map fun m ↦
    { file := f.relPath
      line := line.2
      matched := String.ofList m
      context := rstrip line.1 }

/-- The loop over the files, with the results so far (`tools.py:538-572`). When there are enough,
the loop of each further directory ends at once. -/
def searchFiles (maxResults : Nat) (results : List SearchResult) :
    List SearchFile → List SearchResult
  | [] => results
  | f :: rest =>
    if maxResults ≤ results.length then results
    else if ReadByFallback fileType f then
      searchFiles maxResults (collect maxResults (reResult tables symbol f) results (reLines f))
        rest
    else searchFiles maxResults results rest

/-- `_search_with_re` (`tools.py:508-574`). -/
def searchWithRe (maxResults : Nat) : List SearchResult :=
  searchFiles tables symbol fileType maxResults [] repo.files

/-- `_search_with_rg`, with what ripgrep printed unless it failed (`tools.py:423-473`). -/
def searchWithRg (output : Option (List RgMatch)) (maxResults : Nat) :
    Except SearchError (List SearchResult) :=
  match output with
  | none => .ok (searchWithRe tables repo symbol fileType maxResults)
  | some found => collectOrFail maxResults (parseRgMatch rg repo) [] found

/-- `search_codebase` for a text, with ripgrep where it is installed (`tools.py:382-420`). -/
def searchCodebase (installed : Bool) (maxResults : Nat) :
    Except SearchError (List SearchResult) :=
  let maxResults := min (max 1 maxResults) 100
  if installed then
    searchWithRg tables rg repo symbol fileType (some (rgOutput rg repo symbol fileType maxResults))
      maxResults
  else .ok (searchWithRe tables repo symbol fileType maxResults)

/-- An entry of the references. -/
structure Reference where
  file : String
  line : Nat
  context : String
  deriving DecidableEq

def Reference.place (r : Reference) : String × Nat := (r.file, r.line)

/-- The loop of `find_references`, with the places seen so far (`tools.py:362-379`). -/
def referencesIn (definitionLines : List (String × Nat)) :
    (seen : List (String × Nat)) → List SearchResult → List Reference
  | _, [] => []
  | seen, r :: rest =>
    if definitionLines.contains r.place then referencesIn definitionLines seen rest
    else if seen.contains r.place then referencesIn definitionLines seen rest
    else
      { file := r.file
        line := r.line
        context := r.context } :: referencesIn definitionLines (r.place :: seen) rest

/-- `find_references`, given the places of the definitions (`tools.py:336-379`). -/
def findReferences (installed : Bool) (definitionLines : List (String × Nat)) :
    Except SearchError (List Reference) :=
  (searchCodebase tables rg repo symbol none installed 50).map (referencesIn definitionLines [])

end Search

end GithubAgent.Indexing
