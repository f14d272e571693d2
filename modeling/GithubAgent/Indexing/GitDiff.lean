import GithubAgent.Base.TextLines
import GithubAgent.Indexing.Queries

/-!
# The changes of a diff

`_parse_git_diff` of `src/shared/code_graph.py`, which `detect_changes_from_diff` runs on the output
of `git diff --unified=0`, and the format of that output.
-/

namespace GithubAgent.Indexing.GitDiff

open GithubAgent.Base GithubAgent.Indexing.SymbolIndex

/-! ### The parser -/

/-- The decimal digits, for `\d` and `int`, which know those of all scripts. -/
structure Digits where
  value : Char → Option Nat
  ascii : ∀ c, c.toNat < 128 → value c = if c.isDigit then some (c.toNat - '0'.toNat) else none

section Parser

variable (u : Digits)

/-- The text behind a word. -/
def expect (word : String) (text : List Char) : Option (List Char) :=
  if word.toList.isPrefixOf text then some (text.drop word.length) else none

/-- `\d+`, and what is behind it. -/
def readNumber (text : List Char) : Option (Nat × List Char) :=
  let digits := text.takeWhile fun c ↦ (u.value c).isSome
  if digits = [] then none
  else some (digits.foldl (fun n c ↦ 10 * n + (u.value c).getD 0) 0, text.drop digits.length)

/-- `(?:,\d+)?`. Behind it stands a space, so that a comma has to be followed by a number. -/
def readCount (text : List Char) : Option (Option Nat × List Char) :=
  match text with
  | ',' :: rest => (readNumber u rest).map fun (n, rest) ↦ (some n, rest)
  | _ => some (none, text)

/-- The match of `@@ -\d+(?:,\d+)? \+(\d+)(?:,(\d+))? @@`, and the range it comes to. -/
def hunkRange (line : List Char) : Option (Int × Int) := do
  let rest ← expect "@@ -" line
  let (_, rest) ← readNumber u rest
  let (_, rest) ← readCount u rest
  let rest ← expect " +" rest
  let (start, rest) ← readNumber u rest
  let (count, rest) ← readCount u rest
  let _ ← expect " @@" rest
  some ((start : Int), (start : Int) + (count.getD 1 : Nat) - 1)

/-- The variables of the parser. -/
structure ParseState where
  changes : List ChangedRanges := []
  staleFiles : List String := []
  src : Option String := none
  dst : Option String := none
  ranges : List (Int × Int) := []

/-- The truth value of a path that may be missing. -/
def truthy (path : Option String) : Bool := path ≠ none && path ≠ some ""

/-- `flush`. -/
def ParseState.flush (s : ParseState) : ParseState :=
  { s with
    changes :=
      if truthy s.dst ∧ s.ranges ≠ [] then s.changes ++ [⟨s.dst.getD "", s.ranges⟩] else s.changes
    dst := none
    ranges := [] }

/-- One line. -/
def step (s : ParseState) (line : List Char) : ParseState :=
  if "--- a/".toList.isPrefixOf line then
    { s.flush with src := some (String.ofList (line.drop 6)) }
  else if "+++ b/".toList.isPrefixOf line then
    let dst := String.ofList (line.drop 6)
    { s with
      dst := some dst
      staleFiles :=
        if truthy s.src ∧ s.src ≠ some dst then s.staleFiles ++ [s.src.getD ""] else s.staleFiles
      src := none }
  else if "@@".toList.isPrefixOf line ∧ truthy s.dst then
    match hunkRange u line with
    | some range => { s with ranges := s.ranges ++ [range] }
    | none => s
  else s

/-- What is left at the end of the output. -/
def ParseState.finish (s : ParseState) : List ChangedRanges × List String :=
  let s := s.flush
  (s.changes,
    if truthy s.src ∧ !truthy s.dst then s.staleFiles ++ [s.src.getD ""] else s.staleFiles)

/-- `_parse_git_diff` (`code_graph.py:1880-1925`). -/
def parseGitDiff (diffOutput : String) : List ChangedRanges × List String :=
  ((splitlines diffOutput.toList).foldl (step u) {}).finish

/-- The first part of `detect_changes_from_diff`: what the command comes to, and the files that are
cleared (`code_graph.py:756-775`). -/
def diffResult (returnCode : Int) (stdout stderr : String) : DiffResult :=
  if returnCode ≠ 0 then .failed stderr
  else .parsed (parseGitDiff u stdout).1 (parseGitDiff u stdout).2

end Parser

/-! ### The output of git -/

/-- A hunk without context: the lines that are removed and added, and whether the last ones of the
file have no newline. -/
structure Hunk where
  oldStart : Nat
  newStart : Nat
  removed : List String
  added : List String
  removedEnd : Bool
  addedEnd : Bool
  heading : String

/-- `start,count`, where a count of one is left out. -/
def span (start count : Nat) : String :=
  if count = 1 then toString start else toString start ++ "," ++ toString count

/-- The header up to its second `@@`. -/
def Hunk.mark (h : Hunk) : String :=
  "@@ -" ++ span h.oldStart h.removed.length ++ " +" ++ span h.newStart h.added.length ++ " @@"

def noNewline (missing : Bool) : List String :=
  if missing then ["\\ No newline at end of file"] else []

/-- The lines of a hunk below its header. -/
def Hunk.body (h : Hunk) : List String :=
  h.removed.map ("-" ++ ·) ++ noNewline h.removedEnd ++ h.added.map ("+" ++ ·) ++
    noNewline h.addedEnd

/-- The lines of the new version. -/
def Hunk.range (h : Hunk) : Int × Int := (h.newStart, (h.newStart : Int) + h.added.length - 1)

/-- What has happened to a file. -/
inductive Change where
  | modified (path : String)
  | added (path : String)
  | deleted (path : String)
  | renamed (old new : String) (moved : old ≠ new)

/-- A file of the diff. Mode, rename, index and binary lines all begin with a letter; without a hunk
there are no other lines. -/
structure FileDiff where
  change : Change
  extended : List String
  letters : ∀ line ∈ extended, (∀ c ∈ line.toList, isLineBreak c = false) ∧
    ∃ c rest, line.toList = c :: rest ∧ c.isAlpha = true
  hunks : List Hunk

/-- Whether git quotes a path. -/
def needsQuotes (path : String) : Bool :=
  path.toList.any fun c ↦ c.toNat < 32 || 127 ≤ c.toNat || c = '"' || c = '\\'

/-- A path behind its prefix, quoted if it has to be, and with a tab if it holds a space. -/
def label (quoted : String → String) (start path : String) : String :=
  (if needsQuotes path then "\"" ++ quoted (start ++ path) ++ "\"" else start ++ path) ++
    if ' ' ∈ path.toList then "\t" else ""

/-- The two lines that name the versions of the file. -/
def Change.names (quoted : String → String) : Change → List String
  | .modified path => ["--- " ++ label quoted "a/" path, "+++ " ++ label quoted "b/" path]
  | .added path => ["--- /dev/null", "+++ " ++ label quoted "b/" path]
  | .deleted path => ["--- " ++ label quoted "a/" path, "+++ /dev/null"]
  | .renamed old new _ => ["--- " ++ label quoted "a/" old, "+++ " ++ label quoted "b/" new]

def Hunk.lines (h : Hunk) : List String :=
  (h.mark ++ if h.heading = "" then "" else " " ++ h.heading) :: h.body

def FileDiff.lines (quoted : String → String) (f : FileDiff) : List String :=
  f.extended ++
    if f.hunks = [] then [] else f.change.names quoted ++ f.hunks.flatMap Hunk.lines

/-- The output of `git diff --unified=0`. -/
def render (quoted : String → String) (files : List FileDiff) : String :=
  String.ofList ((files.flatMap (FileDiff.lines quoted)).flatMap fun line ↦ line.toList ++ ['\n'])

/-! ### What is to be reported -/

/-- The path in the new version. -/
def Change.newPath : Change → Option String
  | .modified path | .added path | .renamed _ path _ => some path
  | .deleted _ => none

/-- The path that is gone. -/
def Change.stalePath : Change → Option String
  | .deleted path | .renamed path _ _ => some path
  | .modified _ | .added _ => none

/-- The new lines of the file. -/
def FileDiff.newRanges (f : FileDiff) : List (Int × Int) :=
  (f.hunks.filter fun h ↦ h.added ≠ []).map Hunk.range

/-- The entry of a file that has new lines. -/
def FileDiff.changed (f : FileDiff) : Option ChangedRanges :=
  if f.newRanges = [] then none else f.change.newPath.map (⟨·, f.newRanges⟩)

/-- The parser reads the output of git for what it is. -/
def Exact (u : Digits) (quoted : String → String) (files : List FileDiff) : Prop :=
  parseGitDiff u (render quoted files) =
    (files.filterMap FileDiff.changed, files.filterMap (·.change.stalePath))

end GithubAgent.Indexing.GitDiff
