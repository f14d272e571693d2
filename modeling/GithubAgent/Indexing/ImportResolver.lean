import GithubAgent.Base.Separators
import GithubAgent.Shared.Conversation

/-!
# Import resolution

`resolve_python_import` and `resolve_ts_import` of `src/shared/import_resolver.py`, which find the
file of a module, with the parts of `pathlib` that they use. A path is the list of its parts, from
the root of the file system on.
-/

namespace GithubAgent.Indexing

open GithubAgent.Base GithubAgent.Shared

/-! ### Paths -/

/-- What `stat` says of a path: a regular file, something else or nothing, or an error that
`is_file` raises: any but `ENOENT`, `ENOTDIR`, `EBADF` and `ELOOP`. -/
inductive Stat where
  | file
  | other
  | error
  deriving DecidableEq

/-- The file system. `resolve` follows the links of a path, and fails in a loop of them. -/
structure FileSystem where
  stat : List String → Stat
  resolve : List String → Option (List String)

/-- What is raised. -/
inductive PathError where
  | osError
  | valueError
  | runtimeError
  deriving DecidableEq

/-- A name without its suffix: what begins with the last dot, which is neither the first nor the
last character. -/
def nameStem (name : String) : String :=
  let chars := name.toList
  let behind := (chars.reverse.takeWhile (· ≠ '.')).length
  if '.' ∈ chars ∧ behind ≠ 0 ∧ behind + 1 < chars.length then
    String.ofList (chars.take (chars.length - behind - 1))
  else name

/-- `with_suffix`, which replaces the suffix of the last part. -/
def withSuffix (path : List String) (suffix : String) : Except PathError (List String) :=
  match path.getLast? with
  | some name => .ok (path.dropLast ++ [nameStem name ++ suffix])
  | none => .error .valueError

/-- `relative_to`, or `none` for its `ValueError`. -/
def relativeTo (path base : List String) : Option (List String) :=
  if base.isPrefixOf path then some (path.drop base.length) else none

/-- `.replace("\\", "/")`. -/
def slashed (text : List Char) : List Char := text.map fun c ↦ if c = '\\' then '/' else c

/-- `str(path).replace("\\", "/")` of a relative path. -/
def relativeText (path : List String) : String :=
  String.ofList (slashed ("/".intercalate path).toList)

/-- `.replace(".", "/")`. -/
def dotsToSlashes (text : String) : String :=
  String.ofList (text.toList.map fun c ↦ if c = '.' then '/' else c)

/-- The first of the candidates for which `is_file` holds. -/
def firstFile (fs : FileSystem) : List (List String) → Except PathError (Option (List String))
  | [] => .ok none
  | candidate :: rest =>
    match fs.stat candidate with
    | .file => .ok (some candidate)
    | .other => firstFile fs rest
    | .error => .error .osError

/-! ### The resolvers -/

/-- `_PY_STDLIB` (`import_resolver.py:14-75`). -/
def pyStdlib : List String :=
  ["abc", "argparse", "asyncio", "base64", "collections", "concurrent", "contextlib", "copy",
    "csv", "dataclasses", "datetime", "decimal", "enum", "functools", "glob", "hashlib",
    "http", "importlib", "inspect", "io", "itertools", "json", "logging", "math",
    "multiprocessing", "operator", "os", "pathlib", "pickle", "platform", "pprint", "queue",
    "random", "re", "shlex", "shutil", "signal", "socket", "sqlite3", "ssl", "string",
    "struct", "subprocess", "sys", "tempfile", "textwrap", "threading", "time", "traceback",
    "types", "typing", "unittest", "urllib", "uuid", "warnings", "weakref", "xml", "zipfile"]

/-- `is_stdlib` (`import_resolver.py:78-81`). -/
def isStdlib (modulePath : String) : Bool :=
  decide (String.ofList (modulePath.toList.takeWhile (· ≠ '.')) ∈ pyStdlib)

section Resolvers

variable (fs : FileSystem) (repo : List String)

/-- `_find_module` (`import_resolver.py:203-216`). -/
def findModule (base : List String) : Except PathError (Option String) :=
  match withSuffix base ".py" with
  | .error e => .error e
  | .ok moduleFile =>
    match firstFile fs [moduleFile, base ++ ["__init__.py"]] with
    | .error e => .error e
    | .ok none => .ok none
    | .ok (some candidate) => .ok ((relativeTo candidate repo).map relativeText)

/-- `_resolve_relative` (`import_resolver.py:177-200`). -/
def resolveRelative (modulePath : String) (fromDir : List String) :
    Except PathError (Option String) :=
  let dots := (modulePath.toList.takeWhile (· = '.')).length
  let rest := String.ofList (modulePath.toList.dropWhile (· = '.'))
  let targetDir := Nat.repeat List.dropLast (dots - 1) fromDir
  findModule fs repo (if rest = "" then targetDir else joinPath targetDir (dotsToSlashes rest))

/-- `(repo_path / from_file).parent`. -/
def importingDir (fromFile : String) : List String := (joinPath repo fromFile).dropLast

/-- `resolve_python_import` (`import_resolver.py:84-125`). -/
def resolvePythonImport (modulePath fromFile : String) : Except PathError (Option String) :=
  if isStdlib modulePath then .ok none
  else if modulePath.toList.head? = some '.' then
    resolveRelative fs repo modulePath (importingDir repo fromFile)
  else
    match findModule fs repo (joinPath (importingDir repo fromFile) (dotsToSlashes modulePath)) with
    | .ok none => findModule fs repo (joinPath repo (dotsToSlashes modulePath))
    | result => result

/-- The candidates of `resolve_ts_import` (`import_resolver.py:155-166`). -/
def tsCandidates (target : List String) : Except PathError (List (List String)) :=
  match [".ts", ".tsx", ".js", ".jsx", ".mjs", ".cjs"].mapM (withSuffix target) with
  | .error e => .error e
  | .ok files => .ok (files ++ [".ts", ".tsx", ".js", ".jsx"].map fun ext ↦
      target ++ ["index" ++ ext])

/-- `resolve_ts_import` (`import_resolver.py:128-169`). A candidate outside the repository
raises. -/
def resolveTsImport (modulePath fromFile : String) : Except PathError (Option String) :=
  if modulePath.toList.head? ≠ some '.' then .ok none
  else
    match fs.resolve (joinPath (importingDir repo fromFile) modulePath) with
    | none => .error .runtimeError
    | some target =>
      if relativeTo target repo = none then .ok none
      else
        match tsCandidates target with
        | .error e => .error e
        | .ok candidates =>
          match firstFile fs candidates with
          | .error e => .error e
          | .ok none => .ok none
          | .ok (some candidate) =>
            match relativeTo candidate repo with
            | some path => .ok (some (relativeText path))
            | none => .error .valueError

end Resolvers

end GithubAgent.Indexing
