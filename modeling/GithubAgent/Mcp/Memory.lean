import GithubAgent.Base.Disk
import GithubAgent.Base.TextLines
import GithubAgent.Mcp.Server
import GithubAgent.Shared.Conversation
import Mathlib.Data.List.Sort

/-!
# The memory tools

`memory_read` and `memory_write` of `src/mcp_servers/memory/tools.py` on a tree of files, and the
handler of `src/mcp_servers/memory/server.py` that an agent reaches them through. The texts of the
errors that the interpreter raises itself are given. There are no links, and a call is not
interrupted by another one.
-/

namespace GithubAgent.Mcp.Memory

open GithubAgent.Base GithubAgent.Shared

/-- The texts that the interpreter makes: `str` of a value, and of the errors it raises. -/
structure Messages where
  str : Json → String
  nullByte : String
  osError : Disk.Error → String → String
  notText : Json → String
  notDict : Json → String
  noKey : String → String

/-- What a call raises: `FileNotFoundError`, `ValueError`, or another exception, with its text. -/
inductive Raised where
  | fileNotFound (text : String)
  | value (text : String)
  | other (name text : String)
  deriving DecidableEq

/-- The files of the machine. -/
abbrev Files := Disk String String

/-! ### Paths -/

/-- `_get_memory_dir` (`tools.py:10-12`). -/
def getMemoryDir (home : List String) (repo : String) : List String :=
  [".claude", "memory", repo, "memory"].foldl joinPath home

/-- `Path.resolve` on a path without links. -/
def resolve (path : List String) : List String :=
  path.foldl (fun done part ↦ if part = ".." then done.dropLast else done ++ [part]) []

/-- `str` of an absolute path. -/
def pathText (path : List String) : String := "/" ++ "/".intercalate path

/-- `_validate_path` (`tools.py:15-30`). -/
def validatePath (fullPath baseDir : List String) : Except Raised Unit :=
  if (resolve baseDir).isPrefixOf (resolve fullPath) then .ok ()
  else .error (.value ("Invalid path: outside memory directory (" ++ pathText fullPath ++
    " not in " ++ pathText baseDir ++ ")"))

/-- The file that an argument names, if it is below the memory directory. -/
def fullPath (m : Messages) (memoryDir : List String) : Json → Except Raised (List String)
  | .str filePath =>
    if '\x00' ∈ filePath.toList then .error (.value m.nullByte)
    else
      let path := resolve (joinPath memoryDir filePath)
      (validatePath path memoryDir).map fun _ ↦ path
  | v => .error (.other "TypeError" (m.notText v))

/-! ### The tools -/

mutual

/-- `_list_files` (`tools.py:33-53`). -/
def listFiles (lead : String) : Files → List String
  | .file _ => []
  | .dir children => ((listItems lead children).insertionSort (·.1 ≤ ·.1)).flatMap Prod.snd

/-- What each entry of a directory adds. -/
def listItems (lead : String) : List (String × Files) → List (String × List String)
  | [] => []
  | (name, .file _) :: rest => (name, [lead ++ name]) :: listItems lead rest
  | (name, .dir children) :: rest =>
    (name, listFiles (lead ++ name ++ "/") (.dir children)) :: listItems lead rest

end

/-- `MAX_CHARS` (`tools.py:90`). -/
def maxChars : Nat := 100000

/-- What stands behind a text that was cut. -/
def truncatedNotice : List Char := "\n\n... [truncated, file is larger]".toList

/-- The result for the content of a file (`tools.py:89-100`). -/
def shownContent (content : String) : Json :=
  let text := universalNewlines content.toList
  let shown := if maxChars < text.length then text.take maxChars ++ truncatedNotice else text
  .obj [("content", .str (.ofList shown)), ("truncated", .bool (maxChars < text.length)),
    ("total_size", .int text.length)]

/-- The list of all files, which is empty without a memory directory (`tools.py:72-79`). -/
def listedFiles (disk : Files) (memoryDir : List String) : Json :=
  match Disk.get? (some disk) (resolve memoryDir) with
  | none => .obj [("files", .arr [])]
  | some t => .obj [("files", .arr ((listFiles "" t).map .str))]

/-- The content of one file (`tools.py:81-100`). -/
def readFile (m : Messages) (disk : Files) (memoryDir : List String) (filePath : Json) :
    Except Raised Json :=
  (fullPath m memoryDir filePath).bind fun path ↦
    match Disk.get? (some disk) path with
    | none => .error (.fileNotFound ("Memory file not found: " ++ m.str filePath))
    | some (.dir _) => .error (.value ("Path is not a file: " ++ m.str filePath))
    | some (.file content) => .ok (shownContent content)

/-- `memory_read` (`tools.py:56-100`). -/
def memoryRead (m : Messages) (home : List String) (disk : Files) (filePath : Json)
    (repo : String) : Except Raised Json :=
  match filePath with
  | .null => .ok (listedFiles disk (getMemoryDir home repo))
  | filePath => readFile m disk (getMemoryDir home repo) filePath

/-- An error of the operating system on a path. -/
def osError (m : Messages) (path : List String) (e : Disk.Error) : Raised :=
  match e with
  | .exists => .other "FileExistsError" (m.osError e (pathText path))
  | .notFound => .fileNotFound (m.osError e (pathText path))
  | .notADirectory => .other "NotADirectoryError" (m.osError e (pathText path))
  | .isADirectory => .other "IsADirectoryError" (m.osError e (pathText path))

/-- `memory_write` (`tools.py:103-128`), with the files it leaves. The parents of the file are
created before it turns out that the content is no text. -/
def memoryWrite (m : Messages) (home : List String) (disk : Files) (filePath content : Json)
    (repo : String) : Files × Except Raised Json :=
  match fullPath m (getMemoryDir home repo) filePath with
  | .error e => (disk, .error e)
  | .ok path =>
    match Disk.mkdirs (some disk) path.dropLast with
    | .error e => (disk, .error (osError m path.dropLast e))
    | .ok disk =>
      match content with
      | .str text =>
        match Disk.write text (some disk) path with
        | .error e => (disk, .error (osError m path e))
        | .ok disk => (disk, .ok (.obj [("success", .bool true), ("path", filePath),
            ("size", .int text.length)]))
      | v => (disk, .error (.other "TypeError" (m.notText v)))

/-! ### The handler -/

/-- The dict of an error. -/
def errorFields (code : Int) (message : String) : List (String × Option Json) :=
  [("error", some (.obj [("code", .int code), ("message", .str message)]))]

/-- The answer to an exception of a tool (`server.py:133-144`). -/
def raisedFields : Raised → List (String × Option Json)
  | .fileNotFound text => errorFields (-32603) ("File not found: " ++ text)
  | .value text => errorFields (-32602) ("Invalid input: " ++ text)
  | .other name text => errorFields (-32603) ("Tool execution failed: " ++ name ++ ": " ++ text)

/-- The `tools` that `tools/list` answers (`server.py:46-97`). -/
def tools : Json :=
  .arr [
    .obj [("name", .str "memory_read"),
      ("description", .str ("Read memory files from the repository's memory directory. " ++
        "Call without file_path to list all files, or with file_path to read a specific file. " ++
        "Memory files contain persistent knowledge about the repository: architecture, " ++
        "known issues, commands, and other facts learned from previous sessions.")),
      ("inputSchema", .obj [("type", .str "object"),
        ("properties", .obj [("file_path", .obj [("type", .str "string"),
          ("description", .str ("Optional: Path to memory file relative to memory root. " ++
            "Examples: 'index.md', 'architecture/auth.md', 'issues/bug-123.md'. " ++
            "Omit to list all available memory files."))])])])],
    .obj [("name", .str "memory_write"),
      ("description", .str ("Create or update a memory file in the repository's memory " ++
        "directory. Use for documenting architecture, known issues, commands, decisions, or " ++
        "other persistent knowledge that should be remembered across sessions. " ++
        "The file will be created if it doesn't exist, or overwritten if it does.")),
      ("inputSchema", .obj [("type", .str "object"),
        ("properties", .obj [
          ("file_path", .obj [("type", .str "string"),
            ("description", .str ("Path to memory file relative to memory root. " ++
              "Examples: 'architecture/auth.md', 'issues/payment-race.md', 'commands.md'. " ++
              "Parent directories will be created automatically."))]),
          ("content", .obj [("type", .str "string"),
            ("description", .str ("Full content to write to the file. This will overwrite " ++
              "existing content, so read the file first if you want to update rather than " ++
              "replace."))])]),
        ("required", .arr [.str "file_path", .str "content"])])]]

/-- `value.get(key)`, which raises for what is no dict. -/
def getKey (m : Messages) (key : String) : Json → Except Raised (Option Json)
  | .obj fields => .ok (fields.lookup key)
  | v => .error (.other "AttributeError" (m.notDict v))

/-- `value[key]`. -/
def subscript (m : Messages) (key : String) : Json → Except Raised Json
  | .obj fields =>
    match fields.lookup key with
    | some v => .ok v
    | none => .error (.other "KeyError" (m.noKey key))
  | v => .error (.other "TypeError" (m.notDict v))

/-- The arguments of a call of `memory_write`. -/
def writeArguments (m : Messages) (arguments : Json) : Except Raised (Json × Json) :=
  (subscript m "file_path" arguments).bind fun filePath ↦
    (subscript m "content" arguments).map fun content ↦ (filePath, content)

/-- The result of a tool as a response. -/
def resultFields (f : Json.FloatText) : Except Raised Json → List (String × Option Json)
  | .error e => raisedFields e
  | .ok result => [("content", some (.arr [.obj [("type", .str "text"),
      ("text", .str (.ofList (result.pretty f [])))]]))]

/-- A request of the client: what the handler does with a method (`server.py:29-146`). -/
inductive Request where
  | fields (response : List (String × Option Json))
  | read (filePath : Except Raised Json)
  | write (arguments : Except Raised (Json × Json))
  | raises

/-- What a request asks for, where the environment names this repository. -/
def parseRequest (m : Messages) (repo : String) : Json → Request
  | .obj request =>
    let params := (request.lookup "params").getD (.obj [])
    match request.lookup "method" with
    | some (.str "initialize") =>
      match params with
      | .obj params => .fields [
          ("protocolVersion", some ((params.lookup "protocolVersion").getD (.str "2024-11-05"))),
          ("capabilities", some (.obj [("tools", .obj [])])),
          ("serverInfo", some (.obj [("name", .str "memory"), ("version", .str "1.0.0")]))]
      | _ => .raises
    | some (.str "tools/list") => .fields [("tools", some tools)]
    | some (.str "tools/call") =>
      match params with
      | .obj params =>
        let arguments := (params.lookup "arguments").getD (.obj [])
        if repo = "" then
          .fields (errorFields (-32603) "GITHUB_REPOSITORY environment variable not set")
        else
          match params.lookup "name" with
          | some (.str "memory_read") =>
            .read ((getKey m "file_path" arguments).map (·.getD .null))
          | some (.str "memory_write") => .write (writeArguments m arguments)
          | tool => .fields (errorFields (-32601) ("Unknown tool: " ++ m.str (tool.getD .null)))
      | _ => .raises
    | method => .fields (errorFields (-32601) ("Unknown method: " ++ m.str (method.getD .null)))
  | _ => .raises

/-- `handle_request` (`server.py:29-146`), with the files it leaves. -/
def handleRequest (f : Json.FloatText) (m : Messages) (home : List String) (repo : String)
    (disk : Files) (request : Json) : Files × Outcome :=
  match parseRequest m repo request with
  | .fields response => (disk, .returned response)
  | .raises => (disk, .raised)
  | .read filePath =>
    (disk, .returned (resultFields f (filePath.bind fun filePath ↦
      memoryRead m home disk filePath repo)))
  | .write (.error e) => (disk, .returned (raisedFields e))
  | .write (.ok (filePath, content)) =>
    ((memoryWrite m home disk filePath content repo).1,
      .returned (resultFields f (memoryWrite m home disk filePath content repo).2))

end GithubAgent.Mcp.Memory
