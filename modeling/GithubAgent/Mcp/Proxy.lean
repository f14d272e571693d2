import GithubAgent.Base.LastBy
import GithubAgent.Base.Lists
import GithubAgent.Base.PercentEncoding
import GithubAgent.Base.Strings
import GithubAgent.Webhook.Handler

/-!
# What the proxy starts

The checks that `mcp_sse` of `src/services/mcp_proxy/main.py` makes before it starts a server, and
the environment it starts it with. An environment is the list of what was assigned, the last
assignment to a variable counts. What the operating system says about a path is given.
-/

namespace GithubAgent.Mcp.Proxy

open GithubAgent.Base GithubAgent.Webhook

/-- `str.upper`, character by character. -/
structure UpperCase where
  char : Char → List Char
  ascii : ∀ c, isAscii c = true → char c = [c.toUpper]

/-- Letters of ASCII only. -/
def asciiUpper : UpperCase := ⟨fun c ↦ [c.toUpper], fun _ _ ↦ rfl⟩

def UpperCase.upper (u : UpperCase) (text : String) : String :=
  String.ofList (text.toList.flatMap u.char)

/-- The machine the proxy runs on: `os.environ`, `MCP_SERVERS_DIR`, and the answers to
`os.path.realpath` and `os.path.isfile`. -/
structure Machine where
  environ : List (String × String)
  mcpServersDir : String
  realpath : String → String
  isFile : String → Bool
  upperCase : UpperCase

/-- `HTTPException`. -/
structure HttpException where
  statusCode : Nat
  detail : String
  deriving DecidableEq

/-- What a server process is started with. -/
structure Launch where
  serverScript : String
  env : List (String × String)

/-- `MAX_MCP_SESSIONS` (`main.py:26`). -/
def maxMcpSessions : Nat := 50

/-- `DEFAULT_ALLOWED_ENV_PREFIXES` (`main.py:32-39`). -/
def defaultAllowedEnvPrefixes : List String :=
  ["REPO_", "GITHUB_", "MCP_", "SURREALDB_", "GEMINI_", "PYTHONPATH"]

/-- `_SAFE_ENV_VARS` (`main.py:58`). -/
def safeEnvVars : List String := ["PATH", "HOME", "LANG", "TERM", "PWD", "SHELL", "USER"]

/-- `_get_allowed_env_prefixes` (`main.py:43-54`). -/
def getAllowedEnvPrefixes (environ : List (String × String)) : List String :=
  match dictGet environ "MCP_ALLOWED_ENV_PREFIXES" with
  | none | some "" => defaultAllowedEnvPrefixes
  | some custom =>
    (((custom.toList.splitOn ',').map strip).filter (!·.isEmpty)).map String.ofList

/-- `any(key.startswith(prefix) for prefix in allowed_prefixes)`. -/
def isAllowed (prefixes : List String) (key : String) : Bool :=
  prefixes.any fun p ↦ p.toList.isPrefixOf key.toList

/-- `_build_subprocess_env` (`main.py:61-75`). -/
def buildSubprocessEnv (environ : List (String × String)) : List (String × String) :=
  environ.filter fun entry ↦
    decide (entry.1 ∈ safeEnvVars) || isAllowed (getAllowedEnvPrefixes environ) entry.1

/-- `request.query_params.items()`: the last value of each name. -/
def queryParams (query : List Char) : List (String × String) :=
  dictValues Prod.fst ((parseQsl query).map fun f ↦ (String.ofList f.1, String.ofList f.2))

/-- The variables that the query asks for (`main.py:150-159`). -/
def queryEnv (u : UpperCase) (prefixes : List String) (params : List (String × String)) :
    List (String × String) :=
  (params.map fun p ↦ (u.upper p.1, p.2)).filter fun entry ↦ isAllowed prefixes entry.1

/-- The environment of a session (`main.py:147-159`). -/
def sessionEnv (m : Machine) (params : List (String × String)) : List (String × String) :=
  buildSubprocessEnv m.environ ++ queryEnv m.upperCase (getAllowedEnvPrefixes m.environ) params

/-- A character of `[A-Za-z0-9_-]`. -/
def isNameChar (c : Char) : Bool := c.isAlphanum || c = '_' || c = '-'

/-- `_is_safe_server_name` (`main.py:78-91`). -/
def isSafeServerName (name : String) : Bool :=
  if name = "" then false
  else if occursIn "\x00" name || occursIn "/" name || occursIn "\\" name || occursIn ".." name
  then false
  else name.toList.all isNameChar

/-- `os.path.join` of two paths. -/
def pathJoin (a b : String) : String :=
  if b.toList.head? = some '/' then b
  else if a = "" ∨ a.toList.getLast? = some '/' then a ++ b
  else a ++ "/" ++ b

/-- `_resolve_and_validate_server_script` (`main.py:94-118`). -/
def resolveAndValidateServerScript (m : Machine) (serverName : String) :
    Except HttpException String :=
  let resolvedScript := m.realpath (pathJoin (pathJoin m.mcpServersDir serverName) "server.py")
  let resolvedBase := m.realpath m.mcpServersDir
  if ¬ (resolvedBase ++ "/").toList <+: resolvedScript.toList then
    .error ⟨400, "Invalid server name: path escape detected"⟩
  else if ¬ (pathJoin serverName "server.py").toList <:+ resolvedScript.toList then
    .error ⟨400, "Invalid server name: unexpected path structure"⟩
  else if m.isFile resolvedScript = false then .error ⟨404, "Server not found"⟩
  else .ok resolvedScript

/-- `mcp_sse` up to where it starts the server, with this many sessions open (`main.py:127-161`). -/
def admission (m : Machine) (active : Nat) (serverName : String) (query : List Char) :
    Except HttpException Launch :=
  if maxMcpSessions ≤ active then .error ⟨429, "Too many MCP sessions active"⟩
  else if isSafeServerName serverName = false then
    .error ⟨400, "Invalid server name: must be alphanumeric with hyphens/underscores only"⟩
  else (resolveAndValidateServerScript m serverName).map fun serverScript ↦
    ⟨serverScript, sessionEnv m (queryParams query)⟩

/-! ### The environment -/

/-- What a session sees of a variable: the query decides about one with an allowed prefix, of the
others only the safe ones are passed on. -/
theorem dictGet_sessionEnv (m : Machine) (params : List (String × String)) (key : String) :
    dictGet (sessionEnv m params) key =
      if isAllowed (getAllowedEnvPrefixes m.environ) key = true then
        (dictGet (params.map fun p ↦ (m.upperCase.upper p.1, p.2)) key).or (dictGet m.environ key)
      else if key ∈ safeEnvVars then dictGet m.environ key else none := by
  rw [sessionEnv, dictGet_append, queryEnv,
    dictGet_filter _ (isAllowed (getAllowedEnvPrefixes m.environ)), buildSubprocessEnv,
    dictGet_filter _ fun key ↦
      decide (key ∈ safeEnvVars) || isAllowed (getAllowedEnvPrefixes m.environ) key]
  split
  · next hallowed => simp [hallowed]
  · next hallowed =>
    rw [Option.none_or, eq_false_of_ne_true hallowed]
    simp

/-- No safe variable has one of the default prefixes. -/
theorem isAllowed_default_of_safe {key : String} (h : key ∈ safeEnvVars) :
    isAllowed defaultAllowedEnvPrefixes key = false := by
  revert key
  decide

/-- What the client of the proxy cannot reach: the script is a file in the directory of the
servers, its variables have an allowed prefix or are the safe ones, and with the default
prefixes the safe ones are those of the proxy. -/
structure Guarded (m : Machine) (active : Nat) (launch : Launch) : Prop where
  room : active < maxMcpSessions
  within : (m.realpath m.mcpServersDir ++ "/").toList <+: launch.serverScript.toList
  file : m.isFile launch.serverScript = true
  confined : ∀ key, dictGet launch.env key ≠ none →
    isAllowed (getAllowedEnvPrefixes m.environ) key = true ∨
      key ∈ safeEnvVars ∧ dictGet launch.env key = dictGet m.environ key
  safe : getAllowedEnvPrefixes m.environ = defaultAllowedEnvPrefixes →
    ∀ key ∈ safeEnvVars, dictGet launch.env key = dictGet m.environ key

theorem resolve_cases (m : Machine) (serverName : String) :
    match resolveAndValidateServerScript m serverName with
    | .error e => e.statusCode ∈ [400, 404]
    | .ok serverScript =>
      (m.realpath m.mcpServersDir ++ "/").toList <+: serverScript.toList ∧
        m.isFile serverScript = true := by
  unfold resolveAndValidateServerScript
  dsimp only
  by_cases hwithin : (m.realpath m.mcpServersDir ++ "/").toList <+:
      (m.realpath (pathJoin (pathJoin m.mcpServersDir serverName) "server.py")).toList
  · rw [if_neg (not_not_intro hwithin)]
    split
    · next e h =>
      split at h
      · cases h
        exact List.mem_cons_self
      · split at h
        · cases h
          exact List.mem_cons_of_mem _ List.mem_cons_self
        · cases h
    · next serverScript h =>
      split at h
      · cases h
      · split at h
        · cases h
        · next hfile =>
          cases h
          exact ⟨hwithin, eq_true_of_ne_false hfile⟩
  · rw [if_pos hwithin]
    exact List.mem_cons_self

theorem guarded_admission (m : Machine) (active : Nat) (serverName : String) (query : List Char) :
    match admission m active serverName query with
    | .error e => e.statusCode ∈ [429, 400, 404]
    | .ok launch => Guarded m active launch := by
  unfold admission
  by_cases hroom : maxMcpSessions ≤ active
  · rw [if_pos hroom]
    exact List.mem_cons_self
  · rw [if_neg hroom]
    by_cases hname : isSafeServerName serverName = false
    · rw [if_pos hname]
      exact List.mem_cons_of_mem _ List.mem_cons_self
    · rw [if_neg hname]
      have hcases := resolve_cases m serverName
      cases hscript : resolveAndValidateServerScript m serverName with
      | error e =>
        rw [hscript] at hcases
        exact List.mem_cons_of_mem _ hcases
      | ok serverScript =>
        rw [hscript] at hcases
        refine ⟨not_le.mp hroom, hcases.1, hcases.2, fun key hkey ↦ ?_, fun hdefault key hsafe ↦ ?_⟩
        · dsimp only at hkey ⊢
          rw [dictGet_sessionEnv] at hkey ⊢
          by_cases hallowed : isAllowed (getAllowedEnvPrefixes m.environ) key = true
          · exact .inl hallowed
          · rw [if_neg hallowed] at hkey ⊢
            by_cases hsafe : key ∈ safeEnvVars
            · exact .inr ⟨hsafe, if_pos hsafe⟩
            · exact absurd (if_neg hsafe) hkey
        · dsimp only
          rw [dictGet_sessionEnv, hdefault, isAllowed_default_of_safe hsafe,
            if_neg Bool.false_ne_true, if_pos hsafe]

end GithubAgent.Mcp.Proxy
