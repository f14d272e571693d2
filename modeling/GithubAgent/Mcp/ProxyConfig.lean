import GithubAgent.Mcp.Proxy
import GithubAgent.Worktree.Checkout

/-!
# The configuration of a worktree reaches the servers

`generate_mcp_json` of `src/shared/mcp_json_writer.py` writes the URL of every local server, and a
client that opens such a URL makes the proxy start the server with the repository, the worktree
and the parameters of its `mcp.json` in the environment.
-/

namespace GithubAgent.Mcp.Proxy

open GithubAgent.Base GithubAgent.Worktree

/-! ### Writing the configuration -/

/-- The environment of the writer, `str.lower`, and `str` of a value that is not a string. -/
structure Runtime where
  environ : List (String × String)
  lower : String → String
  str : Json → String

/-- What is in the directory of a server: whether `server.py`, and `mcp.json` with what
`json.load` makes of it. -/
structure ServerDir where
  name : String
  hasScript : Bool
  config : Option (Option Json)

/-- `os.listdir`: names are distinct. -/
structure Listing where
  dirs : List ServerDir
  distinct : (dirs.map (·.name)).Nodup

/-- `condition.split("=", 1)`. -/
def splitCondition (text : String) : String × String :=
  (String.ofList (text.toList.takeWhile (· ≠ '=')),
    String.ofList ((text.toList.dropWhile (· ≠ '=')).drop 1))

/-- Whether the condition leaves the server out, or `none` where this raises
(`mcp_json_writer.py:97-101`). -/
def skips (rt : Runtime) (condition : Json) : Option Bool :=
  if condition.truthy then
    match condition with
    | .str text =>
      if '=' ∈ text.toList then
        let (envVar, expectedVal) := splitCondition text
        some (rt.lower ((dictGet rt.environ envVar).getD "false") ≠ rt.lower expectedVal)
      else some false
    | .arr items => if items.any (Json.eq (.str "=")) then none else some false
    | .obj fields => if (fields.lookup "=").isSome then none else some false
    | _ => none
  else some false

/-- A character of `[a-zA-Z0-9_]`. -/
def isKeyChar (c : Char) : Bool := c.isAlphanum || c = '_'

/-- `[a-zA-Z_][a-zA-Z0-9_]*`. -/
def isIdentifier : List Char → Bool
  | c :: rest => (c.isAlpha || c = '_') && rest.all isKeyChar
  | [] => false

/-- `_PARAM_KEY_RE.match`; `$` also matches before a line end that comes last. -/
def isParamKey (key : String) : Bool :=
  isIdentifier (if key.toList.getLast? = some '\n' then key.toList.dropLast else key.toList)

/-- Whether the server is left out, and its extra parameters, up to where reading `mcp.json`
raises (`mcp_json_writer.py:91-112`). -/
def readConfig (rt : Runtime) : Option Json → Bool × List (String × Json)
  | some (.obj fields) =>
    match skips rt ((fields.lookup "condition").getD .null) with
    | none => (false, [])
    | some skipServer =>
      match fields.lookup "extra_params" with
      | some (.obj extraParams) => (skipServer, extraParams.filter fun param ↦ isParamKey param.1)
      | _ => (skipServer, [])
  | _ => (false, [])

/-- A server without `mcp.json` has no condition and no extra parameters. -/
def ServerDir.settings (rt : Runtime) (dir : ServerDir) : Bool × List (String × Json) :=
  (dir.config.map (readConfig rt)).getD (false, [])

/-- The server gets an entry. -/
def ServerDir.included (rt : Runtime) (dir : ServerDir) : Bool :=
  dir.hasScript && !(dir.settings rt).1

/-- `safe` of `quote`. -/
def isSlash (c : Char) : Bool := c = '/'

/-- `params` (`mcp_json_writer.py:78-81`, `:104-110`). -/
def ServerDir.params (rt : Runtime) (repo worktreePath : String) (dir : ServerDir) :
    List (List Char × List Char) :=
  ("repo_path".toList, worktreePath.toList) :: ("github_repository".toList, repo.toList) ::
    (dir.settings rt).2.map fun param ↦
      (param.1.toList, quote isSlash (pyStr rt.str param.2).toList)

/-- `proxy_host` (`mcp_json_writer.py:76`). -/
def Runtime.proxyHost (rt : Runtime) : String :=
  (dictGet rt.environ "MCP_PROXY_HOST").getD "localhost"

/-- `url` (`mcp_json_writer.py:77`, `:120`). -/
def ServerDir.url (rt : Runtime) (repo worktreePath : String) (dir : ServerDir) : String :=
  "http://" ++ rt.proxyHost ++ ":18000/mcp/" ++ dir.name ++ "/sse?" ++
    String.ofList (['&'].intercalate ((dir.params rt repo worktreePath).map fun param ↦
      param.1 ++ '=' :: param.2))

/-- The entry of GitHub's own server (`mcp_json_writer.py:53-59`). -/
def githubServer : Json :=
  .obj [("type", .str "http"), ("url", .str "https://api.githubcopilot.com/mcp"),
    ("headers", .obj [("Authorization", .str "Bearer $\x7bGITHUB_TOKEN\x7d")])]

def sseServer (url : String) : Json := .obj [("type", .str "sse"), ("url", .str url)]

/-- The entries of `mcpServers` (`mcp_json_writer.py:63-123`). -/
def mcpServers (rt : Runtime) (repo worktreePath : String) (dirs : List ServerDir) :
    List (String × Json) :=
  dirs.foldl (fun servers dir ↦
    if dir.included rt = true then
      setEntry Prod.fst (dir.name, sseServer (dir.url rt repo worktreePath)) servers
    else servers) [("github", githubServer)]

/-- `generate_mcp_json` (`mcp_json_writer.py:25-125`). -/
def generateMcpJson (rt : Runtime) (repo worktreePath : String) (dirs : List ServerDir) : Json :=
  .obj [("mcpServers", .obj (mcpServers rt repo worktreePath dirs))]

/-! ### Opening a URL -/

/-- What a client asks the host of a URL for: the path and the query. A URL has no line ends, and
what follows a `#` stays with the client. -/
def requestTarget (url : List Char) : List Char × List Char :=
  let target := (((url.filter (· ≠ '\n')).drop "http://".length).dropWhile (· ≠ '/')).takeWhile
    (· ≠ '#')
  (target.takeWhile (· ≠ '?'), (target.dropWhile (· ≠ '?')).drop 1)

/-- The route of `mcp_sse` (`main.py:126`). -/
def route (path : List Char) : Option String :=
  match (unquote path).splitOn '/' with
  | [[], mcp, serverName, sse] =>
    if mcp = "mcp".toList ∧ serverName ≠ [] ∧ sse = "sse".toList then
      some (String.ofList serverName)
    else none
  | _ => none

/-- A text that stands in a URL as it is. -/
def Plain (text : String) : Prop :=
  ∀ c ∈ text.toList, isAscii c = true ∧ (isUnreserved c || isSlash c) = true

instance (text : String) : Decidable (Plain text) :=
  inferInstanceAs (Decidable (∀ c ∈ text.toList, _))

/-- The name of a parameter as a URL has it. -/
def urlKey (key : String) : String := String.ofList (key.toList.filter (· ≠ '\n'))

/-- The parameters of a server by name, with their texts. -/
def ServerDir.assigned (rt : Runtime) (repo worktreePath : String) (dir : ServerDir) :
    List (String × String) :=
  ("repo_path", worktreePath) :: ("github_repository", repo) ::
    (dir.settings rt).2.map fun param ↦ (urlKey param.1, pyStr rt.str param.2)

/-! ### The entries -/

section Entries

variable {rt : Runtime} {repo worktreePath : String}

/-- Every server that is included has its entry. -/
theorem lookup_mcpServers {dirs : List ServerDir} (hdistinct : (dirs.map (·.name)).Nodup)
    {dir : ServerDir} (hmem : dir ∈ dirs) (hincluded : dir.included rt = true) :
    (mcpServers rt repo worktreePath dirs).lookup dir.name =
      some (sseServer (dir.url rt repo worktreePath)) := by
  induction dirs using List.reverseRecOn with
  | nil => cases hmem
  | append_singleton before last ih =>
    rw [List.map_append, List.map_singleton, List.nodup_append] at hdistinct
    obtain ⟨hbefore, -, hlast⟩ := hdistinct
    rw [mcpServers, List.foldl_append, List.foldl_cons, List.foldl_nil]
    rcases List.mem_append.mp hmem with hmem | hmem
    · have hne : dir.name ≠ last.name :=
        hlast _ (List.mem_map_of_mem hmem) _ (List.mem_singleton.mpr rfl)
      have hfound := ih hbefore hmem
      split
      · rw [lookup_setEntry, if_neg hne]
        exact hfound
      · exact hfound
    · cases List.mem_singleton.mp hmem
      rw [if_pos hincluded, lookup_setEntry, if_pos rfl]

end Entries

/-! ### The parameters -/

section Params

variable {rt : Runtime} {repo worktreePath : String} {dir : ServerDir}

theorem isUnreserved_of_isKeyChar {c : Char} (h : isKeyChar c = true) : isUnreserved c = true := by
  rcases Bool.or_eq_true_iff.mp h with h | h
  · simp [isUnreserved, h]
  · simp [isUnreserved, h]

theorem isAscii_of_isKeyChar {c : Char} (h : isKeyChar c = true) : isAscii c = true := by
  have hranges : (((decide ('A'.val ≤ c.val ∧ c.val ≤ 'Z'.val) ||
      (decide ('a'.val ≤ c.val) && decide (c.val ≤ 'z'.val))) ||
      (decide ('0'.val ≤ c.val) && decide (c.val ≤ '9'.val))) || decide (c = '_')) = true := h
  simp only [Bool.or_eq_true, Bool.and_eq_true, decide_eq_true_eq,
    UInt32.le_iff_toNat_le] at hranges
  apply decide_eq_true
  rcases hranges with ((⟨-, h⟩ | ⟨-, h⟩) | ⟨-, h⟩) | rfl
  · exact Nat.lt_of_le_of_lt h (by decide)
  · exact Nat.lt_of_le_of_lt h (by decide)
  · exact Nat.lt_of_le_of_lt h (by decide)
  · decide

theorem isKeyChar_of_isIdentifier {text : List Char} (h : isIdentifier text = true) :
    ∀ c ∈ text, isKeyChar c = true := by
  cases text with
  | nil => nofun
  | cons first rest =>
    obtain ⟨hfirst, hrest⟩ := Bool.and_eq_true_iff.mp h
    intro c hc
    rcases List.mem_cons.mp hc with rfl | hc
    · rw [isKeyChar, Char.isAlphanum]
      rcases Bool.or_eq_true_iff.mp hfirst with hfirst | hfirst
      · rw [hfirst, Bool.true_or, Bool.true_or]
      · rw [hfirst, Bool.or_true]
    · exact List.all_eq_true.mp hrest c hc

/-- The names have no special characters, but for a line end that a URL does not have. -/
theorem isKeyChar_of_isParamKey {key : String} (h : isParamKey key = true) :
    ∀ c ∈ (urlKey key).toList, isKeyChar c = true := by
  intro c hc
  rw [urlKey, String.toList_ofList] at hc
  obtain ⟨hc, hnewline⟩ := List.mem_filter.mp hc
  unfold isParamKey at h
  split at h
  · next hlast =>
    refine isKeyChar_of_isIdentifier h c ?_
    rw [← List.dropLast_append_getLast? _ hlast] at hc
    rcases List.mem_append.mp hc with hc | hc
    · exact hc
    · cases List.mem_singleton.mp hc
      exact absurd rfl (of_decide_eq_true hnewline)
  · exact isKeyChar_of_isIdentifier h c hc

theorem isParamKey_of_mem {param : String × Json} (h : param ∈ (dir.settings rt).2) :
    isParamKey param.1 = true := by
  unfold ServerDir.settings at h
  cases hconfig : dir.config with
  | none =>
    rw [hconfig] at h
    cases h
  | some config =>
    rw [hconfig, Option.map_some, Option.getD_some] at h
    unfold readConfig at h
    split at h
    · split at h
      · cases h
      · split at h
        · exact (List.mem_filter.mp h).2
        · cases h
    · cases h

theorem isKeyChar_of_mem_assigned {a : String × String}
    (h : a ∈ dir.assigned rt repo worktreePath) : ∀ c ∈ a.1.toList, isKeyChar c = true := by
  rcases List.mem_cons.mp h with rfl | h
  · exact List.all_eq_true.mp (by decide : "repo_path".toList.all isKeyChar = true)
  · rcases List.mem_cons.mp h with rfl | h
    · exact List.all_eq_true.mp (by decide : "github_repository".toList.all isKeyChar = true)
    · obtain ⟨param, hparam, rfl⟩ := List.mem_map.mp h
      exact isKeyChar_of_isParamKey (isParamKey_of_mem hparam)

theorem filter_intercalate_and (parts : List (List Char)) :
    (['&'].intercalate parts).filter (· ≠ '\n') =
      ['&'].intercalate (parts.map (List.filter (· ≠ '\n'))) := by
  induction parts with
  | nil => rfl
  | cons part rest ih =>
    cases rest with
    | nil => simp
    | cons next rest =>
      rw [List.map_cons, List.map_cons, List.intercalate_cons_cons, List.intercalate_cons_cons,
        List.filter_append, List.filter_append, ih, List.map_cons]
      rfl

/-- A quoted text has none of the characters that end a part of a URL. -/
theorem notMem_quote {c : Char} (hc : isUnreserved c = false) (hslash : c ≠ '/')
    (hpercent : c ≠ '%') (text : List Char) : c ∉ quote isSlash text := by
  intro hmem
  rcases (mem_quote hmem).2 with h | h | h
  · rw [hc] at h
    cases h
  · exact hslash (of_decide_eq_true h)
  · exact hpercent h

/-- The query of the URL, without line ends. -/
theorem filter_params (hworktree : Plain worktreePath) (hrepo : Plain repo) :
    (['&'].intercalate ((dir.params rt repo worktreePath).map fun param ↦
        param.1 ++ '=' :: param.2)).filter (· ≠ '\n') =
      ['&'].intercalate ((dir.assigned rt repo worktreePath).map fun a ↦
        a.1.toList ++ '=' :: quote isSlash a.2.toList) := by
  have hvalue (text : List Char) : (quote isSlash text).filter (· ≠ '\n') = quote isSlash text := by
    refine List.filter_eq_self.mpr fun c hc ↦ decide_eq_true ?_
    rintro rfl
    exact notMem_quote (by decide) (by decide) (by decide) _ hc
  have hkept {text : String} (h : Plain text) : quote isSlash text.toList = text.toList :=
    quote_eq_self h
  have hequals (key value : List Char) : (key ++ '=' :: value).filter (· ≠ '\n') =
      key.filter (· ≠ '\n') ++ '=' :: value.filter (· ≠ '\n') := by
    rw [List.filter_append, List.filter_cons_of_pos (by decide)]
  rw [filter_intercalate_and, ServerDir.params, ServerDir.assigned]
  simp only [List.map_cons, List.map_map]
  congr 2
  · rw [hequals, hkept hworktree, ← hkept hworktree, hvalue]
    rfl
  · congr 1
    · rw [hequals, hkept hrepo, ← hkept hrepo, hvalue]
      rfl
    · refine List.map_congr_left fun param _ ↦ ?_
      simp only [Function.comp_apply]
      rw [hequals, hvalue, urlKey, String.toList_ofList]

/-- The query is read back. -/
theorem queryParams_params :
    queryParams (['&'].intercalate ((dir.assigned rt repo worktreePath).map fun a ↦
        a.1.toList ++ '=' :: quote isSlash a.2.toList)) =
      dictValues Prod.fst (dir.assigned rt repo worktreePath) := by
  have hkey (a : String × String) (ha : a ∈ dir.assigned rt repo worktreePath) {c : Char}
      (hc : isKeyChar c = false) : c ∉ a.1.toList := by
    intro hmem
    rw [isKeyChar_of_mem_assigned ha c hmem] at hc
    cases hc
  have hplain (a : String × String) (ha : a ∈ dir.assigned rt repo worktreePath) :
      quote isSlash a.1.toList = a.1.toList := by
    refine quote_eq_self fun c hc ↦ ?_
    have hchar := isKeyChar_of_mem_assigned ha c hc
    exact ⟨isAscii_of_isKeyChar hchar, by rw [isUnreserved_of_isKeyChar hchar, Bool.true_or]⟩
  have hparse : parseQsl (['&'].intercalate ((dir.assigned rt repo worktreePath).map fun a ↦
      a.1.toList ++ '=' :: quote isSlash a.2.toList)) =
        (dir.assigned rt repo worktreePath).map fun a ↦ (a.1.toList, a.2.toList) := by
    have hfields := @parseQsl_intercalate ((dir.assigned rt repo worktreePath).map fun a ↦
      (a.1.toList, quote isSlash a.2.toList)) ?_
    · rw [List.map_map, List.map_map] at hfields
      refine hfields.trans (List.map_congr_left fun a ha ↦ ?_)
      have hread := @unquotePlus_quote isSlash (by decide) (by decide) a.1.toList
      rw [hplain a ha] at hread
      simp only [Function.comp_apply]
      rw [hread, unquotePlus_quote (by decide) (by decide)]
    · intro f hf
      obtain ⟨a, ha, rfl⟩ := List.mem_map.mp hf
      exact ⟨hkey a ha (by decide), hkey a ha (by decide),
        notMem_quote (by decide) (by decide) (by decide) _⟩
  rw [queryParams, hparse, List.map_map]
  congr 1
  refine (List.map_congr_left fun a _ ↦ ?_).trans (List.map_id _)
  simp

end Params

/-! ### The request of a client -/

section Request

variable {rt : Runtime} {m : Machine} {repo worktreePath : String} {dir : ServerDir}

/-- A host by its name or its number. -/
def IsHost (text : String) : Prop := ∀ c ∈ text.toList, (isNameChar c || c = '.') = true

instance (text : String) : Decidable (IsHost text) :=
  inferInstanceAs (Decidable (∀ c ∈ text.toList, _))

theorem notMem_of_forall {text : List Char} {p : Char → Bool} (h : ∀ c ∈ text, p c = true)
    {c : Char} (hc : p c = false) : c ∉ text := by
  intro hmem
  rw [h c hmem] at hc
  cases hc

theorem isNameChar_of_safe {name : String} (h : isSafeServerName name = true) :
    name ≠ "" ∧ ∀ c ∈ name.toList, isNameChar c = true := by
  unfold isSafeServerName at h
  split at h
  · cases h
  · next hne =>
    split at h
    · cases h
    · exact ⟨hne, List.all_eq_true.mp h⟩

theorem target_eq {url host path query : List Char}
    (hurl : url.filter (· ≠ '\n') =
      "http://".toList ++ (host ++ '/' :: (path ++ '?' :: query)))
    (hhost : '/' ∉ host) (hmark : '?' ∉ path) (hpath : '#' ∉ path) (hquery : '#' ∉ query) :
    requestTarget url = ('/' :: path, query) := by
  have hne {c : Char} {text : List Char} (h : c ∉ text) : ∀ d ∈ text, decide (d ≠ c) = true :=
    fun d hd ↦ decide_eq_true fun heq ↦ h (heq ▸ hd)
  have htarget : (((url.filter (· ≠ '\n')).drop "http://".length).dropWhile (· ≠ '/')).takeWhile
      (· ≠ '#') = '/' :: path ++ '?' :: query := by
    rw [hurl, List.drop_left' (by decide), List.dropWhile_append_of_pos (hne hhost),
      List.dropWhile_cons_of_neg (by decide)]
    refine List.takeWhile_eq_self_iff.mpr (hne ?_)
    simp [hpath, hquery]
  have hstop : ∀ c ∈ '/' :: path, decide (c ≠ '?') = true := by
    intro c hc
    rcases List.mem_cons.mp hc with rfl | hc
    · decide
    · exact hne hmark c hc
  unfold requestTarget
  rw [htarget]
  dsimp only
  rw [List.takeWhile_append_of_pos hstop, List.dropWhile_append_of_pos hstop,
    List.takeWhile_cons_of_neg (by decide), List.dropWhile_cons_of_neg (by decide),
    List.append_nil, List.drop_one, List.tail_cons]

theorem notMem_query {c : Char} (hkey : isKeyChar c = false) (hc : isUnreserved c = false)
    (hne : c ∉ ['/', '%', '&', '=']) :
    c ∉ ['&'].intercalate ((dir.assigned rt repo worktreePath).map fun a ↦
      a.1.toList ++ '=' :: quote isSlash a.2.toList) := by
  simp only [List.mem_cons, List.not_mem_nil, or_false, not_or] at hne
  obtain ⟨hslash, hpercent, hand, hequals⟩ := hne
  have hcount := count_intercalate_of_ne (Ne.symm hand)
    ((dir.assigned rt repo worktreePath).map fun a ↦ a.1.toList ++ '=' :: quote isSlash a.2.toList)
  refine List.count_eq_zero.mp (hcount.trans (List.count_eq_zero.mpr fun hmem ↦ ?_))
  obtain ⟨part, hpart, hmem⟩ := List.mem_flatten.mp hmem
  obtain ⟨a, ha, rfl⟩ := List.mem_map.mp hpart
  rcases List.mem_append.mp hmem with hmem | hmem
  · exact notMem_of_forall (isKeyChar_of_mem_assigned ha) hkey hmem
  · rcases List.mem_cons.mp hmem with heq | hmem
    · exact hequals heq
    · exact notMem_quote hc hslash hpercent _ hmem

/-- The path of a server. -/
def ServerDir.path (dir : ServerDir) : List Char :=
  "mcp/".toList ++ dir.name.toList ++ "/sse".toList

theorem filter_url (hworktree : Plain worktreePath) (hrepo : Plain repo)
    (hhost : IsHost rt.proxyHost) (hname : isSafeServerName dir.name = true) :
    (dir.url rt repo worktreePath).toList.filter (· ≠ '\n') =
      "http://".toList ++ ((rt.proxyHost.toList ++ ":18000".toList) ++ '/' :: (dir.path ++ '?' ::
        ['&'].intercalate ((dir.assigned rt repo worktreePath).map fun a ↦
          a.1.toList ++ '=' :: quote isSlash a.2.toList))) := by
  have hfilter {text : List Char} (h : '\n' ∉ text) : text.filter (· ≠ '\n') = text :=
    List.filter_eq_self.mpr fun c hc ↦ decide_eq_true fun heq ↦ h (heq ▸ hc)
  have hport : ":18000/mcp/".toList = ":18000".toList ++ '/' :: "mcp/".toList := by
    decide +kernel
  have hmark : "/sse?".toList = "/sse".toList ++ ['?'] := by decide +kernel
  have hscheme : '\n' ∉ "http://".toList := by decide
  have hmiddle : '\n' ∉ ":18000/mcp/".toList := by decide
  have hend : '\n' ∉ "/sse?".toList := by decide
  have hauthority : '\n' ∉ rt.proxyHost.toList := notMem_of_forall hhost (by decide)
  have hserver : '\n' ∉ dir.name.toList := notMem_of_forall (isNameChar_of_safe hname).2 (by decide)
  rw [ServerDir.url]
  simp only [String.toList_append, String.toList_ofList, List.filter_append]
  rw [filter_params hworktree hrepo, hfilter hscheme, hfilter hauthority, hfilter hmiddle,
    hfilter hserver, hfilter hend, hport, hmark, ServerDir.path]
  simp only [List.append_assoc, List.cons_append, List.nil_append]

/-- The URL of a server asks the proxy for that server, with its parameters as the query. -/
theorem requestTarget_url (hworktree : Plain worktreePath) (hrepo : Plain repo)
    (hhost : IsHost rt.proxyHost) (hname : isSafeServerName dir.name = true) :
    requestTarget (dir.url rt repo worktreePath).toList =
      ('/' :: dir.path, ['&'].intercalate ((dir.assigned rt repo worktreePath).map fun a ↦
        a.1.toList ++ '=' :: quote isSlash a.2.toList)) := by
  have hchars := (isNameChar_of_safe hname).2
  have hpath {c : Char} (hc : isNameChar c = false) (hfirst : c ∉ "mcp/".toList)
      (hlast : c ∉ "/sse".toList) : c ∉ dir.path := by
    simp only [ServerDir.path, List.mem_append, not_or]
    exact ⟨⟨hfirst, notMem_of_forall hchars hc⟩, hlast⟩
  refine target_eq (filter_url hworktree hrepo hhost hname) ?_
    (hpath (by decide) (by decide) (by decide)) (hpath (by decide) (by decide) (by decide))
    (notMem_query (by decide) (by decide) (by decide))
  rw [List.mem_append, not_or]
  exact ⟨notMem_of_forall hhost (by decide), by decide⟩

/-- The proxy finds the server. -/
theorem route_path (hname : isSafeServerName dir.name = true) :
    route ('/' :: dir.path) = some dir.name := by
  obtain ⟨hne, hchars⟩ := isNameChar_of_safe hname
  have hsplit : ('/' :: dir.path).splitOn '/' =
      [[], "mcp".toList, dir.name.toList, "sse".toList] := by
    have hjoin : '/' :: dir.path =
        ['/'].intercalate [[], "mcp".toList, dir.name.toList, "sse".toList] := by
      simp [ServerDir.path, List.intercalate]
    rw [hjoin]
    refine List.splitOn_intercalate '/' ?_ (by simp)
    intro part hpart
    simp only [List.mem_cons, List.not_mem_nil, or_false] at hpart
    rcases hpart with rfl | rfl | rfl | rfl
    · exact List.not_mem_nil
    · decide
    · exact notMem_of_forall hchars (by decide)
    · decide
  have hquote : quote isSlash ('/' :: dir.path) = '/' :: dir.path := by
    have hplain : ('/' :: "mcp/".toList ++ "/sse".toList).all (fun c ↦
        isAscii c && (isUnreserved c || isSlash c)) = true := by decide +kernel
    refine quote_eq_self fun c hc ↦ ?_
    by_cases hmem : c ∈ dir.name.toList
    · rcases Bool.or_eq_true_iff.mp (hchars c hmem) with hkey | hdash
      · exact ⟨isAscii_of_isKeyChar hkey, by rw [isUnreserved_of_isKeyChar hkey, Bool.true_or]⟩
      · rw [of_decide_eq_true hdash]
        decide
    · have hfixed : c ∈ '/' :: "mcp/".toList ++ "/sse".toList := by
        simpa [ServerDir.path, hmem] using hc
      exact Bool.and_eq_true_iff.mp (List.all_eq_true.mp hplain c hfixed)
  have hread : unquote ('/' :: dir.path) = '/' :: dir.path := by
    have hunquote := @unquote_quote isSlash (by decide) ('/' :: dir.path)
    rwa [hquote] at hunquote
  rw [route, hread, hsplit]
  exact (if_pos ⟨rfl, fun hempty ↦ hne (String.toList_inj.mp hempty), rfl⟩).trans
    (congrArg some String.ofList_toList)

theorem mem_of_mem_dictValues {l : List (String × String)} {a : String × String}
    (h : a ∈ dictValues Prod.fst l) : a ∈ l :=
  mem_of_mem_lastBy ((dictValues_perm l).mem_iff.mp h)

/-- A parameter that is alone with its name in capital letters. -/
theorem dictGet_map_dictValues {l : List (String × String)} {a : String × String} (u : UpperCase)
    (ha : a ∈ l) (honly : ∀ b ∈ l, u.upper b.1 = u.upper a.1 → b = a) :
    dictGet ((dictValues Prod.fst l).map fun p ↦ (u.upper p.1, p.2)) (u.upper a.1) = some a.2 := by
  have hvalues : a ∈ dictValues Prod.fst l := by
    obtain ⟨b, hb, hkey⟩ := exists_mem_lastBy Prod.fst ha
    have heq : b = a := honly b (mem_of_mem_lastBy hb) (congrArg u.upper hkey)
    exact (dictValues_perm l).mem_iff.mpr (heq ▸ hb)
  cases hget : dictGet ((dictValues Prod.fst l).map fun p ↦ (u.upper p.1, p.2)) (u.upper a.1) with
  | none => exact absurd (List.mem_map_of_mem hvalues) (dictGet_eq_none hget a.2)
  | some value =>
    obtain ⟨b, hb, heq⟩ := List.mem_map.mp (mem_of_dictGet hget)
    obtain ⟨hkey, rfl⟩ := Prod.mk.inj heq
    rw [honly b (mem_of_mem_dictValues hb) hkey]

/-- What the configuration says about a server is what the proxy starts it with: a parameter
whose name is given in one way only is in the environment, and nothing else is changed. -/
structure Reached (rt : Runtime) (m : Machine) (repo worktreePath : String) (dir : ServerDir)
    (url : String) : Prop where
  routed : route (requestTarget url.toList).1 = some dir.name
  named : ∀ a ∈ dir.assigned rt repo worktreePath,
    isAllowed (getAllowedEnvPrefixes m.environ) (m.upperCase.upper a.1) = true →
    (∀ b ∈ dir.assigned rt repo worktreePath,
      m.upperCase.upper b.1 = m.upperCase.upper a.1 → b = a) →
    dictGet (sessionEnv m (queryParams (requestTarget url.toList).2)) (m.upperCase.upper a.1) =
      some a.2
  others : ∀ key, (∀ a ∈ dir.assigned rt repo worktreePath, m.upperCase.upper a.1 ≠ key) →
    dictGet (sessionEnv m (queryParams (requestTarget url.toList).2)) key =
      if isAllowed (getAllowedEnvPrefixes m.environ) key = true ∨ key ∈ safeEnvVars then
        dictGet m.environ key
      else none

/-- A server with a parameter of its own, whose value needs quoting. -/
def labelledServer : ServerDir :=
  ⟨"memory", true, some (some (.obj [("extra_params", .obj [("mcp_label", .str "a b&c=1")])]))⟩

end Request

end GithubAgent.Mcp.Proxy
