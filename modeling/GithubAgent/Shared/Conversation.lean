import GithubAgent.Base.Separators
import GithubAgent.Shared.Keys
import GithubAgent.Webhook.Handler
import Mathlib.Logic.Function.Basic

/-!
# Keys identify conversations

A conversation is a repository, a kind of thread, its number and a workflow. Five encoders flatten
it: the session key, the worktree key, the worktree path, the streaming lookup key and the URL of
the session page. Their separators also occur inside the parts, so what makes them injective is
the grammar of each part, which the fields of `Conversation` carry.
-/

namespace GithubAgent.Shared

open GithubAgent.Base GithubAgent.Webhook

/-! ### The parts -/

/-- Alphanumeric characters and single hyphens, none of them at an end. -/
def isOwner (owner : String) : Bool :=
  (owner.toList.splitOn '-').all fun part ↦ part ≠ [] && part.all Char.isAlphanum

/-- Letters, digits, `-`, `_` and `.`. -/
def isRepoName (name : String) : Bool :=
  name ≠ "" && name.toList.all fun c ↦ c.isAlphanum || c = '-' || c = '_' || c = '.'

/-- A number in decimal digits, with leading zeros or without. -/
def isDecimal (number : String) : Bool := number ≠ "" && number.toList.all Char.isDigit

/-- The match of `^[a-z0-9]+(-[a-z0-9]+)*$`, where `$` also stands before a final newline. -/
def matchesWorkflowName (name : String) : Bool :=
  let text := name.toList
  let text := if text.getLast? = some '\n' then text.dropLast else text
  (text.splitOn '-').all fun part ↦ part ≠ [] && part.all fun c ↦ c.isLower || c.isDigit

/-- `_validate_workflow_names`, for one name (`workflows/engine.py:137-164`). -/
def validateWorkflowName (name : String) : Except String Unit :=
  if !matchesWorkflowName name then
    .error ("Invalid workflow name '" ++ name ++ "'. " ++
      "Workflow names must be lowercase with hyphens (e.g., 'review-pr', 'fix-ci')")
  else if 50 < name.length then
    .error ("Workflow name '" ++ name ++ "' is too long (max 50 characters)")
  else if name ∈ ["test", "debug", "admin", "system"] then
    .error ("Workflow name '" ++ name ++ "' is reserved. Please choose a different name.")
  else .ok ()

/-- A conversation, whose parts follow their grammars. -/
structure Conversation where
  owner : String
  name : String
  threadType : ThreadType
  threadId : String
  workflow : String
  owner_valid : isOwner owner = true
  name_valid : isRepoName name = true
  threadId_valid : isDecimal threadId = true
  workflow_valid : validateWorkflowName workflow = .ok ()

/-- The full name of the repository. -/
def Conversation.repo (c : Conversation) : String := c.owner ++ "/" ++ c.name

/-- The key of the worktree. -/
def Conversation.worktreeKey (c : Conversation) : WorktreeKey :=
  ⟨c.repo, c.threadType, c.threadId, c.workflow⟩

/-! ### Paths and URLs -/

/-- `Path.__truediv__` on the parts of an absolute path: empty parts and `.` are dropped, and an
absolute segment starts anew. -/
def joinPath (base : List String) (segment : String) : List String :=
  let parts := ((segment.toList.splitOn '/').filter fun part ↦ part ≠ [] && part ≠ ['.']).map
    String.ofList
  if segment.toList.head? = some '/' then parts else base ++ parts

/-- `get_worktree_path` below the parts of `WORKTREE_BASE` (`worktree_manager.py:29-48`). -/
def worktreePath (base : List String) (repo : String) (threadType : ThreadType)
    (threadId workflow : String) : List String :=
  (getWorktreePath repo threadType threadId workflow).foldl joinPath base

/-- `thread_type_to_url_segment` (`utils.py:15-21`). -/
def threadTypeToUrlSegment : ThreadType → String
  | .pr => "pull"
  | .issue => "issues"
  | .discussion => "discussions"

/-- `url_segment_to_thread_type` (`utils.py:24-32`). -/
def urlSegmentToThreadType (segment : String) : ThreadType :=
  if segment = "pull" then .pr else if segment = "discussions" then .discussion else .issue

/-- `rstrip('/')`. -/
def stripSlashes (url : String) : String :=
  String.ofList (url.toList.reverse.dropWhile (· = '/')).reverse

/-- `build_session_url` (`utils.py:35-64`). -/
def buildSessionUrl (baseUrl owner repoName : String) (threadType : ThreadType)
    (issueNumber : Int) (workflow : String) : String :=
  if baseUrl = "" then ""
  else
    stripSlashes baseUrl ++ "/session/" ++ owner ++ "/" ++ repoName ++ "/" ++
      threadTypeToUrlSegment threadType ++ "/" ++ toString issueNumber ++ "/" ++ workflow

/-- `int(text)` on ASCII text: spaces around, a sign, and single underscores between digits. -/
def parseInt (text : String) : Option Int :=
  let (negative, digits) := match strip text.toList with
    | '-' :: digits => (true, digits)
    | '+' :: digits => (false, digits)
    | digits => (false, digits)
  let groups := digits.splitOn '_'
  if groups.all fun group ↦ group ≠ [] && group.all Char.isDigit then
    let value : Int := Nat.ofDigitChars 10 groups.flatten 0
    some (if negative then -value else value)
  else none

/-- The result of `_parse_session_path`. -/
structure SessionPath where
  repo : String
  issueNumber : Int
  workflow : String
  threadType : ThreadType
  deriving DecidableEq

/-- `_parse_session_path`; `none` is a `ValueError` (`session_proxy/main.py:88-101`). -/
def parseSessionPath (owner repo threadTypeSegment number workflow : String) :
    Option SessionPath :=
  (parseInt number).map fun issueNumber ↦
    ⟨owner ++ "/" ++ repo, issueNumber, workflow, urlSegmentToThreadType threadTypeSegment⟩

/-- The route `/session/{owner}/{repo}/{thread_type_segment}/{number}/{workflow}`, whose
parameters are not empty and have no slash (`session_proxy/main.py:875`). -/
def sessionRoute (path : String) : Option SessionPath :=
  match path.toList.splitOn '/' with
  | [[], session, owner, repo, segment, number, workflow] =>
    if session = "session".toList ∧
        [owner, repo, segment, number, workflow].all (· ≠ []) then
      parseSessionPath (.ofList owner) (.ofList repo) (.ofList segment) (.ofList number)
        (.ofList workflow)
    else none
  | _ => none

/-- The part of a URL behind the base. -/
def pathBelow (baseUrl url : String) : String :=
  String.ofList (url.toList.drop (stripSlashes baseUrl).toList.length)

/-! ### The grammars -/

section Grammar

variable {owner name number workflow : String}

/-- The parts of an owner are not empty. -/
theorem nil_not_mem_owner (h : isOwner owner = true) : [] ∉ owner.toList.splitOn '-' := by
  intro hmem
  simpa using List.all_eq_true.mp h [] hmem

theorem mem_owner (h : isOwner owner = true) {c : Char} (hc : c ∈ owner.toList) :
    c = '-' ∨ c.isAlphanum = true := by
  refine (mem_splitOn hc).imp id ?_
  rintro ⟨part, hpart, hmem⟩
  have hpart := List.all_eq_true.mp h part hpart
  rw [Bool.and_eq_true, List.all_eq_true] at hpart
  exact hpart.2 c hmem

theorem mem_name (h : isRepoName name = true) {c : Char} (hc : c ∈ name.toList) :
    c.isAlphanum = true ∨ c = '-' ∨ c = '_' ∨ c = '.' := by
  rw [isRepoName, Bool.and_eq_true, List.all_eq_true] at h
  simpa [or_assoc] using h.2 c hc

theorem mem_number (h : isDecimal number = true) {c : Char} (hc : c ∈ number.toList) :
    c.isDigit = true := by
  rw [isDecimal, Bool.and_eq_true, List.all_eq_true] at h
  exact h.2 c hc

theorem matches_of_valid (h : validateWorkflowName workflow = .ok ()) :
    matchesWorkflowName workflow = true := by
  unfold validateWorkflowName at h
  cases hmatch : matchesWorkflowName workflow with
  | true => rfl
  | false => simp [hmatch] at h

/-- What a workflow name is made of, whatever the dollar sign lets pass. -/
theorem mem_workflow (h : validateWorkflowName workflow = .ok ()) {c : Char}
    (hc : c ∈ workflow.toList) :
    c = '-' ∨ c = '\n' ∨ c.isLower = true ∨ c.isDigit = true := by
  have hmatch := matches_of_valid h
  have hbody : ∃ body : List Char, (c ∈ body ∨ c = '\n') ∧
      (body.splitOn '-').all (fun part ↦ part ≠ [] && part.all fun c ↦ c.isLower || c.isDigit) := by
    by_cases hlast : workflow.toList.getLast? = some '\n'
    · refine ⟨workflow.toList.dropLast, ?_, by simpa [matchesWorkflowName, hlast] using hmatch⟩
      have hsplit := List.dropLast_append_getLast? '\n' hlast
      rw [← hsplit, List.mem_append, List.mem_singleton] at hc
      exact hc
    · exact ⟨workflow.toList, .inl hc, by simpa [matchesWorkflowName, hlast] using hmatch⟩
  obtain ⟨body, hc | hc, hall⟩ := hbody
  · rcases mem_splitOn hc with hc | ⟨part, hpart, hmem⟩
    · exact .inl hc
    · have hpart := List.all_eq_true.mp hall part hpart
      rw [Bool.and_eq_true, List.all_eq_true] at hpart
      exact .inr (.inr (by simpa using hpart.2 c hmem))
  · exact .inr (.inl hc)

theorem workflow_ne_nil (h : validateWorkflowName workflow = .ok ()) : workflow.toList ≠ [] := by
  intro hnil
  have hmatch := matches_of_valid h
  simp [matchesWorkflowName, hnil] at hmatch

end Grammar

/-! ### The parts of a path -/

theorem joinPath_of_relative (base : List String) {segment : String}
    (h : segment.toList.head? ≠ some '/') :
    joinPath base segment = base ++ joinPath [] segment := by
  simp only [joinPath, if_neg h, List.nil_append]

/-- The parts of a joined path are the parts. -/
theorem joinPath_intercalate (base : List String) {parts : List String} (hne : parts ≠ [])
    (hvalid : ∀ part ∈ parts, part ≠ "" ∧ part ≠ "." ∧ '/' ∉ part.toList) :
    joinPath base ("/".intercalate parts) = base ++ parts := by
  have hsplit : ("/".intercalate parts).toList.splitOn '/' = parts.map String.toList := by
    rw [String.toList_intercalate]
    refine List.splitOn_intercalate '/' (fun part hpart ↦ ?_) (by simpa using hne)
    obtain ⟨part, hmem, rfl⟩ := List.mem_map.mp hpart
    exact (hvalid part hmem).2.2
  have hhead : ("/".intercalate parts).toList.head? ≠ some '/' := by
    intro h
    obtain ⟨rest, hrest⟩ := List.head?_eq_some_iff.mp h
    have hnil : ([] : List Char) ∈ parts.map String.toList := by
      rw [← hsplit, hrest, List.splitOn_cons_eq_if_modifyHead]
      simp
    obtain ⟨part, hmem, hpart⟩ := List.mem_map.mp hnil
    exact (hvalid part hmem).1 (String.toList_inj.mp hpart)
  have hkept : (parts.map String.toList).filter (fun part ↦ part ≠ [] && part ≠ ['.']) =
      parts.map String.toList := by
    refine List.filter_eq_self.mpr fun part hpart ↦ ?_
    obtain ⟨part, hmem, rfl⟩ := List.mem_map.mp hpart
    obtain ⟨hempty, hdot, -⟩ := hvalid part hmem
    have hnil : part.toList ≠ [] := fun h ↦ hempty (String.toList_inj.mp h)
    have hsingle : part.toList ≠ ['.'] := fun h ↦ hdot (String.toList_inj.mp h)
    simp [hnil, hsingle]
  simp only [joinPath, if_neg hhead, hsplit, hkept, List.map_map]
  simp

/-- A part of a path is a part of the text between slashes. -/
theorem mem_joinPath_nil {segment part : String} :
    part ∈ joinPath [] segment ↔
      part.toList ∈ segment.toList.splitOn '/' ∧ part ≠ "" ∧ part ≠ "." := by
  have hempty : part.toList ≠ [] ↔ part ≠ "" :=
    not_congr ⟨fun h ↦ String.toList_inj.mp h, fun h ↦ h ▸ rfl⟩
  have hdot : part.toList ≠ ['.'] ↔ part ≠ "." :=
    not_congr ⟨fun h ↦ String.toList_inj.mp h, fun h ↦ h ▸ rfl⟩
  simp only [joinPath, List.nil_append, ite_self, List.mem_map, List.mem_filter,
    Bool.and_eq_true, decide_eq_true_eq]
  rw [← hempty, ← hdot]
  constructor
  · rintro ⟨chars, hchars, rfl⟩
    rwa [String.toList_ofList]
  · exact fun h ↦ ⟨part.toList, h, String.ofList_toList⟩

/-! ### The encoders -/

section Encoders

variable (c d : Conversation)

theorem flatMap_of_not_mem {a : Char} {text : List Char} (h : a ∉ text) :
    text.flatMap (fun c ↦ if c = a then ['-', '-'] else [c]) = text := by
  induction text with
  | nil => rfl
  | cons c text ih =>
    rw [List.mem_cons, not_or] at h
    rw [List.flatMap_cons, ih h.2, if_neg (Ne.symm h.1), List.singleton_append]

theorem not_mem_owner {a : Char} (ha : a = ':' ∨ a = '/') : a ∉ c.owner.toList := by
  intro hmem
  have hmem := mem_owner c.owner_valid hmem
  rcases ha with rfl | rfl <;> revert hmem <;> decide

theorem not_mem_name {a : Char} (ha : a = ':' ∨ a = '/') : a ∉ c.name.toList := by
  intro hmem
  have hmem := mem_name c.name_valid hmem
  rcases ha with rfl | rfl <;> revert hmem <;> decide

/-- A slash in a repository name is written as two hyphens, and there is one slash. -/
theorem sanitizeRepoKey_repo :
    (sanitizeRepoKey c.repo).toList = c.owner.toList ++ '-' :: '-' :: c.name.toList := by
  have hrepo : c.repo.toList = c.owner.toList ++ '/' :: c.name.toList := by
    simp [Conversation.repo, String.toList_append]
  rw [sanitizeRepoKey, String.toList_ofList, hrepo, List.flatMap_append, List.flatMap_cons,
    flatMap_of_not_mem (not_mem_owner c (.inr rfl)), flatMap_of_not_mem (not_mem_name c (.inr rfl))]
  rfl

theorem not_mem_repo {a : Char} (ha : a = ':' ∨ a = '/') :
    a ∉ (sanitizeRepoKey c.repo).toList := by
  rw [sanitizeRepoKey_repo, List.mem_append, List.mem_cons, List.mem_cons]
  rintro (hmem | rfl | rfl | hmem)
  · exact not_mem_owner c ha hmem
  · revert ha
    decide
  · revert ha
    decide
  · exact not_mem_name c ha hmem

theorem not_mem_type {a : Char} (t : ThreadType) (ha : a = ':' ∨ a = '/' ∨ a = '-') :
    a ∉ t.value.toList := by
  rcases ha with rfl | rfl | rfl <;> cases t <;> decide

theorem not_mem_threadId {a : Char} (ha : a = ':' ∨ a = '/') : a ∉ c.threadId.toList := by
  intro hmem
  have hmem := mem_number c.threadId_valid hmem
  rcases ha with rfl | rfl <;> revert hmem <;> decide

theorem not_mem_workflow {a : Char} (ha : a = ':' ∨ a = '/') : a ∉ c.workflow.toList := by
  intro hmem
  have hmem := mem_workflow c.workflow_valid hmem
  rcases ha with rfl | rfl <;> revert hmem <;> decide

theorem ThreadType.value_inj {t u : ThreadType} (h : t.value.toList = u.value.toList) :
    t = u := by
  cases t <;> cases u <;> first | rfl | exact absurd h (by decide)

/-- The four parts that an encoder writes are the conversation. -/
theorem Conversation.eq_of_parts
    (hrepo : (sanitizeRepoKey c.repo).toList = (sanitizeRepoKey d.repo).toList)
    (htype : c.threadType = d.threadType) (hid : c.threadId.toList = d.threadId.toList)
    (hworkflow : c.workflow.toList = d.workflow.toList) : c = d := by
  rw [sanitizeRepoKey_repo, sanitizeRepoKey_repo] at hrepo
  obtain ⟨howner, hname⟩ := append_cons_cons_inj (nil_not_mem_owner c.owner_valid)
    (nil_not_mem_owner d.owner_valid) hrepo
  rw [String.toList_inj] at howner hname hid hworkflow
  obtain ⟨⟩ := c
  obtain ⟨⟩ := d
  simp only at howner hname htype hid hworkflow
  subst howner hname htype hid hworkflow
  rfl

/-- The parts of a key behind the repository, with and without the thread type. -/
def keyFields (c : Conversation) (typed : Bool) : List (List Char) :=
  [(sanitizeRepoKey c.repo).toList] ++ (if typed then [c.threadType.value.toList] else []) ++
    [c.threadId.toList, c.workflow.toList]

theorem not_mem_keyFields (typed : Bool) : ∀ field ∈ keyFields c typed, ':' ∉ field := by
  have hrepo := not_mem_repo c (.inl rfl)
  have htype := not_mem_type c.threadType (.inl rfl)
  have hid := not_mem_threadId c (.inl rfl)
  have hworkflow := not_mem_workflow c (.inl rfl)
  cases typed <;> simp [keyFields, hrepo, htype, hid, hworkflow]

theorem toList_colon : ":".toList = [':'] := rfl

theorem toList_hyphen : "-".toList = ['-'] := rfl

theorem toList_slash : "/".toList = ['/'] := rfl

/-- A key is its prefix and its fields, joined by colons. -/
theorem toList_key₃ (p x y z : String) :
    (p ++ x ++ ":" ++ y ++ ":" ++ z).toList =
      p.toList ++ [':'].intercalate [x.toList, y.toList, z.toList] := by
  simp only [String.toList_append, toList_colon, List.append_assoc, List.intercalate_cons_cons,
    List.intercalate_singleton]

theorem toList_key₄ (p w x y z : String) :
    (p ++ w ++ ":" ++ x ++ ":" ++ y ++ ":" ++ z).toList =
      p.toList ++ [':'].intercalate [w.toList, x.toList, y.toList, z.toList] := by
  simp only [String.toList_append, toList_colon, List.append_assoc, List.intercalate_cons_cons,
    List.intercalate_singleton]

theorem sessionKey_toList :
    (sessionKey c.repo c.threadType c.threadId c.workflow).toList =
      "session:map:".toList ++ [':'].intercalate (keyFields c true) :=
  toList_key₄ _ _ _ _ _

theorem streamingLookupKey_toList (typed : Bool) :
    (streamingLookupKey c.repo c.threadId c.workflow
      (if typed then some c.threadType else none)).toList =
        "session:stream:lookup:".toList ++ [':'].intercalate (keyFields c typed) := by
  cases typed with
  | true => exact toList_key₄ _ _ _ _ _
  | false => exact toList_key₃ _ _ _ _

theorem keyFields_ne_nil (typed : Bool) : keyFields c typed ≠ [] := List.cons_ne_nil _ _

/-- The fields of a key, behind the same prefix, are determined by its text. -/
theorem keyFields_of_text {p : List Char} {typed typed' : Bool}
    (h : p ++ [':'].intercalate (keyFields c typed) = p ++ [':'].intercalate (keyFields d typed')) :
    keyFields c typed = keyFields d typed' :=
  intercalate_inj (not_mem_keyFields c typed) (not_mem_keyFields d typed') (keyFields_ne_nil c typed)
    (keyFields_ne_nil d typed') (List.append_cancel_left h)

theorem keyFields_inj (h : keyFields c true = keyFields d true) : c = d := by
  simp only [keyFields, if_true, List.cons_append, List.nil_append, List.cons.injEq,
    and_true] at h
  exact Conversation.eq_of_parts c d h.1 (ThreadType.value_inj h.2.1) h.2.2.1 h.2.2.2

theorem sessionKey_injective :
    Function.Injective fun c : Conversation ↦
      sessionKey c.repo c.threadType c.threadId c.workflow := by
  intro c d h
  have htext := congrArg String.toList h
  simp only [sessionKey_toList] at htext
  exact keyFields_inj c d (keyFields_of_text c d htext)

theorem streamingLookupKey_injective :
    Function.Injective fun c : Conversation ↦
      streamingLookupKey c.repo c.threadId c.workflow (some c.threadType) := by
  intro c d h
  have htext := congrArg String.toList h
  have hfields := keyFields_of_text c d
    ((streamingLookupKey_toList c true).symm.trans (htext.trans (streamingLookupKey_toList d true)))
  exact keyFields_inj c d hfields

/-- A key with a thread type has one field more than a legacy key. -/
theorem streamingLookupKey_typed_ne :
    streamingLookupKey c.repo c.threadId c.workflow (some c.threadType) ≠
      streamingLookupKey d.repo d.threadId d.workflow none := by
  intro h
  have htext := congrArg String.toList h
  have hfields := keyFields_of_text c d
    ((streamingLookupKey_toList c true).symm.trans (htext.trans (streamingLookupKey_toList d false)))
  have hlength := congrArg List.length hfields
  simp [keyFields] at hlength

/-- The thread type and number with the hyphen between them. -/
theorem typeNumber_inj {t u : ThreadType} {x y : List Char}
    (h : t.value.toList ++ '-' :: x = u.value.toList ++ '-' :: y) : t = u ∧ x = y := by
  obtain ⟨htype, hid⟩ := append_cons_inj (not_mem_type t (.inr (.inr rfl)))
    (not_mem_type u (.inr (.inr rfl))) h
  exact ⟨ThreadType.value_inj htype, hid⟩

/-- The parts of a worktree key and of a worktree path. -/
def pathFields (c : Conversation) : List (List Char) :=
  [(sanitizeRepoKey c.repo).toList, c.threadType.value.toList ++ '-' :: c.threadId.toList,
    c.workflow.toList]

theorem not_mem_pathFields {a : Char} (ha : a = ':' ∨ a = '/') :
    ∀ field ∈ pathFields c, a ∉ field := by
  have hrepo := not_mem_repo c ha
  have htype := not_mem_type c.threadType (ha.imp id .inl)
  have hid := not_mem_threadId c ha
  have hworkflow := not_mem_workflow c ha
  have hhyphen : a ≠ '-' := by
    rcases ha with rfl | rfl <;> decide
  simp [pathFields, hrepo, htype, hid, hworkflow, hhyphen]

theorem pathFields_inj (h : pathFields c = pathFields d) : c = d := by
  simp only [pathFields, List.cons.injEq, and_true] at h
  obtain ⟨hrepo, htype, hworkflow⟩ := h
  obtain ⟨htype, hid⟩ := typeNumber_inj htype
  exact Conversation.eq_of_parts c d hrepo htype hid hworkflow

theorem text_toList : c.worktreeKey.text.toList = [':'].intercalate (pathFields c) := by
  simp only [WorktreeKey.text, Conversation.worktreeKey, pathFields, String.toList_append,
    toList_colon, toList_hyphen, List.append_assoc, List.intercalate_cons_cons,
    List.intercalate_singleton, List.cons_append, List.nil_append]

theorem worktreeKey_text_injective :
    Function.Injective fun c : Conversation ↦ c.worktreeKey.text := by
  intro c d h
  have htext := congrArg String.toList h
  simp only [text_toList] at htext
  exact pathFields_inj c d (intercalate_inj (not_mem_pathFields c (.inl rfl))
    (not_mem_pathFields d (.inl rfl)) (List.cons_ne_nil _ _) (List.cons_ne_nil _ _) htext)

/-- A segment that is one directory name. -/
theorem joinPath_of_plain {segment : String} (base : List String) (hslash : '/' ∉ segment.toList)
    (hne : segment.toList ≠ []) (hdot : segment.toList ≠ ['.']) :
    joinPath base segment = base ++ [segment] := by
  have hhead : segment.toList.head? ≠ some '/' := by
    intro h
    exact hslash (List.mem_of_mem_head? h)
  simp [joinPath, List.splitOn_eq_singleton hslash, hne, hdot, hhead]

/-- The path of a conversation is three directories below the base. -/
theorem worktreePath_eq (base : List String) :
    worktreePath base c.repo c.threadType c.threadId c.workflow =
      base ++ getWorktreePath c.repo c.threadType c.threadId c.workflow := by
  have hplain (base : List String) {segment : String} (hmem : '-' ∈ segment.toList)
      (hslash : '/' ∉ segment.toList) : joinPath base segment = base ++ [segment] := by
    refine joinPath_of_plain base hslash (List.ne_nil_of_mem hmem) fun hdot ↦ ?_
    rw [hdot] at hmem
    revert hmem
    decide
  have hrepo (base : List String) :
      joinPath base (sanitizeRepoKey c.repo) = base ++ [sanitizeRepoKey c.repo] :=
    hplain base (by simp [sanitizeRepoKey_repo]) (not_mem_repo c (.inr rfl))
  have htype (base : List String) :
      joinPath base (c.threadType.value ++ "-" ++ c.threadId) =
        base ++ [c.threadType.value ++ "-" ++ c.threadId] := by
    have htext : (c.threadType.value ++ "-" ++ c.threadId).toList =
        c.threadType.value.toList ++ '-' :: c.threadId.toList := by
      simp [String.toList_append, toList_hyphen]
    refine hplain base (by simp [htext]) ?_
    rw [htext]
    exact not_mem_pathFields c (.inr rfl) _ (by simp [pathFields])
  have hworkflow (base : List String) : joinPath base c.workflow = base ++ [c.workflow] := by
    refine joinPath_of_plain base (not_mem_workflow c (.inr rfl))
      (workflow_ne_nil c.workflow_valid) ?_
    intro hdot
    have hmem := mem_workflow c.workflow_valid (c := '.') (by simp [hdot])
    revert hmem
    decide
  simp [worktreePath, getWorktreePath, hrepo, htype, hworkflow]

theorem worktreePath_injective (base : List String) :
    Function.Injective fun c : Conversation ↦
      worktreePath base c.repo c.threadType c.threadId c.workflow := by
  intro c d h
  simp only [worktreePath_eq] at h
  have hfields := congrArg (List.map String.toList) (List.append_cancel_left h)
  refine pathFields_inj c d ?_
  simpa [pathFields, getWorktreePath, String.toList_append, toList_hyphen] using hfields

/-! ### The URL -/

theorem strip_of_forall {text : List Char} (h : ∀ c ∈ text, isSpace c = false) :
    strip text = text := by
  have hself (text : List Char) (h : ∀ c ∈ text, isSpace c = false) :
      text.dropWhile isSpace = text := by
    cases text with
    | nil => rfl
    | cons c text => rw [List.dropWhile_cons_of_neg (by simp [h c List.mem_cons_self])]
  rw [strip, hself text h, hself _ (by simpa using h), List.reverse_reverse]

theorem isSpace_of_isDigit {c : Char} (h : c.isDigit = true) : isSpace c = false := by
  have hbounds : 48 ≤ c.toNat ∧ c.toNat ≤ 57 := by
    simpa [Char.isDigit, UInt32.le_iff_toNat_le] using h
  simp [isSpace]
  omega

/-- `int` reads the digits of a number. -/
theorem parseInt_toString (n : Nat) : parseInt (toString (n : Int)) = some (n : Int) := by
  have htext : (toString (n : Int)).toList = Nat.toDigits 10 n := Nat.toList_repr
  have hdigit : ∀ c ∈ Nat.toDigits 10 n, c.isDigit = true :=
    fun c hc ↦ Nat.isDigit_of_mem_toDigits (by decide) (by decide) hc
  have hstrip : strip (Nat.toDigits 10 n) = Nat.toDigits 10 n :=
    strip_of_forall fun c hc ↦ isSpace_of_isDigit (hdigit c hc)
  have hsign : (match Nat.toDigits 10 n with
      | '-' :: digits => (true, digits)
      | '+' :: digits => (false, digits)
      | digits => (false, digits)) = (false, Nat.toDigits 10 n) := by
    split
    · next h => exact absurd (hdigit '-' (by simp [h])) (by decide)
    · next h => exact absurd (hdigit '+' (by simp [h])) (by decide)
    · rfl
  unfold parseInt
  rw [htext, hstrip, hsign]
  have hgroups : (Nat.toDigits 10 n).splitOn '_' = [Nat.toDigits 10 n] :=
    List.splitOn_eq_singleton Nat.underscore_not_in_toDigits
  simp [hgroups, Nat.toDigits_ne_nil]
  exact hdigit

theorem urlSegmentToThreadType_threadTypeToUrlSegment (t : ThreadType) :
    urlSegmentToThreadType (threadTypeToUrlSegment t) = t := by
  cases t <;> rfl

/-- The path of a session page. -/
theorem pathBelow_buildSessionUrl {baseUrl : String} (hbase : baseUrl ≠ "") (n : Int) :
    (pathBelow baseUrl (buildSessionUrl baseUrl c.owner c.name c.threadType n c.workflow)).toList =
      ['/'].intercalate [[], "session".toList, c.owner.toList, c.name.toList,
        (threadTypeToUrlSegment c.threadType).toList, (toString n).toList, c.workflow.toList] := by
  have hsession : "/session/".toList = '/' :: "session".toList ++ ['/'] := rfl
  unfold pathBelow buildSessionUrl
  rw [if_neg hbase, String.toList_ofList]
  generalize stripSlashes baseUrl = base
  simp only [String.toList_append, hsession, toList_slash, List.intercalate_cons_cons,
    List.intercalate_singleton, List.append_assoc, List.cons_append, List.nil_append]
  exact List.drop_left

theorem owner_ne_nil : c.owner.toList ≠ [] := by
  intro hnil
  have hmem := nil_not_mem_owner c.owner_valid
  simp [hnil] at hmem

theorem name_ne_nil : c.name.toList ≠ [] := by
  have hname := c.name_valid
  rw [isRepoName, Bool.and_eq_true, decide_eq_true_eq] at hname
  simpa using hname.1

/-- What the session page asks for is the conversation of its URL. -/
theorem sessionRoute_buildSessionUrl {baseUrl : String} (hbase : baseUrl ≠ "") (n : Nat) :
    sessionRoute
        (pathBelow baseUrl (buildSessionUrl baseUrl c.owner c.name c.threadType n c.workflow)) =
      some ⟨c.repo, n, c.workflow, c.threadType⟩ := by
  have hnumber : (toString (n : Int)).toList = Nat.toDigits 10 n := Nat.toList_repr
  have hdigits : '/' ∉ Nat.toDigits 10 n := fun hmem ↦
    absurd (Nat.isDigit_of_mem_toDigits (by decide) (by decide) hmem) (by decide)
  have hsegment : '/' ∉ (threadTypeToUrlSegment c.threadType).toList ∧
      (threadTypeToUrlSegment c.threadType).toList ≠ [] := by
    cases c.threadType <;> decide
  have hfree : ∀ part ∈ [[], "session".toList, c.owner.toList, c.name.toList,
      (threadTypeToUrlSegment c.threadType).toList, (toString (n : Int)).toList,
      c.workflow.toList], '/' ∉ part := by
    have howner := not_mem_owner c (.inr rfl)
    have hname := not_mem_name c (.inr rfl)
    have hworkflow := not_mem_workflow c (.inr rfl)
    have hsession : '/' ∉ "session".toList := by decide
    simp only [List.mem_cons, List.not_mem_nil, or_false, forall_eq_or_imp, forall_eq, hnumber]
    exact ⟨not_false, hsession, howner, hname, hsegment.1, hdigits, hworkflow⟩
  have hsplit := List.splitOn_intercalate '/' hfree (List.cons_ne_nil _ _)
  have hne : [c.owner.toList, c.name.toList, (threadTypeToUrlSegment c.threadType).toList,
      (toString (n : Int)).toList, c.workflow.toList].all (· ≠ []) = true := by
    simp only [List.all_cons, List.all_nil, Bool.and_true, Bool.and_eq_true, decide_eq_true_eq,
      hnumber]
    exact ⟨owner_ne_nil c, name_ne_nil c, hsegment.2, Nat.toDigits_ne_nil,
      workflow_ne_nil c.workflow_valid⟩
  unfold sessionRoute
  rw [pathBelow_buildSessionUrl c hbase, hsplit]
  simp only [hne, and_self, if_true, String.ofList_toList, parseSessionPath, parseInt_toString,
    Option.map_some, urlSegmentToThreadType_threadTypeToUrlSegment]
  rfl

end Encoders

/-- Every encoder tells any two conversations apart, a lookup key with a thread type is no legacy
key, and the URL of a conversation leads back to its lookup key. -/
theorem keys_identify_conversations :
    (Function.Injective fun c : Conversation ↦
      sessionKey c.repo c.threadType c.threadId c.workflow) ∧
    (Function.Injective fun c : Conversation ↦ c.worktreeKey.text) ∧
    (∀ base, Function.Injective fun c : Conversation ↦
      worktreePath base c.repo c.threadType c.threadId c.workflow) ∧
    (Function.Injective fun c : Conversation ↦
      streamingLookupKey c.repo c.threadId c.workflow (some c.threadType)) ∧
    (∀ c d : Conversation,
      streamingLookupKey c.repo c.threadId c.workflow (some c.threadType) ≠
        streamingLookupKey d.repo d.threadId d.workflow none) ∧
    ∀ (baseUrl : String) (c : Conversation) (n : Nat), baseUrl ≠ "" → c.threadId = toString n →
      ∃ p, sessionRoute (pathBelow baseUrl
          (buildSessionUrl baseUrl c.owner c.name c.threadType n c.workflow)) = some p ∧
        streamingLookupKey p.repo (toString p.issueNumber) p.workflow (some p.threadType) =
          streamingLookupKey c.repo c.threadId c.workflow (some c.threadType) := by
  refine ⟨sessionKey_injective, worktreeKey_text_injective, worktreePath_injective,
    streamingLookupKey_injective, streamingLookupKey_typed_ne, ?_⟩
  intro baseUrl c n hbase hid
  refine ⟨_, sessionRoute_buildSessionUrl c hbase n, ?_⟩
  rw [hid]
  rfl

/-- Pull request 84 of a repository whose name has hyphens at its ends. -/
theorem keys_identify_conversations_pr :
    ∃ p, sessionRoute (pathBelow "http://localhost:10001/"
        (buildSessionUrl "http://localhost:10001/" "a-b" "-c--d-" .pr (84 : Nat) "review-pr")) =
          some p ∧
      streamingLookupKey p.repo (toString p.issueNumber) p.workflow (some p.threadType) =
        streamingLookupKey "a-b/-c--d-" "84" "review-pr" (some .pr) :=
  keys_identify_conversations.2.2.2.2.2 "http://localhost:10001/"
    ⟨"a-b", "-c--d-", .pr, "84", "review-pr", by decide, by decide, by decide, rfl⟩ 84 (by decide)
    rfl

end GithubAgent.Shared
