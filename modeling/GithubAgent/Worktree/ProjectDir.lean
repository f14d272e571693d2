import GithubAgent.Base.Lines
import GithubAgent.Session.Fallback
import GithubAgent.Worktree.Orphans

/-!
# The project directory of a worktree

The SDK keeps the transcripts of a session in a directory below `~/.claude/projects` that is named
after the worktree. `get_project_dir_for_worktree` names the one that the cleanups delete, and
`find_transcript_path` the one in which the transcripts are looked up.
-/

namespace GithubAgent.Worktree

open GithubAgent.Base GithubAgent.Shared GithubAgent.Session

/-- `str` of the worktree path. -/
def worktreeText (base : List String) (c : Conversation) : String :=
  pathText "" (worktreePath base c.repo c.threadType c.threadId c.workflow)

/-! ### The two encoders -/

/-- `text.replace(separator, "--")`. -/
def doubleDash (separator : Char) (text : List Char) : List Char :=
  text.flatMap fun c ↦ if c = separator then ['-', '-'] else [c]

/-- `get_project_dir_for_worktree`, the name below `~/.claude/projects`
(`worktree_manager.py:181-188`). -/
def getProjectDirForWorktree (worktreePath : String) : String :=
  String.ofList (doubleDash '\\' (doubleDash '/' worktreePath.toList))

/-- `re.sub(r"[^a-zA-Z0-9]", "-", cwd)`. -/
def sanitizedCwd (cwd : String) : String :=
  String.ofList (cwd.toList.map fun c ↦ if c.isAlphanum then c else '-')

/-- An entry of `~/.claude/projects`. -/
structure ProjectEntry where
  name : String
  isDir : Bool
  files : List String

/-- The file is in the entry. -/
def ProjectEntry.has (p : ProjectEntry) (file : String) : Bool := p.isDir && decide (file ∈ p.files)

/-- `^[a-zA-Z0-9_-]+$`, where `$` also stands before a final newline. -/
def isSessionId (sessionId : String) : Bool :=
  let text := sessionId.toList
  let text := if text.getLast? = some '\n' then text.dropLast else text
  text ≠ [] && text.all fun c ↦ c.isAlphanum || c = '_' || c = '-'

/-- `find_transcript_path` (`sandbox_executor/utils.py:26-65`), the directory and the file. -/
def findTranscriptPath (projects : Option (List ProjectEntry)) (sessionId cwd : String) :
    Option (String × String) :=
  let file := sessionId ++ ".jsonl"
  match isSessionId sessionId, projects with
  | true, some projects =>
    if cwd ≠ "" ∧ projects.any (fun p ↦ p.name = sanitizedCwd cwd && p.has file) then
      some (sanitizedCwd cwd, file)
    else ((projects.take 200).find? (·.has file)).map fun p ↦ (p.name, file)
  | _, _ => none

/-- The SDK has written the transcript of a session that ran in the worktree. -/
structure Written (base : List String) (c : Conversation) (projects : List ProjectEntry)
    (sessionId : String) : Prop where
  valid : isSessionId sessionId = true
  stored : ∃ p ∈ projects, p.name = Fallback.projectName base c ∧
    p.has (sessionId ++ ".jsonl") = true

/-- The directory of the worktree that is deleted is the one in which the transcript is found, and
no other worktree has it. -/
structure RemovesTranscripts (base : List String) (c : Conversation)
    (projects : List ProjectEntry) (sessionId : String) : Prop where
  found : ∀ dir file, findTranscriptPath (some projects) sessionId (worktreeText base c) =
    some (dir, file) → dir = getProjectDirForWorktree (worktreeText base c)
  unshared : ∀ d, getProjectDirForWorktree (worktreeText base d) =
    getProjectDirForWorktree (worktreeText base c) → worktreeText base d = worktreeText base c

/-! ### What is deleted and what is looked up -/

section Encoders

variable {separator : Char} {base : List String} {c : Conversation} {projects : List ProjectEntry}
  {sessionId : String}

theorem doubleDash_append (separator : Char) (text more : List Char) :
    doubleDash separator (text ++ more) = doubleDash separator text ++ doubleDash separator more :=
  List.flatMap_append

/-- Nothing gets shorter, and a separator gets longer. -/
theorem length_doubleDash (separator : Char) (text : List Char) :
    (doubleDash separator text).length = text.length + text.count separator := by
  induction text with
  | nil => rfl
  | cons c text ih =>
    have hcons : doubleDash separator (c :: text) =
        (if c = separator then ['-', '-'] else [c]) ++ doubleDash separator text := rfl
    rw [hcons, List.length_append, ih, List.length_cons, List.count_cons]
    by_cases h : c = separator
    · rw [if_pos h, if_pos (beq_iff_eq.mpr h)]
      simp only [List.length_cons, List.length_nil]
      omega
    · rw [if_neg h, if_neg (beq_iff_eq.not.mpr h)]
      simp only [List.length_cons, List.length_nil]
      omega

/-- The two encoders agree on no text with a slash. -/
theorem getProjectDirForWorktree_ne {cwd : String} (h : '/' ∈ cwd.toList) :
    getProjectDirForWorktree cwd ≠ sanitizedCwd cwd := by
  intro heq
  have hlength : (doubleDash '\\' (doubleDash '/' cwd.toList)).length = cwd.toList.length := by
    have htexts := congrArg String.toList heq
    rw [getProjectDirForWorktree, sanitizedCwd, String.toList_ofList,
      String.toList_ofList] at htexts
    rw [htexts, List.length_map]
  have hcount := List.count_pos_iff.mpr h
  rw [length_doubleDash, length_doubleDash] at hlength
  omega

/-- The path of a worktree begins with a slash. -/
theorem exists_worktreeText (base : List String) (c : Conversation) :
    ∃ rest, (worktreeText base c).toList = '/' :: rest := by
  have hpath : ∀ p : List String, p ≠ [] → ∃ rest, (pathText "" p).toList = '/' :: rest := by
    intro p hp
    cases p with
    | nil => exact absurd rfl hp
    | cons segment p => exact ⟨_, String.toList_ofList⟩
  apply hpath
  rw [worktreePath_eq]
  exact List.append_ne_nil_of_right_ne_nil _ (List.cons_ne_nil _ _)

/-- The SDK's name is the one that is looked up. -/
theorem sanitizedCwd_worktreeText (base : List String) (c : Conversation) :
    sanitizedCwd (worktreeText base c) = Fallback.projectName base c := by
  rw [sanitizedCwd, worktreeText, pathText, String.toList_ofList]
  rfl

/-- A transcript that the SDK has written is found where it is. -/
theorem findTranscriptPath_of_written (h : Written base c projects sessionId) :
    findTranscriptPath (some projects) sessionId (worktreeText base c) =
      some (sanitizedCwd (worktreeText base c), sessionId ++ ".jsonl") := by
  obtain ⟨rest, hrest⟩ := exists_worktreeText base c
  have hne : worktreeText base c ≠ "" := by
    intro hempty
    rw [hempty] at hrest
    cases hrest
  obtain ⟨p, hp, hname, hfile⟩ := h.stored
  have hany : projects.any (fun p ↦
      p.name = sanitizedCwd (worktreeText base c) && p.has (sessionId ++ ".jsonl")) = true := by
    refine List.any_eq_true.mpr ⟨p, hp, ?_⟩
    rw [hname, sanitizedCwd_worktreeText, hfile, Bool.and_true, decide_eq_true rfl]
  unfold findTranscriptPath
  simp only [h.valid]
  rw [if_pos ⟨hne, hany⟩]

/-- The directory that is deleted is never the one with the transcripts. -/
theorem not_removesTranscripts (h : Written base c projects sessionId) :
    ¬ RemovesTranscripts base c projects sessionId := by
  rintro ⟨hfound, _⟩
  obtain ⟨rest, hrest⟩ := exists_worktreeText base c
  have hslash : '/' ∈ (worktreeText base c).toList := by
    rw [hrest]
    exact List.mem_cons_self
  exact getProjectDirForWorktree_ne hslash (hfound _ _ (findTranscriptPath_of_written h)).symm

end Encoders

/-! ### No two worktrees share a directory -/

section Unshared

/-- The parts of a workflow name are not empty, whatever the dollar sign lets pass. -/
theorem nil_not_mem_workflow {workflow : String} (h : validateWorkflowName workflow = .ok ()) :
    [] ∉ workflow.toList.splitOn '-' := by
  have hmatch := matches_of_valid h
  have hparts : ∀ text : List Char, (text.splitOn '-').all
      (fun part ↦ part ≠ [] && part.all fun c ↦ c.isLower || c.isDigit) = true →
        [] ∉ text.splitOn '-' := by
    intro text hall hmem
    simpa using List.all_eq_true.mp hall [] hmem
  by_cases hlast : workflow.toList.getLast? = some '\n'
  · have hbody : [] ∉ workflow.toList.dropLast.splitOn '-' := by
      apply hparts
      simpa [matchesWorkflowName, hlast] using hmatch
    rw [← List.dropLast_append_getLast? '\n' hlast, List.splitOn, splitOnP_append]
    rw [List.splitOn, splitOnP_eq] at hbody
    -- The newline is added to the last part.
    rw [List.splitOnP_eq_singleton]
    · intro hmem
      rcases List.mem_append.mp hmem with hmem | hmem
      · exact hbody (List.mem_append_left _ hmem)
      · simp at hmem
    · intro a ha
      rcases List.mem_append.mp ha with ha | ha
      · simpa using not_of_mem_unfinished ha
      · rw [List.mem_singleton.mp ha]
        decide
  · apply hparts
    simpa [matchesWorkflowName, hlast] using hmatch

/-- Nor are those of the thread directory. -/
theorem nil_not_mem_thread (c : Conversation) :
    [] ∉ (c.threadType.value.toList ++ '-' :: c.threadId.toList).splitOn '-' := by
  have hid : '-' ∉ c.threadId.toList := by
    intro hmem
    have hdigit := mem_number c.threadId_valid hmem
    revert hdigit
    decide
  have hne : c.threadId.toList ≠ [] := by
    intro hnil
    have hvalid := c.threadId_valid
    rw [isDecimal, Bool.and_eq_true, decide_eq_true_iff] at hvalid
    exact hvalid.1 (String.toList_eq_nil_iff.mp hnil)
  rw [List.splitOn_append_cons_self, List.splitOn_eq_singleton hid,
    List.splitOn_eq_singleton (not_mem_type c.threadType (.inr (.inr rfl)))]
  intro hmem
  rcases List.mem_cons.mp hmem with hnil | hmem
  · revert hnil
    cases c.threadType <;> decide
  · exact hne (List.mem_singleton.mp hmem).symm

theorem backslash_not_mem (c : Conversation) : ∀ field ∈ pathFields c, '\\' ∉ field := by
  have howner : '\\' ∉ c.owner.toList := by
    intro hmem
    have hmem := mem_owner c.owner_valid hmem
    revert hmem
    decide
  have hname : '\\' ∉ c.name.toList := by
    intro hmem
    have hmem := mem_name c.name_valid hmem
    revert hmem
    decide
  have htype : '\\' ∉ c.threadType.value.toList := by
    cases c.threadType <;> decide
  have hid : '\\' ∉ c.threadId.toList := by
    intro hmem
    have hmem := mem_number c.threadId_valid hmem
    revert hmem
    decide
  have hworkflow : '\\' ∉ c.workflow.toList := by
    intro hmem
    have hmem := mem_workflow c.workflow_valid hmem
    revert hmem
    decide
  simp [pathFields, sanitizeRepoKey_repo, howner, hname, htype, hid, hworkflow]

/-- A directory of the path is written behind two hyphens. -/
theorem doubleDash_segment {segment : List Char} (hslash : '/' ∉ segment)
    (hbackslash : '\\' ∉ segment) :
    doubleDash '\\' (doubleDash '/' ('/' :: segment)) = '-' :: '-' :: segment := by
  have hfirst : doubleDash '/' ('/' :: segment) = '-' :: '-' :: segment := by
    rw [doubleDash, List.flatMap_cons, flatMap_of_not_mem hslash]
    rfl
  have hsecond : '\\' ∉ '-' :: '-' :: segment := by
    simp [hbackslash]
  rw [hfirst]
  exact flatMap_of_not_mem hsecond

/-- The name of the directory: the base, and the fields of the path between doubled hyphens. -/
theorem getProjectDirForWorktree_toList (base : List String) (c : Conversation) :
    (getProjectDirForWorktree (worktreeText base c)).toList =
      doubleDash '\\' (doubleDash '/' (pathText "" base).toList) ++ '-' :: '-' ::
        (((sanitizeRepoKey c.repo).toList ++ '-' :: '-' ::
          (c.threadType.value.toList ++ '-' :: c.threadId.toList)) ++ '-' :: '-' ::
            c.workflow.toList) := by
  have hthread : (c.threadType.value ++ "-" ++ c.threadId).toList =
      c.threadType.value.toList ++ '-' :: c.threadId.toList := by
    simp [String.toList_append, toList_hyphen]
  have hpath : (worktreeText base c).toList = (pathText "" base).toList ++
      ('/' :: (sanitizeRepoKey c.repo).toList ++
        ('/' :: (c.threadType.value.toList ++ '-' :: c.threadId.toList) ++
          '/' :: c.workflow.toList)) := by
    rw [worktreeText, worktreePath_eq, pathText, pathText, String.toList_ofList,
      String.toList_ofList, List.flatMap_append, ← List.append_assoc, ← hthread]
    simp [getWorktreePath]
  have hslash := not_mem_pathFields c (.inr rfl)
  have hbackslash := backslash_not_mem c
  simp only [pathFields, List.forall_mem_cons] at hslash hbackslash
  obtain ⟨hrepo, hnumber, hworkflow, _⟩ := hslash
  obtain ⟨hrepo', hnumber', hworkflow', _⟩ := hbackslash
  rw [getProjectDirForWorktree, String.toList_ofList, hpath]
  simp only [doubleDash_append]
  rw [doubleDash_segment hrepo hrepo', doubleDash_segment hnumber hnumber',
    doubleDash_segment hworkflow hworkflow']
  simp only [List.cons_append, List.append_assoc]

/-- No two worktree paths have one directory. -/
theorem getProjectDirForWorktree_injective (base : List String) :
    Function.Injective fun c : Conversation ↦ getProjectDirForWorktree (worktreeText base c) := by
  intro c d h
  have htexts := congrArg String.toList h
  simp only [getProjectDirForWorktree_toList] at htexts
  have hfields := (List.cons.inj (List.cons.inj (List.append_cancel_left htexts)).2).2
  obtain ⟨hthread, hworkflow⟩ := append_cons_cons_inj_right (nil_not_mem_workflow c.workflow_valid)
    (nil_not_mem_workflow d.workflow_valid) hfields
  obtain ⟨hrepo, hthread⟩ := append_cons_cons_inj_right (nil_not_mem_thread c)
    (nil_not_mem_thread d) hthread
  apply pathFields_inj
  rw [pathFields, pathFields, hrepo, hthread, hworkflow]

end Unshared

/-! ### The transcript of a triage -/

/-- The directory of the worktrees in the container. -/
def containerBase : List String := ["home", "bot", ".claude", "worktrees"]

/-- A conversation about issue 3. -/
def triage : Conversation where
  owner := "octo"
  name := "app"
  threadType := .issue
  threadId := "3"
  workflow := "triage"
  owner_valid := Fallback.otherConversation.owner_valid
  name_valid := by decide
  threadId_valid := by decide
  workflow_valid := Fallback.otherConversation.workflow_valid

/-- The directory of its transcript. -/
def triageProject : ProjectEntry where
  name := Fallback.projectName containerBase triage
  isDir := true
  files := ["session.jsonl"]

theorem written_triage : Written containerBase triage [triageProject] "session" :=
  ⟨by decide, triageProject, List.mem_singleton_self _, rfl, by decide⟩

/-- Its cleanup leaves the transcript. -/
theorem not_removesTranscripts_triage :
    ¬ RemovesTranscripts containerBase triage [triageProject] "session" :=
  not_removesTranscripts written_triage

/-- Cleaning up does not remove the directories that the transcripts are in. -/
theorem not_cleansUp : ¬ ∀ (base : List String) (c : Conversation) (projects : List ProjectEntry)
    (sessionId : String), Written base c projects sessionId →
      RemovesTranscripts base c projects sessionId := by
  intro hall
  have hfound := (hall containerBase triage [triageProject] "session" written_triage).found _ _
    (findTranscriptPath_of_written written_triage)
  refine getProjectDirForWorktree_ne ?_ hfound.symm
  obtain ⟨rest, hrest⟩ := exists_worktreeText containerBase triage
  rw [hrest]
  exact List.mem_cons_self

end GithubAgent.Worktree
