import GithubAgent.Base.Directories
import GithubAgent.Base.Transition
import GithubAgent.Session.Store

/-!
# Orphaned worktrees

The directories under `WORKTREE_BASE`: the deterministic worktrees of persistent jobs, the
ephemeral workspaces of the other jobs and of the retrospector, and what checkouts and runs
leave in them. `detect_orphan_worktrees` (`src/shared/worktree_manager.py`) takes every
directory of the third level for a worktree.
-/

namespace GithubAgent.Worktree

open GithubAgent.Base GithubAgent.Shared GithubAgent.Session

/-- The text of a path below the base directory. -/
def pathText (base : String) (p : List String) : String :=
  String.ofList (base.toList ++ p.flatMap fun segment ↦ '/' :: segment.toList)

/-- `detect_orphan_worktrees` (`worktree_manager.py:326-359`). -/
def detectOrphanWorktrees (base : String) (t : Directories String)
    (sessions : List SessionInfo) : List (List String) :=
  let activePaths := sessions.map (·.worktreePath)
  (t.children []).flatMap fun repoDir ↦
    (t.children [repoDir]).flatMap fun threadDir ↦
      (t.children [repoDir, threadDir]).filterMap fun workflowDir ↦
        if pathText base [repoDir, threadDir, workflowDir] ∈ activePaths then none
        else some [repoDir, threadDir, workflowDir]

/-- The workspace of a job: the worktree of its conversation, or a directory of its own. -/
inductive Workspace where
  | persistent (key : WorktreeKey)
  | ephemeral (name : String)
  deriving DecidableEq

/-- Where a workspace is (`processor.py:231-256`, `retrospector_worker.py:131-134`). -/
def Workspace.path : Workspace → List String
  | .persistent key => getWorktreePath key.repo key.threadType key.threadId key.workflow
  | .ephemeral name => ["ephemeral", name]

/-- A checkout into a workspace, or a run in it, replaces what is below it. -/
def fill (t : Directories String) (p : List String) (contents : List (List String)) :
    Directories String :=
  contents.foldl (fun t c ↦ t.mkdirs (p ++ c)) ((t.rmtree p).mkdirs p)

/-- The tree, the session records and the workspaces of the jobs that have not finished. -/
structure Disk where
  dirs : Directories String := [[]]
  sessions : List SessionInfo := []
  running : List Workspace := []

/-- The steps: a job creates its workspace, works in it, saves its session and finishes; a
record expires or is deleted; worktrees are cleaned up. The contents are what the step finds
below the workspace afterwards. -/
inductive DiskAction where
  | persistent (key : WorktreeKey) (contents : List (List String))
  | ephemeral (jobId random : String) (contents : List (List String))
  | retrospector (random : String) (contents : List (List String))
  | work (w : Workspace) (contents : List (List String))
  | save (key : WorktreeKey) (now sessionId ref : String) (turnCount : Int)
      (streamingToken : Option String)
  | finish (w : Workspace) (removed : Bool)
  | forget (key : WorktreeKey)
  | cleanup (repo : String) (worktrees : List (String × String))
  | sweep

/-- `tempfile.mkdtemp` under `ephemeral`: the directory is new. -/
def Disk.mkdtemp (s : Disk) (name : String) (contents : List (List String)) : Option Disk :=
  let w := Workspace.ephemeral name
  if w.path ∈ s.dirs then none
  else some { s with dirs := fill s.dirs w.path contents, running := w :: s.running }

/-- `cleanup_worktrees` and `cleanup_worktrees_by_branch`: some worktrees of a repository are
removed, with the thread directories that become empty (`worktree_manager.py:229-324`). -/
def removeWorktrees (t : Directories String) (repo : String) (worktrees : List (String × String)) :
    Directories String :=
  worktrees.foldl (fun t (thread, workflow) ↦
    (t.rmtree [sanitizeRepoKey repo, thread, workflow]).rmdir [sanitizeRepoKey repo, thread]) t

/-- The system of all jobs; a repository is given by its full name `owner/repo`. -/
def disk (base : String) : System Disk DiskAction where
  init s := s = {}
  step s
    | .persistent key contents =>
      let w := Workspace.persistent key
      if '/' ∈ key.repo.toList then
        some { s with dirs := fill s.dirs w.path contents, running := w :: s.running }
      else none
    | .ephemeral jobId random contents => s.mkdtemp ("job_" ++ jobId ++ "_" ++ random) contents
    | .retrospector random contents => s.mkdtemp ("retro_" ++ random) contents
    | .work w contents =>
      if w ∈ s.running then some { s with dirs := fill s.dirs w.path contents } else none
    | .save key now sessionId ref turnCount streamingToken =>
      let w := Workspace.persistent key
      let same (info : SessionInfo) : Bool :=
        sessionKey info.key.repo info.key.threadType info.key.threadId info.key.workflow =
          sessionKey key.repo key.threadType key.threadId key.workflow
      if w ∈ s.running ∧ sessionId ≠ "" then
        some { s with
          sessions := saveSession (s.sessions.find? same) now key sessionId
              (pathText base w.path) ref turnCount none streamingToken ::
            s.sessions.filter (!same ·) }
      else none
    | .finish w removed =>
      if w ∈ s.running then
        some { s with
          running := s.running.erase w
          dirs :=
            match w with
            | .ephemeral _ => if removed then s.dirs.rmtree w.path else s.dirs
            | .persistent _ => s.dirs }
      else none
    | .forget key => some { s with sessions := s.sessions.filter (·.key ≠ key) }
    | .cleanup repo worktrees => some { s with dirs := removeWorktrees s.dirs repo worktrees }
    | .sweep =>
      some { s with
        dirs := (detectOrphanWorktrees base s.dirs s.sessions).foldl Directories.rmtree s.dirs }

/-- What the detector returns are deterministic worktrees without a session, away from the
workspaces in use. -/
structure Spared (base : String) (s : Disk) : Prop where
  deterministic : ∀ p ∈ detectOrphanWorktrees base s.dirs s.sessions,
    (∃ repo threadType threadId workflow,
      p = getWorktreePath repo threadType threadId workflow) ∧
    ∀ info ∈ s.sessions, info.worktreePath ≠ pathText base p
  unused : ∀ p ∈ detectOrphanWorktrees base s.dirs s.sessions, ∀ w ∈ s.running,
    ¬ p <+: w.path ∧ ¬ w.path <+: p

/-- No ephemeral workspace has a subdirectory, and the worktree of every running persistent job
is named by a record. -/
def Named (base : String) (s : Disk) : Prop :=
  (∀ name sub, ["ephemeral", name, sub] ∉ s.dirs) ∧
    ∀ key, .persistent key ∈ s.running → (Workspace.persistent key).path ∈ s.dirs →
      ∃ info ∈ s.sessions, info.worktreePath = pathText base (Workspace.persistent key).path

/-! ### The shape of the tree -/

/-- The workspace has the name of its kind. -/
def Workspace.WellNamed : Workspace → Prop
  | .persistent key => '/' ∈ key.repo.toList
  | .ephemeral name => (∃ rest, name = "job_" ++ rest) ∨ ∃ rest, name = "retro_" ++ rest

/-- The directory leads to a workspace or is in one. -/
def Placed (p : List String) : Prop :=
  ∃ w : Workspace, w.WellNamed ∧ (p <+: w.path ∨ w.path <+: p)

/-- The invariant: the tree is closed, all of it belongs to workspaces, and the records name
deterministic worktrees. -/
structure Shaped (base : String) (s : Disk) : Prop where
  closed : s.dirs.Closed
  placed : ∀ p ∈ s.dirs, Placed p
  running : ∀ w ∈ s.running, w.WellNamed
  sessions : ∀ info ∈ s.sessions, ∃ key : WorktreeKey, '/' ∈ key.repo.toList ∧
    info.worktreePath = pathText base (Workspace.persistent key).path

section Detector

variable {base : String} {t : Directories String} {sessions : List SessionInfo}
  {p : List String}

/-- The detector returns the directories of the third level that no record names. -/
theorem mem_detectOrphanWorktrees (hclosed : t.Closed) :
    p ∈ detectOrphanWorktrees base t sessions ↔
      p.length = 3 ∧ p ∈ t ∧ ∀ info ∈ sessions, info.worktreePath ≠ pathText base p := by
  simp only [detectOrphanWorktrees, List.mem_flatMap, List.mem_filterMap, Directories.mem_children]
  constructor
  · rintro ⟨repo, _, thread, _, workflow, hworkflow, hp⟩
    split at hp
    · cases hp
    · next hnone =>
      cases hp
      refine ⟨rfl, hworkflow, ?_⟩
      intro info hinfo heq
      exact hnone (List.mem_map.mpr ⟨info, hinfo, heq⟩)
  · rintro ⟨hlength, hp, hnone⟩
    obtain ⟨repo, thread, workflow, rfl⟩ := List.length_eq_three.mp hlength
    refine ⟨repo, hclosed _ hp _ ⟨[thread, workflow], rfl⟩, thread,
      hclosed _ hp _ ⟨[workflow], rfl⟩, workflow, hp, ?_⟩
    rw [if_neg]
    intro hactive
    obtain ⟨info, hinfo, heq⟩ := List.mem_map.mp hactive
    exact hnone info hinfo heq

/-- A filled workspace changes nothing else. -/
theorem mem_fill {x : List String} {contents : List (List String)} (h : x ∈ fill t p contents) :
    x ∈ t ∨ x <+: p ∨ p <+: x := by
  have hkeep : ∀ x ∈ fill t p contents, x ∈ t ∨ x <+: p ∨ p <+: x := by
    unfold fill
    refine List.foldlRecOn (motive := fun t' ↦ ∀ x ∈ t', x ∈ t ∨ x <+: p ∨ p <+: x) contents _ ?_ ?_
    · intro x hx
      rcases Directories.mem_mkdirs.mp hx with hlead | hold
      · exact .inr (.inl hlead)
      · exact .inl (Directories.mem_rmtree.mp hold).1
    · intro t' ht' c _ x hx
      rcases Directories.mem_mkdirs.mp hx with hlead | hold
      · exact .inr (List.prefix_or_prefix_of_prefix hlead (List.prefix_append p c))
      · exact ht' x hold
  exact hkeep x h

theorem closed_fill (h : t.Closed) (p : List String) (contents : List (List String)) :
    (fill t p contents).Closed :=
  List.foldlRecOn contents _ ((h.rmtree p).mkdirs p) fun _ ht c _ ↦ ht.mkdirs (p ++ c)

/-- Cleaning up only removes directories. -/
theorem removeWorktrees_spec (h : t.Closed) (repo : String) (worktrees : List (String × String)) :
    (removeWorktrees t repo worktrees).Closed ∧ ∀ x ∈ removeWorktrees t repo worktrees, x ∈ t := by
  unfold removeWorktrees
  refine List.foldlRecOn (motive := fun t' ↦ t'.Closed ∧ ∀ x ∈ t', x ∈ t) worktrees _
    ⟨h, fun _ hx ↦ hx⟩ ?_
  rintro t' ⟨hclosed, hsub⟩ ⟨thread, workflow⟩ _
  refine ⟨(hclosed.rmtree _).rmdir _, ?_⟩
  intro x hx
  exact hsub x (Directories.mem_rmtree.mp (Directories.mem_of_mem_rmdir hx)).1

theorem sweep_spec (h : t.Closed) (orphans : List (List String)) :
    (orphans.foldl Directories.rmtree t).Closed ∧
      ∀ x ∈ orphans.foldl Directories.rmtree t, x ∈ t := by
  refine List.foldlRecOn (motive := fun t' ↦ t'.Closed ∧ ∀ x ∈ t', x ∈ t) orphans _
    ⟨h, fun _ hx ↦ hx⟩ ?_
  rintro t' ⟨hclosed, hsub⟩ p _
  exact ⟨hclosed.rmtree p, fun x hx ↦ hsub x (Directories.mem_rmtree.mp hx).1⟩

end Detector

section Shape

variable {base : String} {s s' : Disk}

/-- Filling a workspace of its kind keeps the shape. -/
theorem Shaped.fill (h : Shaped base s) {w : Workspace} (hw : w.WellNamed)
    (contents : List (List String)) {running : List Workspace}
    (hrunning : ∀ w' ∈ running, w' = w ∨ w' ∈ s.running) :
    Shaped base { s with dirs := fill s.dirs w.path contents, running := running } := by
  refine ⟨closed_fill h.closed _ _, ?_, ?_, h.sessions⟩
  · intro x hx
    rcases mem_fill hx with hold | hplaced
    · exact h.placed x hold
    · exact ⟨w, hw, hplaced⟩
  · intro w' hw'
    rcases hrunning w' hw' with rfl | hold
    · exact hw
    · exact h.running w' hold

/-- A tree with fewer directories, and fewer running jobs, keeps the shape. -/
theorem Shaped.shrink (h : Shaped base s) {t : Directories String} {running : List Workspace}
    (hclosed : t.Closed) (hsub : ∀ x ∈ t, x ∈ s.dirs) (hrunning : ∀ w ∈ running, w ∈ s.running) :
    Shaped base { s with dirs := t, running := running } :=
  ⟨hclosed, fun x hx ↦ h.placed x (hsub x hx), fun w hw ↦ h.running w (hrunning w hw),
    h.sessions⟩

theorem Shaped.mkdtemp (h : Shaped base s) {name : String} {contents : List (List String)}
    (hname : (Workspace.ephemeral name).WellNamed) (hs : s.mkdtemp name contents = some s') :
    Shaped base s' := by
  unfold Disk.mkdtemp at hs
  dsimp only at hs
  split at hs
  · cases hs
  · cases hs
    exact h.fill hname contents fun w' hw' ↦ List.mem_cons.mp hw'

/-- Every step keeps the shape. -/
theorem Shaped.step (h : Shaped base s) {a : DiskAction} (hs : (disk base).step s a = some s') :
    Shaped base s' := by
  cases a with
  | persistent key contents =>
    simp only [disk] at hs
    split at hs
    · next hrepo =>
      cases hs
      have hname : (Workspace.persistent key).WellNamed := hrepo
      exact h.fill hname contents fun w' hw' ↦ List.mem_cons.mp hw'
    · cases hs
  | ephemeral jobId random contents =>
    refine h.mkdtemp (.inl ⟨jobId ++ "_" ++ random, ?_⟩) hs
    rw [String.append_assoc, String.append_assoc, String.append_assoc]
  | retrospector random contents => exact h.mkdtemp (.inr ⟨random, rfl⟩) hs
  | work w contents =>
    simp only [disk] at hs
    split at hs
    · next hw =>
      cases hs
      exact h.fill (h.running w hw) contents fun w' hw' ↦ .inr hw'
    · cases hs
  | save key now sessionId ref turnCount streamingToken =>
    simp only [disk] at hs
    split at hs
    · next hsave =>
      cases hs
      refine ⟨h.closed, h.placed, h.running, ?_⟩
      intro info hinfo
      rcases List.mem_cons.mp hinfo with rfl | hold
      · exact ⟨key, h.running _ hsave.1, rfl⟩
      · exact h.sessions info (List.mem_of_mem_filter hold)
    · cases hs
  | finish w removed =>
    simp only [disk] at hs
    split at hs
    · cases hs
      have hrunning : ∀ w' ∈ s.running.erase w, w' ∈ s.running := fun _ hw' ↦ List.mem_of_mem_erase hw'
      cases w with
      | persistent key => exact h.shrink h.closed (fun _ hx ↦ hx) hrunning
      | ephemeral name =>
        cases removed with
        | false => exact h.shrink h.closed (fun _ hx ↦ hx) hrunning
        | true =>
          exact h.shrink (h.closed.rmtree _) (fun _ hx ↦ (Directories.mem_rmtree.mp hx).1) hrunning
    · cases hs
  | forget key =>
    cases hs
    exact ⟨h.closed, h.placed, h.running,
      fun info hinfo ↦ h.sessions info (List.mem_of_mem_filter hinfo)⟩
  | cleanup repo worktrees =>
    cases hs
    obtain ⟨hclosed, hsub⟩ := removeWorktrees_spec h.closed repo worktrees
    exact h.shrink hclosed hsub fun _ hw ↦ hw
  | sweep =>
    cases hs
    obtain ⟨hclosed, hsub⟩ := sweep_spec h.closed (detectOrphanWorktrees base s.dirs s.sessions)
    exact h.shrink hclosed hsub fun _ hw ↦ hw

/-- The run rule for the shape. -/
theorem shaped_of_reach (h : (disk base).Reach s) : Shaped base s := by
  refine h.invariant ?_ ?_
  · rintro _ rfl
    refine ⟨?_, ?_, ?_, ?_⟩
    · intro x hx d hd
      rw [List.mem_singleton.mp hx] at hd
      rw [List.prefix_nil.mp hd]
      exact List.mem_singleton_self _
    · intro p hp
      rw [List.mem_singleton.mp hp]
      exact ⟨.ephemeral ("job_" ++ ""), .inl ⟨"", rfl⟩, .inl List.nil_prefix⟩
    · intro w hw
      cases hw
    · intro info hinfo
      cases hinfo
  · intro t a t' ht _ hs
    exact ht.step hs

end Shape

/-! ### What is spared -/

section Names

/-- A full repository name is not the directory of the ephemeral workspaces. -/
theorem sanitizeRepoKey_ne {repo : String} (h : '/' ∈ repo.toList) :
    sanitizeRepoKey repo ≠ "ephemeral" ∧ '/' ∉ (sanitizeRepoKey repo).toList := by
  unfold sanitizeRepoKey
  constructor
  · intro heq
    have hhyphen : '-' ∈ "ephemeral".toList := by
      rw [← heq, String.toList_ofList]
      exact List.mem_flatMap.mpr ⟨'/', h, by simp⟩
    revert hhyphen
    decide
  · rw [String.toList_ofList]
    intro hmem
    obtain ⟨c, _, hc⟩ := List.mem_flatMap.mp hmem
    split at hc
    · simp at hc
    · next hne => exact hne (List.mem_singleton.mp hc).symm

/-- The text of a path tells its first segment. -/
theorem pathText_first {base first first' : String} {rest rest' : List String}
    (h : '/' ∉ first.toList) (h' : '/' ∉ first'.toList) (hrest : rest ≠ []) (hrest' : rest' ≠ [])
    (heq : pathText base (first :: rest) = pathText base (first' :: rest')) : first = first' := by
  obtain ⟨second, more, rfl⟩ := List.exists_cons_of_ne_nil hrest
  obtain ⟨second', more', rfl⟩ := List.exists_cons_of_ne_nil hrest'
  have hchars : (first.toList ++ '/' :: (second.toList ++ more.flatMap fun x ↦ '/' :: x.toList)) =
      first'.toList ++ '/' :: (second'.toList ++ more'.flatMap fun x ↦ '/' :: x.toList) := by
    have htext := congrArg String.toList heq
    simpa [pathText] using htext
  have hcut {name : String} (hname : '/' ∉ name.toList) (tail : List Char) :
      (name.toList ++ '/' :: tail).takeWhile (· ≠ '/') = name.toList := by
    rw [List.takeWhile_append_of_pos (by
      intro c hc
      rw [decide_eq_true_eq]
      rintro rfl
      exact hname hc)]
    simp
  rw [← String.toList_inj, ← hcut h, hchars, hcut h']

/-- The names of ephemeral workspaces are not those of threads. -/
theorem threadDir_ne {name : String} (h : (Workspace.ephemeral name).WellNamed)
    (threadType : ThreadType) (threadId : String) :
    name ≠ threadType.value ++ "-" ++ threadId := by
  rintro rfl
  rcases h with ⟨rest, heq⟩ | ⟨rest, heq⟩
  · have hchars := congrArg String.toList heq
    cases threadType <;> simp [ThreadType.value] at hchars
  · have hchars := congrArg String.toList heq
    cases threadType <;> simp [ThreadType.value] at hchars

end Names

section Spared

variable {base : String} {s : Disk} {p : List String}

/-- A directory of the third level is a deterministic worktree or in an ephemeral workspace. -/
theorem Placed.cases (h : Placed p) (hlength : p.length = 3) :
    (∃ key : WorktreeKey, '/' ∈ key.repo.toList ∧ p = (Workspace.persistent key).path) ∨
      ∃ name sub, (Workspace.ephemeral name).WellNamed ∧ p = ["ephemeral", name, sub] := by
  obtain ⟨w, hname, hp⟩ := h
  cases w with
  | persistent key =>
    refine .inl ⟨key, hname, ?_⟩
    have hkey : (Workspace.persistent key).path.length = 3 := rfl
    rcases hp with hp | hp
    · exact hp.eq_of_length (hlength.trans hkey.symm)
    · exact (hp.eq_of_length (hkey.trans hlength.symm)).symm
  | ephemeral name =>
    refine .inr ?_
    have hname' : (Workspace.ephemeral name).path.length = 2 := rfl
    rcases hp with hp | hp
    · have hle := hp.length_le
      omega
    · obtain ⟨rest, rfl⟩ := hp
      rw [List.length_append, hname'] at hlength
      obtain ⟨sub, rfl⟩ := List.length_eq_one_iff.mp (show rest.length = 1 by omega)
      exact ⟨name, sub, hname, rfl⟩

/-- No record names a directory in an ephemeral workspace. -/
theorem Shaped.not_named (h : Shaped base s) (name sub : String) :
    ∀ info ∈ s.sessions, info.worktreePath ≠ pathText base ["ephemeral", name, sub] := by
  intro info hinfo heq
  obtain ⟨key, hrepo, hpath⟩ := h.sessions info hinfo
  obtain ⟨hne, hslash⟩ := sanitizeRepoKey_ne hrepo
  have htext : pathText base (Workspace.persistent key).path =
      pathText base ["ephemeral", name, sub] := hpath.symm.trans heq
  exact hne (pathText_first hslash (by decide) (by simp) (by simp) htext)

/-- In every reachable state, the detector spares what is in use exactly when no ephemeral
workspace has a subdirectory and every worktree in use is named by a record. -/
theorem spared_iff (h : (disk base).Reach s) : Spared base s ↔ Named base s := by
  have hshape := shaped_of_reach h
  constructor
  · rintro ⟨hdeterministic, hunused⟩
    constructor
    · intro name sub hp
      have horphan : ["ephemeral", name, sub] ∈
          detectOrphanWorktrees base s.dirs s.sessions :=
        (mem_detectOrphanWorktrees hshape.closed).mpr ⟨rfl, hp, hshape.not_named name sub⟩
      obtain ⟨⟨repo, threadType, threadId, workflow, hpath⟩, _⟩ := hdeterministic _ horphan
      rcases (hshape.placed _ hp).cases rfl with ⟨key, hrepo, hkey⟩ | ⟨name', sub', hname, heq⟩
      · exact (sanitizeRepoKey_ne hrepo).1 (List.cons.inj hkey).1.symm
      · have hsame : name = name' := (List.cons.inj (List.cons.inj heq).2).1
        have hthread := (List.cons.inj (List.cons.inj hpath).2).1
        exact threadDir_ne (hsame ▸ hname) threadType threadId hthread
    · intro key hrunning hp
      by_contra hnone
      have horphan : (Workspace.persistent key).path ∈
          detectOrphanWorktrees base s.dirs s.sessions := by
        refine (mem_detectOrphanWorktrees hshape.closed).mpr ⟨rfl, hp, ?_⟩
        intro info hinfo heq
        exact hnone ⟨info, hinfo, heq⟩
      exact (hunused _ horphan _ hrunning).1 List.prefix_rfl
  · rintro ⟨hempty, hnamed⟩
    have hkeys : ∀ p ∈ detectOrphanWorktrees base s.dirs s.sessions,
        p.length = 3 ∧ p ∈ s.dirs ∧ (∀ info ∈ s.sessions, info.worktreePath ≠ pathText base p) ∧
          ∃ key : WorktreeKey, p = (Workspace.persistent key).path := by
      intro p hp
      obtain ⟨hlength, hdir, hnone⟩ := (mem_detectOrphanWorktrees hshape.closed).mp hp
      refine ⟨hlength, hdir, hnone, ?_⟩
      rcases (hshape.placed p hdir).cases hlength with ⟨key, _, hkey⟩ | ⟨name, sub, _, rfl⟩
      · exact ⟨key, hkey⟩
      · exact absurd hdir (hempty name sub)
    constructor
    · intro p hp
      obtain ⟨_, _, hnone, key, rfl⟩ := hkeys p hp
      exact ⟨⟨key.repo, key.threadType, key.threadId, key.workflow, rfl⟩, hnone⟩
    · intro p hp w hw
      obtain ⟨hlength, hdir, hnone, key, rfl⟩ := hkeys p hp
      cases w with
      | persistent key' =>
        have hsame : (Workspace.persistent key').path ≠ (Workspace.persistent key).path := by
          intro heq
          rw [← heq] at hdir hnone
          obtain ⟨info, hinfo, hpath⟩ := hnamed key' hw hdir
          exact hnone info hinfo hpath
        exact ⟨fun hle ↦ hsame (hle.eq_of_length rfl).symm, fun hle ↦ hsame (hle.eq_of_length rfl)⟩
      | ephemeral name =>
        constructor
        · intro hle
          have hlong := hle.length_le
          have hthree : (Workspace.persistent key).path.length = 3 := rfl
          have htwo : (Workspace.ephemeral name).path.length = 2 := rfl
          omega
        · rintro ⟨rest, hrest⟩
          have hsub : ∃ sub, (Workspace.persistent key).path = ["ephemeral", name, sub] := by
            obtain ⟨sub, rfl⟩ := List.length_eq_one_iff.mp (show rest.length = 1 by
              have hsum := congrArg List.length hrest
              rw [List.length_append, hlength] at hsum
              have htwo : (Workspace.ephemeral name).path.length = 2 := rfl
              omega)
            exact ⟨sub, hrest.symm⟩
          obtain ⟨sub, hsub⟩ := hsub
          exact hempty name sub (hsub ▸ hdir)

end Spared

/-! ### The first run of a conversation -/

/-- The conversation of issue 3. -/
def issueKey : WorktreeKey := ⟨"o/r", .issue, "3", "triage"⟩

/-- A second run, whose worktree the first run's session names. -/
theorem spared_iff_secondRun : ∃ s : Disk, s.running ≠ [] ∧ Spared "/base" s := by
  obtain ⟨s, hs, hdirs, hrunning, hsessions⟩ := System.exists_reachWhen (disk "/base")
    System.always
    (fun s ↦ s.dirs.all (fun p ↦ p.head? ≠ some "ephemeral") = true ∧
      s.running = [.persistent issueKey] ∧
      s.sessions.map (·.worktreePath) = ["/base/o--r/issue-3/triage"])
    [.persistent issueKey [["src"]], .save issueKey "" "session" "main" 3 none,
      .finish (.persistent issueKey) false, .persistent issueKey [["src"]]]
    rfl (by decide)
  refine ⟨s, by simp [hrunning], (spared_iff hs).mpr ⟨?_, ?_⟩⟩
  · intro name sub hp
    have hhead := List.all_eq_true.mp hdirs _ hp
    simp at hhead
  · intro key hkey _
    rw [hrunning, List.mem_singleton] at hkey
    cases hkey
    obtain ⟨info, hinfo, hpath⟩ : ∃ info ∈ s.sessions,
        info.worktreePath = "/base/o--r/issue-3/triage" := by
      rw [← List.mem_map, hsessions]
      exact List.mem_singleton_self _
    exact ⟨info, hinfo, hpath.trans (by decide)⟩

/-- The worktree of a first run has no session record yet. -/
theorem not_spared : ¬ ∀ (base : String) (s : Disk), (disk base).Reach s → Spared base s := by
  intro hall
  obtain ⟨s, hs, hmem, hrunning⟩ := System.exists_reachWhen (disk "/base") System.always
    (fun s ↦ (Workspace.persistent issueKey).path ∈
        detectOrphanWorktrees "/base" s.dirs s.sessions ∧
      Workspace.persistent issueKey ∈ s.running)
    [.persistent issueKey []] rfl (by decide)
  exact ((hall "/base" s hs).unused _ hmem _ hrunning).1 List.prefix_rfl

end GithubAgent.Worktree
