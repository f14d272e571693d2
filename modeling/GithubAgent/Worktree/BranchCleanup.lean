import GithubAgent.Worktree.ProjectDir
import GithubAgent.Worktree.Reuse

/-!
# Cleaning up after a deleted branch

`cleanup_worktrees_by_branch` of `src/shared/worktree_manager.py` asks git in every worktree of a
repository for the name of HEAD, and removes the worktree when the name of the deleted branch occurs
in the answer. Worktrees are detached when they are added.
-/

namespace GithubAgent.Worktree

open GithubAgent.Base GithubAgent.Shared

variable {C : Type}

/-- The directories below `WORKTREE_BASE`, the names below `~/.claude/projects`, what git finds in a
directory, and the ref its worktree was asked for. -/
structure Site (C : Type) where
  base : String
  dirs : Directories String
  closed : dirs.Closed
  projects : List String
  place : List String → Place C
  asked : List String → String

/-- The output of `git rev-parse --abbrev-ref HEAD`, if it succeeds. The name of an ambiguous branch
is qualified. -/
def abbrevRef (ambiguous : String → Bool) : Place C → Option String
  | .checkout (.detached _) _ => some "HEAD"
  | .checkout (.branch name _) _ => some (if ambiguous name then "heads/" ++ name else name)
  | _ => none

/-- The removal of a worktree and of the project directory that is named after it. -/
def Site.remove (s : Site C) (p : List String) : Site C :=
  { s with
    dirs := s.dirs.rmtree p
    closed := s.closed.rmtree p
    projects := s.projects.filter (· ≠ getProjectDirForWorktree (pathText s.base p)) }

/-- `code == 0 and branch in (out or "")`. -/
def Site.hit (s : Site C) (ambiguous : String → Bool) (branch : String) (p : List String) : Bool :=
  match abbrevRef ambiguous (s.place p) with
  | some out => occursIn branch out
  | none => false

/-- The loop over the workflows of a thread directory. -/
def cleanupThread (ambiguous : String → Bool) (branch : String) (threadDir : List String)
    (s : Site C) : Site C :=
  (s.dirs.children threadDir).foldl (fun s workflow ↦
    if s.hit ambiguous branch (threadDir ++ [workflow]) then s.remove (threadDir ++ [workflow])
    else s) s

/-- `cleanup_worktrees_by_branch` (`worktree_manager.py:275-323`). -/
def cleanupWorktreesByBranch (ambiguous : String → Bool) (s : Site C) (repo branch : String) :
    Site C :=
  (s.dirs.children [sanitizeRepoKey repo]).foldl (fun s thread ↦
    cleanupThread ambiguous branch [sanitizeRepoKey repo, thread] s) s

/-- The worktree was asked for the branch. -/
def Site.isFor (s : Site C) (branch : String) (p : List String) : Prop :=
  resolveRef (s.asked p) = originRef branch

/-- Of all worktrees, those of the repository that were asked for the branch are removed. -/
def HitsBranchOnly (ambiguous : String → Bool) (s : Site C) (repo branch : String) : Prop :=
  ∀ p ∈ s.dirs, p.length = 3 →
    (p ∉ (cleanupWorktreesByBranch ambiguous s repo branch).dirs ↔
      p.head? = some (sanitizeRepoKey repo) ∧ s.isFor branch p)

/-- The pieces of what git answers in a detached worktree. -/
def headPieces : List String :=
  ["", "H", "E", "A", "D", "HE", "EA", "AD", "HEA", "EAD", "HEAD"]

/-- What git answers tells the worktrees of the branch from the others: the detached ones are all
asked for it when its name is a piece of `HEAD`, and none otherwise; on a branch, the name is a
piece of that branch exactly in the worktrees that were asked for it; and every worktree that was
asked for it is a checkout. -/
def Told (ambiguous : String → Bool) (s : Site C) (repo branch : String) : Prop :=
  ∀ thread workflow, [sanitizeRepoKey repo, thread, workflow] ∈ s.dirs →
    match s.place [sanitizeRepoKey repo, thread, workflow] with
    | .checkout (.detached _) _ =>
      branch ∈ headPieces ↔ s.isFor branch [sanitizeRepoKey repo, thread, workflow]
    | .checkout (.branch name _) _ =>
      branch.toList <:+: (if ambiguous name then "heads/" ++ name else name).toList ↔
        s.isFor branch [sanitizeRepoKey repo, thread, workflow]
    | _ => ¬ s.isFor branch [sanitizeRepoKey repo, thread, workflow]

/-! ### What is removed -/

section Removed

variable {ambiguous : String → Bool} {s : Site C} {repo branch : String}

/-- Removing some of the directories of a list changes nothing but the tree and the names. -/
theorem foldl_remove (ambiguous : String → Bool) (branch : String) (threadDir : List String)
    (workflows : List String) (s : Site C) :
    let s' := workflows.foldl (fun s workflow ↦
      if s.hit ambiguous branch (threadDir ++ [workflow]) then s.remove (threadDir ++ [workflow])
      else s) s
    s'.place = s.place ∧ ∀ x, x ∈ s'.dirs ↔ x ∈ s.dirs ∧ ∀ workflow ∈ workflows,
      s.hit ambiguous branch (threadDir ++ [workflow]) = true →
        ¬ threadDir ++ [workflow] <+: x := by
  induction workflows generalizing s with
  | nil => exact ⟨rfl, fun x ↦ by simp⟩
  | cons workflow rest ih =>
    rw [List.foldl_cons]
    by_cases h : s.hit ambiguous branch (threadDir ++ [workflow]) = true
    · rw [if_pos h]
      obtain ⟨hplace, hdirs⟩ := ih (s.remove (threadDir ++ [workflow]))
      refine ⟨hplace, fun x ↦ ?_⟩
      rw [hdirs x, List.forall_mem_cons]
      have hmem : x ∈ (s.remove (threadDir ++ [workflow])).dirs ↔
          x ∈ s.dirs ∧ ¬ threadDir ++ [workflow] <+: x := Directories.mem_rmtree
      rw [hmem, and_assoc]
      have hhit : (s.hit ambiguous branch (threadDir ++ [workflow]) = true →
          ¬ threadDir ++ [workflow] <+: x) ↔ ¬ threadDir ++ [workflow] <+: x :=
        forall_prop_of_true h
      rw [hhit]
      rfl
    · rw [if_neg h]
      obtain ⟨hplace, hdirs⟩ := ih s
      refine ⟨hplace, fun x ↦ ?_⟩
      rw [hdirs x, List.forall_mem_cons]
      have hhit : s.hit ambiguous branch (threadDir ++ [workflow]) = true →
          ¬ threadDir ++ [workflow] <+: x := fun hhit ↦ (h hhit).elim
      exact and_congr_right fun _ ↦ (and_iff_right hhit).symm

/-- What a hit is depends on what git finds only. -/
theorem hit_congr {s' : Site C} (h : s'.place = s.place) (p : List String) :
    s'.hit ambiguous branch p = s.hit ambiguous branch p := by
  rw [Site.hit, Site.hit, h]

/-- A thread directory loses the worktrees that are hit. -/
theorem cleanupThread_spec (ambiguous : String → Bool) (branch : String)
    (threadDir : List String) (s : Site C) :
    (cleanupThread ambiguous branch threadDir s).place = s.place ∧
      ∀ x, x ∈ (cleanupThread ambiguous branch threadDir s).dirs ↔
        x ∈ s.dirs ∧ ∀ workflow, threadDir ++ [workflow] ∈ s.dirs →
          s.hit ambiguous branch (threadDir ++ [workflow]) = true →
            ¬ threadDir ++ [workflow] <+: x := by
  obtain ⟨hplace, hdirs⟩ := foldl_remove ambiguous branch threadDir
    (s.dirs.children threadDir) s
  refine ⟨hplace, fun x ↦ ?_⟩
  rw [cleanupThread, hdirs x]
  simp only [Directories.mem_children]

/-- So does a list of thread directories, each after the others. -/
theorem foldl_cleanupThread (ambiguous : String → Bool) (branch : String)
    (repoDir : String) (threads : List String) (s : Site C) :
    let s' := threads.foldl (fun s thread ↦ cleanupThread ambiguous branch [repoDir, thread] s) s
    s'.place = s.place ∧ ∀ x, x ∈ s'.dirs ↔ x ∈ s.dirs ∧ ∀ thread ∈ threads, ∀ workflow,
      [repoDir, thread, workflow] ∈ s.dirs →
        s.hit ambiguous branch [repoDir, thread, workflow] = true →
          ¬ [repoDir, thread, workflow] <+: x := by
  induction threads generalizing s with
  | nil => exact ⟨rfl, fun x ↦ by simp⟩
  | cons thread rest ih =>
    rw [List.foldl_cons]
    obtain ⟨hplace, hdirs⟩ := cleanupThread_spec ambiguous branch
      [repoDir, thread] s
    obtain ⟨hplace', hdirs'⟩ := ih (cleanupThread ambiguous branch [repoDir, thread] s)
    refine ⟨hplace'.trans hplace, fun x ↦ ?_⟩
    rw [hdirs' x]
    simp only [hit_congr hplace, List.forall_mem_cons]
    constructor
    · rintro ⟨hx, hrest⟩
      obtain ⟨hx, hfirst⟩ := (hdirs x).mp hx
      refine ⟨hx, hfirst, fun thread' hthread' workflow hp hhit hle ↦ ?_⟩
      -- A worktree that is gone by then was hit, and is above the directory as well.
      refine hrest thread' hthread' workflow ((hdirs _).mpr ⟨hp, ?_⟩) hhit hle
      intro workflow' hp' hhit' hle'
      exact hfirst workflow' hp' hhit' (hle'.trans hle)
    · rintro ⟨hx, hfirst, hrest⟩
      refine ⟨(hdirs x).mpr ⟨hx, hfirst⟩, fun thread' hthread' workflow hp hhit ↦ ?_⟩
      exact hrest thread' hthread' workflow ((hdirs _).mp hp).1 hhit

/-- A worktree is removed exactly when it is one of the repository and is hit. -/
theorem not_mem_cleanup_iff {p : List String} (hp : p ∈ s.dirs) (hlength : p.length = 3) :
    p ∉ (cleanupWorktreesByBranch ambiguous s repo branch).dirs ↔
      p.head? = some (sanitizeRepoKey repo) ∧ s.hit ambiguous branch p = true := by
  obtain ⟨_, hdirs⟩ := foldl_cleanupThread ambiguous branch
    (sanitizeRepoKey repo) (s.dirs.children [sanitizeRepoKey repo]) s
  obtain ⟨first, thread, workflow, rfl⟩ := List.length_eq_three.mp hlength
  rw [cleanupWorktreesByBranch, hdirs, List.head?_cons, Option.some.injEq]
  constructor
  · intro hgone
    by_contra hnot
    refine hgone ⟨hp, fun thread' _ workflow' _ hhit hle ↦ hnot ?_⟩
    have heq := hle.eq_of_length rfl
    rw [← heq]
    exact ⟨(List.cons.inj heq).1.symm, hhit⟩
  · rintro ⟨rfl, hhit⟩ ⟨_, hkept⟩
    have hthread : thread ∈ s.dirs.children [sanitizeRepoKey repo] :=
      Directories.mem_children.mpr (s.closed _ hp _ ⟨[workflow], rfl⟩)
    exact hkept thread hthread workflow hp hhit List.prefix_rfl

/-- The pieces of `HEAD`. -/
theorem mem_headPieces_iff (branch : String) :
    branch ∈ headPieces ↔ occursIn branch "HEAD" = true := by
  have hpieces : ∀ piece : List Char,
      piece ∈ headPieces.map String.toList ↔ piece ∈ "HEAD".toList.tails.flatMap List.inits := by
    intro piece
    have hleft : ∀ x ∈ headPieces.map String.toList,
        x ∈ "HEAD".toList.tails.flatMap List.inits := by decide
    have hright : ∀ x ∈ "HEAD".toList.tails.flatMap List.inits,
        x ∈ headPieces.map String.toList := by decide
    exact ⟨hleft piece, hright piece⟩
  rw [occursIn, decide_eq_true_iff, List.infix_iff_prefix_suffix]
  rw [← List.mem_map_of_injective (f := String.toList) (fun _ _ ↦ String.toList_inj.mp), hpieces,
    List.mem_flatMap]
  simp only [List.mem_inits, List.mem_tails, and_comm]

/-- A hit, by what is in the directory. -/
theorem hit_iff (p : List String) :
    s.hit ambiguous branch p = true ↔
      match s.place p with
      | .checkout (.detached _) _ => branch ∈ headPieces
      | .checkout (.branch name _) _ =>
        branch.toList <:+: (if ambiguous name then "heads/" ++ name else name).toList
      | _ => False := by
  unfold Site.hit
  cases s.place p with
  | absent => exact Bool.false_eq_true ▸ Iff.rfl
  | stale => exact Bool.false_eq_true ▸ Iff.rfl
  | checkout head fetchHead =>
    cases head with
    | detached commit => exact (mem_headPieces_iff branch).symm
    | branch name commit => exact decide_eq_true_iff

end Removed

/-! ### Which worktrees are removed -/

section Exact

variable {ambiguous : String → Bool} {s : Site C} {repo branch : String}

/-- Only the worktrees of the branch are removed exactly when they are the ones that are hit. -/
theorem hitsBranchOnly_iff_forall :
    HitsBranchOnly ambiguous s repo branch ↔
      ∀ thread workflow, [sanitizeRepoKey repo, thread, workflow] ∈ s.dirs →
        (s.hit ambiguous branch [sanitizeRepoKey repo, thread, workflow] = true ↔
          s.isFor branch [sanitizeRepoKey repo, thread, workflow]) := by
  constructor
  · intro hall thread workflow hp
    have hexact := hall _ hp rfl
    rw [not_mem_cleanup_iff hp rfl, List.head?_cons] at hexact
    simpa using hexact
  · intro hworktrees p hp hlength
    rw [not_mem_cleanup_iff hp hlength]
    obtain ⟨first, thread, workflow, rfl⟩ := List.length_eq_three.mp hlength
    apply and_congr_right
    rintro ⟨⟩
    exact hworktrees thread workflow hp

/-- Only the worktrees of the branch are removed exactly when what git answers tells them from the
others. -/
theorem hitsBranchOnly_iff (ambiguous : String → Bool) (s : Site C) (repo branch : String) :
    HitsBranchOnly ambiguous s repo branch ↔ Told ambiguous s repo branch := by
  have hworktree : ∀ p, (s.hit ambiguous branch p = true ↔ s.isFor branch p) ↔
      match s.place p with
      | .checkout (.detached _) _ => branch ∈ headPieces ↔ s.isFor branch p
      | .checkout (.branch name _) _ =>
        branch.toList <:+: (if ambiguous name then "heads/" ++ name else name).toList ↔
          s.isFor branch p
      | _ => ¬ s.isFor branch p := by
    intro p
    rw [hit_iff]
    cases s.place p with
    | absent => exact false_iff _ ▸ Iff.rfl
    | stale => exact false_iff _ ▸ Iff.rfl
    | checkout head fetchHead => cases head <;> exact Iff.rfl
  rw [hitsBranchOnly_iff_forall]
  exact forall_congr' fun thread ↦ forall_congr' fun workflow ↦
    imp_congr_right fun _ ↦ hworktree _

end Exact

/-! ### Worktrees as they are added -/

section Added

variable {ambiguous : String → Bool} {s : Site C} {repo branch : String}

/-- The worktrees of the repository are as `reuse_or_create_worktree` has added them. -/
def Added (s : Site C) (repo : String) : Prop :=
  ∀ thread workflow, let p := [sanitizeRepoKey repo, thread, workflow]
    p ∈ s.dirs → ∃ w before after sessionMode, ¬ Reused before sessionMode ∧
      reuseOrCreateWorktree w before (s.asked p) (pathText s.base p) sessionMode = .ok after ∧
        s.place p = after.path

/-- Whatever it is added for, a new worktree is detached. -/
theorem detached_of_added {w : World C} {before after : Repository C}
    {ref worktreePath sessionMode : String} (h : ¬ Reused before sessionMode)
    (hs : reuseOrCreateWorktree w before ref worktreePath sessionMode = .ok after) :
    ∃ commit, after.path = .checkout (.detached commit) none := by
  rw [create_of_not_reused h] at hs
  cases hfirst : addWorktree w.adds before (resolveRef ref) with
  | some added =>
    rw [hfirst] at hs
    cases hs
    obtain ⟨_, commit, _, rfl⟩ := addWorktree_eq_some hfirst
    exact ⟨commit, rfl⟩
  | none =>
    rw [hfirst] at hs
    cases hsecond : addWorktree w.addsAgain before (detectDefaultBranch w.listed) with
    | some added =>
      rw [hsecond] at hs
      cases hs
      obtain ⟨_, commit, _, rfl⟩ := addWorktree_eq_some hsecond
      exact ⟨commit, rfl⟩
    | none =>
      rw [hsecond] at hs
      cases hs

/-- Of worktrees as they are added, all or none are removed, whatever they were asked for. -/
theorem hitsBranchOnly_iff_of_added (h : Added s repo) :
    HitsBranchOnly ambiguous s repo branch ↔
      ∀ thread workflow, [sanitizeRepoKey repo, thread, workflow] ∈ s.dirs →
        (branch ∈ headPieces ↔ s.isFor branch [sanitizeRepoKey repo, thread, workflow]) := by
  rw [hitsBranchOnly_iff_forall]
  refine forall_congr' fun thread ↦ forall_congr' fun workflow ↦ imp_congr_right fun hp ↦ ?_
  obtain ⟨w, before, after, sessionMode, hnot, hs, hplace⟩ := h thread workflow hp
  obtain ⟨commit, hdetached⟩ := detached_of_added hnot hs
  rw [hit_iff, hplace, hdetached]

end Added

/-! ### A review of a deleted branch -/

/-- One worktree, added at the branch `feature`. -/
def reviewSite : Site Nat where
  base := "/base"
  dirs := Directories.mkdirs [] ["o--r", "pr-1", "review-pr"]
  closed := Directories.Closed.mkdirs (fun _ hx ↦ absurd hx List.not_mem_nil) _
  projects := []
  place := fun _ ↦ .checkout (.detached 2) none
  asked := fun _ ↦ "refs/heads/feature"

theorem added_reviewSite : Added reviewSite "o/r" := by
  intro thread workflow p hp
  let before : Repository Nat := { atMain with path := .absent }
  have hnot : ¬ Reused before "new" := fun h ↦ h.1 rfl
  have hcommit : before.refs (resolveRef "refs/heads/feature") = some 2 := by decide
  have hadds : twoBranches.adds = true := rfl
  refine ⟨twoBranches, before, { before with path := .checkout (.detached 2) none }, "new", hnot,
    ?_, rfl⟩
  have hadded := addWorktree_of_ref hadds hcommit
  rw [create_of_not_reused hnot, reviewSite, hadded]

/-- When the branch is deleted, its worktree stays. -/
theorem not_hitsBranchOnly : ¬ ∀ (ambiguous : String → Bool) (s : Site Nat) (repo branch : String),
    Added s repo → HitsBranchOnly ambiguous s repo branch := by
  intro hall
  have hkept : ["o--r", "pr-1", "review-pr"] ∈
      (cleanupWorktreesByBranch (fun _ ↦ false) reviewSite "o/r" "feature").dirs := by
    decide
  have hfor : reviewSite.isFor "feature" ["o--r", "pr-1", "review-pr"] := by
    show resolveRef "refs/heads/feature" = originRef "feature"
    decide
  have hexact := hall (fun _ ↦ false) reviewSite "o/r" "feature" added_reviewSite
    ["o--r", "pr-1", "review-pr"] (by decide) rfl
  exact hexact.mpr ⟨by decide, hfor⟩ hkept

end GithubAgent.Worktree
