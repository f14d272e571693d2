import GithubAgent.Webhook.Handler
import GithubAgent.Worktree.Refs

/-!
# The worktree of a conversation

`reuse_or_create_worktree` of `src/shared/worktree_manager.py` adds a detached worktree at the
resolved ref, or fetches in the one that is there and checks out FETCH_HEAD. What git finds at the
remote, and which of its commands meet an obstacle, is a parameter.
-/

namespace GithubAgent.Worktree

open GithubAgent.Base GithubAgent.Webhook

variable {C : Type}

/-- HEAD of a checkout, with its commit. -/
inductive Head (C : Type) where
  | detached (commit : C)
  | branch (name : String) (commit : C)

def Head.commit : Head C → C
  | .detached commit => commit
  | .branch _ commit => commit

/-- HEAD after its commit has moved. -/
def Head.moved (commit : C) : Head C → Head C
  | .detached _ => .detached commit
  | .branch name _ => .branch name commit

/-- What is at the path of a worktree. Of FETCH_HEAD only the first entry matters, the one a
checkout uses. A stale directory is in no repository, so every command in it fails. -/
inductive Place (C : Type) where
  | absent
  | stale
  | checkout (head : Head C) (fetchHead : Option C)

/-- The commit that is checked out. -/
def Place.commit? : Place C → Option C
  | .checkout head _ => some head.commit
  | _ => none

/-- The refs of the bare repository, and what is at the path. -/
structure Repository (C : Type) where
  refs : String → Option C
  path : Place C

/-- Where the refspec of the bare repository stores a branch (`sync_worker.py:104`). -/
def originRef (name : String) : String := "refs/remotes/origin/" ++ name

/-- What `git fetch origin` does: it stores the branches of the remote and writes all of them to
FETCH_HEAD in their order, or fails with some of them stored and another entry in FETCH_HEAD. -/
inductive Fetch (C : Type) where
  | done (branches : List (String × C))
  | failed (stored : List (String × C)) (fetchHead : Option C → Option C)

def Fetch.stored : Fetch C → List (String × C)
  | .done branches => branches
  | .failed stored _ => stored

/-- The refs after the fetch. -/
def Fetch.refs (f : Fetch C) (refs : String → Option C) (ref : String) : Option C :=
  ((f.stored.find? fun branch ↦ originRef branch.1 = ref).map Prod.snd).or (refs ref)

/-- The first entry of FETCH_HEAD after the fetch. -/
def Fetch.fetchHead (f : Fetch C) (old : Option C) : Option C :=
  match f with
  | .done branches => branches.head?.map Prod.snd
  | .failed _ left => left old

/-- What the git commands of a call meet. -/
structure World (C : Type) where
  fetch : Fetch C
  /-- No local change is in the way of the commit. -/
  switches : C → Bool
  /-- The commit of HEAD after `git merge FETCH_HEAD`, which may fail. -/
  merged : Head C → Option C → C
  /-- The path can be cleared, and nothing but its ref can fail `git worktree add`. -/
  adds : Bool
  /-- The same of the second attempt. -/
  addsAgain : Bool
  /-- The output of `git branch --list -r`, if it succeeds. -/
  listed : Option String
  err : String

/-- `git checkout FETCH_HEAD`, which detaches HEAD. -/
def World.checkoutFetchHead (w : World C) (fetchHead : Option C) : Option (Head C) :=
  (fetchHead.filter w.switches).map .detached

/-- `_fetch_and_checkout` (`worktree_manager.py:140-153`). No result but the one of the checkout
is looked at, nor is the ref. -/
def fetchAndCheckout (w : World C) (s : Repository C) (_ref : String) : Repository C :=
  match s.path with
  | .checkout head old =>
    let fetchHead := w.fetch.fetchHead old
    { refs := w.fetch.refs s.refs
      path :=
        match w.checkoutFetchHead fetchHead with
        | some head => .checkout head fetchHead
        | none => .checkout (head.moved (w.merged head fetchHead)) fetchHead }
  | _ => s

/-- `_detect_default_branch` (`worktree_manager.py:168-178`), of the stripped output. -/
def detectDefaultBranch (listed : Option String) : String :=
  let branches := ((listed.getD "").toList.splitOn '\n').map strip |>.filter
    fun b ↦ b ≠ [] ∧ "origin/".toList <:+: b
  match branches with
  | b :: _ => "refs/remotes/origin/" ++ deleteWord (String.ofList b) "origin/"
  | [] => "refs/remotes/origin/main"

/-- `git worktree add --detach` at a ref. -/
def addWorktree (adds : Bool) (s : Repository C) (ref : String) : Option (Repository C) :=
  if adds then (s.refs ref).map fun commit ↦ { s with path := .checkout (.detached commit) none }
  else none

/-- `reuse_or_create_worktree` (`worktree_manager.py:51-137`). -/
def reuseOrCreateWorktree (w : World C) (s : Repository C) (ref worktreePath sessionMode : String) :
    Except String (Repository C) :=
  match s.path, decide (sessionMode ∈ ["resume", "continue"]) with
  | .stale, true | .checkout _ _, true => .ok (fetchAndCheckout w s ref)
  | _, _ =>
    match addWorktree w.adds s (resolveRef ref) with
    | some s => .ok s
    | none =>
      match addWorktree w.addsAgain s (detectDefaultBranch w.listed) with
      | some s => .ok s
      | none => .error ("Failed to create worktree at " ++ worktreePath ++ ": " ++ w.err)

/-- When the call returns, HEAD is the commit that the ref names. -/
def AtRef (w : World C) (s : Repository C) (ref worktreePath sessionMode : String) : Prop :=
  ∀ s', reuseOrCreateWorktree w s ref worktreePath sessionMode = .ok s' →
    ∃ commit, s'.refs (resolveRef ref) = some commit ∧ s'.path.commit? = some commit

/-- What is at the path is used again. -/
def Reused (s : Repository C) (sessionMode : String) : Prop :=
  s.path ≠ .absent ∧ (sessionMode = "resume" ∨ sessionMode = "continue")

/-- The worktree that is there is a checkout, and after the fetch the ref names the commit at the
top of FETCH_HEAD; where that one cannot be checked out, the one that the merge leaves. -/
def FetchedRef (w : World C) (s : Repository C) (ref : String) : Prop :=
  ∃ head old commit, s.path = .checkout head old ∧
    w.fetch.refs s.refs (resolveRef ref) = some commit ∧
    ((w.fetch.fetchHead old = some commit ∧ w.switches commit = true) ∨
      ((∀ first, w.fetch.fetchHead old = some first → w.switches first = false) ∧
        w.merged head (w.fetch.fetchHead old) = commit))

/-- A worktree can be added at the ref, or the default branch names the same commit or none at
which one can be added. -/
def AddedRef (w : World C) (s : Repository C) (ref : String) : Prop :=
  w.adds = true ∨ w.addsAgain = false ∨
    ∀ commit, s.refs (detectDefaultBranch w.listed) = some commit →
      s.refs (resolveRef ref) = some commit

/-! ### The two paths -/

section Paths

variable {w : World C} {s s' : Repository C} {ref worktreePath sessionMode : String}

/-- A worktree that is used again is only fetched in. -/
theorem reuse_of_reused (h : Reused s sessionMode) :
    reuseOrCreateWorktree w s ref worktreePath sessionMode = .ok (fetchAndCheckout w s ref) := by
  obtain ⟨hpath, hmode⟩ := h
  have hmem : decide (sessionMode ∈ ["resume", "continue"]) = true := by
    rcases hmode with rfl | rfl <;> decide
  unfold reuseOrCreateWorktree
  rw [hmem]
  cases hs : s.path with
  | absent => exact (hpath hs).elim
  | stale => rfl
  | checkout head old => rfl

/-- Any other is added. -/
theorem create_of_not_reused (h : ¬ Reused s sessionMode) :
    reuseOrCreateWorktree w s ref worktreePath sessionMode =
      match addWorktree w.adds s (resolveRef ref) with
      | some s => .ok s
      | none =>
        match addWorktree w.addsAgain s (detectDefaultBranch w.listed) with
        | some s => .ok s
        | none => .error ("Failed to create worktree at " ++ worktreePath ++ ": " ++ w.err) := by
  have hcases : s.path = .absent ∨ decide (sessionMode ∈ ["resume", "continue"]) = false := by
    by_cases hpath : s.path = .absent
    · exact .inl hpath
    · refine .inr (decide_eq_false ?_)
      intro hmode
      exact h ⟨hpath, by simpa using hmode⟩
  unfold reuseOrCreateWorktree
  rcases hcases with hpath | hmode
  · rw [hpath]
  · rw [hmode]
    cases s.path <;> rfl

/-- What is added is at the ref it is added for, and its HEAD is detached. -/
theorem addWorktree_eq_some {adds : Bool} (h : addWorktree adds s ref = some s') :
    adds = true ∧ ∃ commit, s.refs ref = some commit ∧
      s' = { s with path := .checkout (.detached commit) none } := by
  unfold addWorktree at h
  split at h
  · next hadds =>
    obtain ⟨commit, hcommit, rfl⟩ := Option.map_eq_some_iff.mp h
    exact ⟨hadds, commit, hcommit, rfl⟩
  · cases h

theorem addWorktree_of_ref {adds : Bool} {commit : C} (hadds : adds = true)
    (h : s.refs ref = some commit) :
    addWorktree adds s ref = some { s with path := .checkout (.detached commit) none } := by
  rw [addWorktree, if_pos hadds, h]
  rfl

/-- After a fetch in a checkout, HEAD is the top of FETCH_HEAD if that can be checked out, and
else what the merge leaves. -/
theorem fetchAndCheckout_of_checkout (w : World C) (ref : String) {head : Head C}
    {old : Option C} (h : s.path = .checkout head old) :
    (fetchAndCheckout w s ref).refs = w.fetch.refs s.refs ∧
      (fetchAndCheckout w s ref).path.commit? =
        some (((w.fetch.fetchHead old).filter w.switches).getD
          (w.merged head (w.fetch.fetchHead old))) := by
  unfold fetchAndCheckout World.checkoutFetchHead
  simp only [h]
  cases hfirst : (w.fetch.fetchHead old).filter w.switches with
  | some first => exact ⟨trivial, rfl⟩
  | none => cases head <;> exact ⟨trivial, rfl⟩

/-- The commit at the top, if it can be checked out, or the given one. -/
theorem getD_filter_iff {fetchHead : Option C} {p : C → Bool} {left commit : C} :
    (fetchHead.filter p).getD left = commit ↔
      (fetchHead = some commit ∧ p commit = true) ∨
        ((∀ first, fetchHead = some first → p first = false) ∧ left = commit) := by
  cases fetchHead with
  | none => simp
  | some first =>
    rw [Option.filter_some]
    cases hp : p first with
    | true =>
      rw [if_pos rfl, Option.getD_some]
      constructor
      · rintro rfl
        exact .inl ⟨rfl, hp⟩
      · rintro (⟨hfirst, _⟩ | ⟨hnone, _⟩)
        · exact Option.some.inj hfirst
        · cases hp.symm.trans (hnone first rfl)
    | false =>
      rw [if_neg Bool.false_ne_true, Option.getD_none]
      constructor
      · intro hleft
        refine .inr ⟨?_, hleft⟩
        rintro _ ⟨⟩
        exact hp
      · rintro (⟨hfirst, hcommit⟩ | ⟨_, hleft⟩)
        · rw [Option.some.inj hfirst, hcommit] at hp
          cases hp
        · exact hleft

/-- A worktree used again is at the ref exactly when the fetch brings the ref to the top. -/
theorem atRef_reused_iff (h : Reused s sessionMode) :
    AtRef w s ref worktreePath sessionMode ↔ FetchedRef w s ref := by
  unfold AtRef FetchedRef
  rw [reuse_of_reused h]
  constructor
  · intro hall
    obtain ⟨commit, hrefs, hcommit⟩ := hall _ rfl
    cases hpath : s.path with
    | absent => exact (h.1 hpath).elim
    | stale =>
      have hstale : fetchAndCheckout w s ref = s := by
        rw [fetchAndCheckout, hpath]
      rw [hstale, hpath] at hcommit
      cases hcommit
    | checkout head old =>
      obtain ⟨hrefs', hcommit'⟩ := fetchAndCheckout_of_checkout w ref hpath
      rw [hrefs'] at hrefs
      rw [hcommit', Option.some.injEq, getD_filter_iff] at hcommit
      exact ⟨head, old, commit, rfl, hrefs, hcommit⟩
  · rintro ⟨head, old, commit, hpath, hrefs, htop⟩ _ ⟨⟩
    obtain ⟨hrefs', hcommit'⟩ := fetchAndCheckout_of_checkout w ref hpath
    refine ⟨commit, hrefs' ▸ hrefs, ?_⟩
    rw [hcommit', getD_filter_iff.mpr htop]

/-- A worktree that is added is at the ref exactly when the default branch does not stand in for
the ref. -/
theorem atRef_added_iff (h : ¬ Reused s sessionMode) (href : s.refs (resolveRef ref) ≠ none) :
    AtRef w s ref worktreePath sessionMode ↔ AddedRef w s ref := by
  obtain ⟨commit, hcommit⟩ := Option.ne_none_iff_exists'.mp href
  unfold AtRef AddedRef
  rw [create_of_not_reused h]
  cases hadds : w.adds with
  | true =>
    refine ⟨fun _ ↦ .inl rfl, fun _ s' hs ↦ ?_⟩
    rw [addWorktree_of_ref rfl hcommit] at hs
    cases hs
    exact ⟨commit, hcommit, rfl⟩
  | false =>
    have hnone : addWorktree false s (resolveRef ref) = none := rfl
    rw [hnone]
    cases hagain : addWorktree w.addsAgain s (detectDefaultBranch w.listed) with
    | none =>
      refine ⟨fun _ ↦ .inr ?_, fun _ s' hs ↦ by cases hs⟩
      cases hsecond : w.addsAgain with
      | false => exact .inl rfl
      | true =>
        refine .inr fun default hdefault ↦ ?_
        rw [addWorktree_of_ref hsecond hdefault] at hagain
        cases hagain
    | some added =>
      obtain ⟨hsecond, default, hdefault, rfl⟩ := addWorktree_eq_some hagain
      constructor
      · intro hall
        obtain ⟨commit', hrefs, hhead⟩ := hall _ rfl
        refine .inr (.inr fun default' hdefault' ↦ ?_)
        rw [hdefault] at hdefault'
        cases hdefault'
        exact hrefs.trans hhead.symm
      · rintro (hfalse | hfalse | hsame) s' hs
        · cases hfalse
        · rw [hsecond] at hfalse
          cases hfalse
        · cases hs
          exact ⟨default, hsame default hdefault, rfl⟩

/-- The worktree is at the ref exactly when it is used again and the fetch brings the ref to the
top, or it is added and the default branch does not stand in for the ref. -/
theorem atRef_iff (w : World C) (s : Repository C) (ref worktreePath sessionMode : String)
    (href : s.refs (resolveRef ref) ≠ none) :
    AtRef w s ref worktreePath sessionMode ↔
      (Reused s sessionMode → FetchedRef w s ref) ∧
        (¬ Reused s sessionMode → AddedRef w s ref) := by
  by_cases h : Reused s sessionMode
  · rw [atRef_reused_iff h]
    exact ⟨fun hfetched ↦ ⟨fun _ ↦ hfetched, fun hnot ↦ (hnot h).elim⟩, fun hall ↦ hall.1 h⟩
  · rw [atRef_added_iff h href]
    exact ⟨fun hadded ↦ ⟨fun hnot ↦ (h hnot).elim, fun _ ↦ hadded⟩, fun hall ↦ hall.2 h⟩

end Paths

/-! ### A repository with two branches -/

/-- A remote whose branches are `feature` and `main`, in this order. -/
def twoBranches : World Nat where
  fetch := .done [("feature", 2), ("main", 1)]
  switches := fun _ ↦ true
  merged := fun head _ ↦ head.commit
  adds := true
  addsAgain := true
  listed := some "origin/feature\n  origin/main"
  err := ""

/-- Its bare repository, with a worktree at the main branch. -/
def atMain : Repository Nat where
  refs ref := [("refs/remotes/origin/feature", 2), ("refs/remotes/origin/main", 1)].lookup ref
  path := .checkout (.detached 1) none

/-- A conversation about the first branch that is resumed. -/
theorem atRef_feature : AtRef twoBranches atMain "refs/heads/feature" "/w" "resume" :=
  (atRef_iff twoBranches atMain "refs/heads/feature" "/w" "resume" (by decide)).mpr
    ⟨fun _ ↦ ⟨.detached 1, none, 2, rfl, by decide, .inl ⟨rfl, rfl⟩⟩,
      fun h ↦ (h ⟨(by intro hpath; cases hpath), .inl rfl⟩).elim⟩

/-- A worktree at the main branch, resumed for the main branch, is moved to the first one. -/
theorem not_atRef :
    ¬ ∀ (w : World Nat) (s : Repository Nat) (ref worktreePath sessionMode : String),
      s.refs (resolveRef ref) ≠ none → AtRef w s ref worktreePath sessionMode := by
  intro hall
  obtain ⟨commit, hrefs, hcommit⟩ :=
    hall twoBranches atMain "refs/heads/main" "/w" "resume" (by decide) _ rfl
  cases hcommit
  revert hrefs
  decide

end GithubAgent.Worktree
