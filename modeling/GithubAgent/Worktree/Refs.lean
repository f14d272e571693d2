import GithubAgent.Base.Strings
import GithubAgent.Webhook.Conversation

/-!
# Refs in the bare repository

The sync worker fetches into a bare repository under its refspecs, and three services turn the
ref of a job into the ref they add a worktree for: `_resolve_ref` of
`src/shared/worktree_manager.py`, the ephemeral branch of `JobProcessor._setup_worktree` and
`_create_worktree` of the indexing worker.
-/

namespace GithubAgent.Worktree

open GithubAgent.Base GithubAgent.Webhook

/-- `text.replace(word, "")`. -/
def deleteWord (text word : String) : String := String.ofList (without word.toList 0 text.toList)

/-- The common part of the three resolvers: how a ref outside of `refs/heads/` loses its
qualification is their own. -/
def bareRef (unqualified : String → String) (ref : String) : String :=
  if startsWith ref "refs/pull/" || startsWith ref "refs/tags/" then ref
  else
    "refs/remotes/origin/" ++
      if startsWith ref "refs/heads/" then deleteWord ref "refs/heads/" else unqualified ref

/-- `_resolve_ref` of the worktree manager (`worktree_manager.py:156-165`). -/
def resolveRef : String → String := bareRef (deleteWord · "refs/")

/-- The ref of an ephemeral workspace (`processor.py:257-265`). -/
def ephemeralRef : String → String := bareRef (deleteWord · "refs/")

/-- The ref of an indexed worktree, which a ref outside of `refs/heads/` enters as it is
(`indexing_worker.py:745-752`). -/
def indexingRef : String → String := bareRef id

/-- A fetch refspec: what stands before and after the `*` of its source and target. -/
structure Refspec where
  source : String × String
  target : String × String

/-- The ref under which a fetched ref is stored, if the refspec covers it. -/
def Refspec.apply (spec : Refspec) (ref : String) : Option String :=
  let rest := ref.toList.drop spec.source.1.length
  if startsWith ref spec.source.1 && spec.source.2.toList.isSuffixOf rest then
    some (spec.target.1 ++ String.ofList (rest.take (rest.length - spec.source.2.length)) ++
      spec.target.2)
  else none

/-- The refspecs of `git fetch` (`sync_worker.py:111, 126`). -/
def fetchRefspecs : List Refspec :=
  [⟨("refs/heads/", ""), ("refs/remotes/origin/", "")⟩,
   ⟨("refs/tags/", ""), ("refs/tags/", "")⟩,
   ⟨("refs/pull/", "/head"), ("refs/pull/", "/head")⟩]

/-- Where a ref of the remote is found after a fetch. -/
def storedRef (ref : String) : Option String := fetchRefspecs.findSome? (·.apply ref)

/-- What an event can name: a branch, a tag or a pull request. -/
inductive Target where
  | branch (name : String)
  | tag (name : String)
  | pull (number : Nat) (pos : 0 < number)

/-- The ref of the target in the remote repository. -/
def Target.remoteRef : Target → String
  | .branch name => "refs/heads/" ++ name
  | .tag name => "refs/tags/" ++ name
  | .pull number _ => "refs/pull/" ++ toString number ++ "/head"

/-- All three resolvers turn the ref into the one under which the target is stored. -/
def ChecksOut (target : Target) (ref : String) : Prop :=
  storedRef target.remoteRef = some (resolveRef ref) ∧
    ephemeralRef ref = resolveRef ref ∧ indexingRef ref = resolveRef ref

/-! ### What is stored, and what is resolved -/

section Resolve

variable {unqualified : String → String} {start other : String}

theorem startsWith_append (start name : String) : startsWith (start ++ name) start = true := by
  unfold startsWith
  rw [String.toList_append]
  exact List.isPrefixOf_iff_prefix.mpr (List.prefix_append _ _)

/-- A text that starts with one word does not start with another, unless one of the words
starts with the other. -/
theorem startsWith_append_eq_false (name : String) (h : startsWith start other = false)
    (h' : startsWith other start = false) : startsWith (start ++ name) other = false := by
  rw [Bool.eq_false_iff] at h h' ⊢
  intro hprefix
  unfold startsWith at h h' hprefix
  rw [String.toList_append, List.isPrefixOf_iff_prefix] at hprefix
  rw [Ne, List.isPrefixOf_iff_prefix] at h h'
  rcases List.prefix_or_prefix_of_prefix hprefix (List.prefix_append _ _) with hle | hle
  · exact h hle
  · exact h' hle

/-- A refspec keeps what the `*` matches. -/
theorem Refspec.apply_append (spec : Refspec) (name : String) :
    spec.apply (spec.source.1 ++ name ++ spec.source.2) =
      some (spec.target.1 ++ name ++ spec.target.2) := by
  have hrest : (spec.source.1 ++ name ++ spec.source.2).toList.drop spec.source.1.length =
      name.toList ++ spec.source.2.toList := by
    rw [String.append_assoc, String.toList_append, String.toList_append]
    exact List.drop_left
  have hstart : startsWith (spec.source.1 ++ name ++ spec.source.2) spec.source.1 = true := by
    rw [String.append_assoc]
    exact startsWith_append _ _
  have hend : spec.source.2.toList.isSuffixOf (name.toList ++ spec.source.2.toList) = true :=
    List.isSuffixOf_iff_suffix.mpr (List.suffix_append _ _)
  have hname : (name.toList ++ spec.source.2.toList).take
      ((name.toList ++ spec.source.2.toList).length - spec.source.2.length) = name.toList := by
    rw [← String.length_toList (s := spec.source.2), List.length_append, Nat.add_sub_cancel]
    exact List.take_left
  unfold Refspec.apply
  simp only [hrest, hstart, hend, hname, Bool.and_self, if_true, String.ofList_toList]

/-- A refspec does not cover a ref that starts otherwise. -/
theorem Refspec.apply_eq_none {spec : Refspec} {ref : String}
    (h : startsWith ref spec.source.1 = false) : spec.apply ref = none := by
  simp only [Refspec.apply, h, Bool.false_and, Bool.false_eq_true, if_false]

/-- A branch is stored under `refs/remotes/origin/`. -/
theorem storedRef_branch (name : String) :
    storedRef (Target.branch name).remoteRef = some ("refs/remotes/origin/" ++ name) := by
  have hfirst := Refspec.apply_append ⟨("refs/heads/", ""), ("refs/remotes/origin/", "")⟩ name
  rw [String.append_empty, String.append_empty] at hfirst
  simp only [storedRef, fetchRefspecs, Target.remoteRef, List.findSome?_cons, hfirst]

/-- A tag keeps its ref. -/
theorem storedRef_tag (name : String) :
    storedRef (Target.tag name).remoteRef = some ("refs/tags/" ++ name) := by
  have hfirst : Refspec.apply ⟨("refs/heads/", ""), ("refs/remotes/origin/", "")⟩
      ("refs/tags/" ++ name) = none :=
    Refspec.apply_eq_none (startsWith_append_eq_false name (by decide) (by decide))
  have hsecond := Refspec.apply_append ⟨("refs/tags/", ""), ("refs/tags/", "")⟩ name
  rw [String.append_empty] at hsecond
  simp only [storedRef, fetchRefspecs, Target.remoteRef, List.findSome?_cons, hfirst, hsecond]

/-- The head of a pull request keeps its ref. -/
theorem storedRef_pull (number : Nat) (pos : 0 < number) :
    storedRef (Target.pull number pos).remoteRef =
      some ("refs/pull/" ++ toString number ++ "/head") := by
  have hfirst : Refspec.apply ⟨("refs/heads/", ""), ("refs/remotes/origin/", "")⟩
      ("refs/pull/" ++ toString number ++ "/head") = none := by
    rw [String.append_assoc]
    exact Refspec.apply_eq_none (startsWith_append_eq_false _ (by decide) (by decide))
  have hsecond : Refspec.apply ⟨("refs/tags/", ""), ("refs/tags/", "")⟩
      ("refs/pull/" ++ toString number ++ "/head") = none := by
    rw [String.append_assoc]
    exact Refspec.apply_eq_none (startsWith_append_eq_false _ (by decide) (by decide))
  have hthird := Refspec.apply_append ⟨("refs/pull/", "/head"), ("refs/pull/", "/head")⟩
    (toString number)
  simp only [storedRef, fetchRefspecs, Target.remoteRef, List.findSome?_cons, hfirst, hsecond,
    hthird]

/-- Pull and tag refs are resolved to themselves. -/
theorem bareRef_append (name : String) (h : start = "refs/pull/" ∨ start = "refs/tags/") :
    bareRef unqualified (start ++ name) = start ++ name := by
  unfold bareRef
  rcases h with rfl | rfl
  · rw [startsWith_append, Bool.true_or, if_pos rfl]
  · rw [startsWith_append, Bool.or_true, if_pos rfl]

/-- A qualified branch loses every occurrence of the qualification. -/
theorem bareRef_heads (name : String) :
    bareRef unqualified ("refs/heads/" ++ name) =
      "refs/remotes/origin/" ++ deleteWord name "refs/heads/" := by
  have hpull : startsWith ("refs/heads/" ++ name) "refs/pull/" = false :=
    startsWith_append_eq_false name (by decide) (by decide)
  have htags : startsWith ("refs/heads/" ++ name) "refs/tags/" = false :=
    startsWith_append_eq_false name (by decide) (by decide)
  have hdelete : deleteWord ("refs/heads/" ++ name) "refs/heads/" =
      deleteWord name "refs/heads/" := by
    unfold deleteWord
    rw [String.toList_append, without_append _ (by decide)]
  unfold bareRef
  rw [hpull, htags, startsWith_append, hdelete]
  rfl

/-- Every other resolution is a remote branch. -/
theorem bareRef_cases (unqualified : String → String) (ref : String) :
    bareRef unqualified ref = ref ∨
      ∃ base, bareRef unqualified ref = "refs/remotes/origin/" ++ base := by
  unfold bareRef
  split
  · exact .inl rfl
  · exact .inr ⟨_, rfl⟩

theorem deleteWord_eq_self_iff (text : String) {word : String} (h : word.toList ≠ []) :
    deleteWord text word = text ↔ ¬ word.toList <:+: text.toList := by
  rw [← without_eq_self_iff text.toList h, ← String.toList_inj, deleteWord, String.toList_ofList]

end Resolve

end GithubAgent.Worktree
