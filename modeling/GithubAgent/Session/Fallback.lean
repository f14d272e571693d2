import GithubAgent.Base.Strings
import GithubAgent.Shared.Conversation
import Mathlib.Algebra.Order.Ring.Rat

/-!
# Finding a transcript on disk

`find_transcript_by_repo` of `src/services/session_proxy/transcript_loader.py`, the fallback of the
session page when Redis has forgotten the session. The project directories are those that the SDK
creates for worktrees: the path of the worktree with a hyphen for every character that is neither a
letter nor a digit.
-/

namespace GithubAgent.Session.Fallback

open GithubAgent.Base GithubAgent.Shared GithubAgent.Webhook

/-! ### The projects directory -/

/-- The name of the project directory of a worktree (`sandbox_executor/utils.py:46`). -/
def projectName (base : List String) (c : Conversation) : String :=
  String.ofList (((worktreePath base c.repo c.threadType c.threadId c.workflow).flatMap
    fun segment ↦ '/' :: segment.toList).map fun ch ↦ if ch.isAlphanum then ch else '-')

/-- A transcript: the conversation whose worktree it was written in, when it was modified, and its
lines. -/
structure Transcript where
  conversation : Conversation
  mtime : ℚ
  lines : List String

/-- A project directory: all its transcripts come from worktrees that it is named after. -/
structure ProjectDir (base : List String) where
  name : String
  files : List Transcript
  named : ∀ f ∈ files, name = projectName base f.conversation

/-! ### The search -/

/-- `issue_str in value`; a value without a membership test raises. -/
def memberOf (issueStr : String) : Json → Option Bool
  | .str s => some (occursIn issueStr s)
  | .arr items => some (items.any (Json.eq (.str issueStr)))
  | .obj fields => some (fields.any fun f ↦ f.1 = issueStr)
  | _ => none

/-- The blocks of a message up to the first one that mentions the number or raises
(`transcript_loader.py:130-136`). -/
def blocksMention (issueStr : String) : List Json → Option Bool
  | [] => some false
  | .obj fields :: rest =>
    match fields.lookup "type" with
    | some (.str "text") =>
      match memberOf issueStr ((fields.lookup "text").getD (.str "")) with
      | some false => blocksMention issueStr rest
      | found => found
    | _ => blocksMention issueStr rest
  | _ :: rest => blocksMention issueStr rest

/-- Whether an entry is a user message that mentions the number; `none` stands for an exception
(`transcript_loader.py:124-136`). -/
def entryMentions (issueStr : String) : Json → Option Bool
  | .obj fields =>
    match fields.lookup "type" with
    | some (.str "user") => do
      let message ← Payload.dict fields "message"
      match (message.lookup "content").getD (.str "") with
      | .str content => return occursIn issueStr content
      | .arr blocks => blocksMention issueStr blocks
      | _ => return false
    | _ => some false
  | _ => none

section Search

variable (loads : String → Option Json)

/-- The same for a line; blank lines and those that do not parse are skipped. -/
def lineMentions (issueStr line : String) : Option Bool :=
  if (strip line.toList).isEmpty then some false
  else
    match loads (String.ofList (strip line.toList)) with
    | none => some false
    | some entry => entryMentions issueStr entry

/-- The lines up to the first one that mentions the number or raises. -/
def scanLines (issueStr : String) : List String → Bool
  | [] => false
  | line :: rest =>
    match lineMentions loads issueStr line with
    | none => false
    | some true => true
    | some false => scanLines issueStr rest

/-- `f"#{issue_number}"`. -/
def issueText (issueNumber : Int) : String := "#" ++ toString issueNumber

/-- `_transcript_matches`, which does not look at the workflow (`transcript_loader.py:103-142`). -/
def transcriptMatches (f : Transcript) (issueNumber : Int) (_workflow : String) : Bool :=
  scanLines loads (issueText issueNumber) (f.lines.take 30)

/-- The first of the candidates that were modified last, `candidates[0]` after the sort. -/
def newest : List Transcript → Option Transcript
  | [] => none
  | f :: rest =>
    match newest rest with
    | none => some f
    | some g => if g.mtime ≤ f.mtime then some f else some g

/-- The transcripts with the names of their directories, in the order of the search. -/
def listing {base : List String} (dirs : List (ProjectDir base)) : List (String × Transcript) :=
  dirs.flatMap fun d ↦ d.files.map fun f ↦ (d.name, f)

/-- `find_transcript_by_repo` (`transcript_loader.py:67-100`). -/
def findTranscriptByRepo {base : List String} (dirs : List (ProjectDir base)) (repo : String)
    (issueNumber : Int) (workflow : String) : Option Transcript :=
  newest (dirs.flatMap fun d ↦
    if occursIn (sanitizeRepoKey repo) d.name then
      d.files.filter fun f ↦ transcriptMatches loads f issueNumber workflow
    else [])

/-! ### What the page should show -/

/-- The worktree is of the repository, number and workflow. -/
def Asked (repo : String) (issueNumber : Int) (workflow : String) (f : Transcript) : Prop :=
  f.conversation.repo = repo ∧ parseInt f.conversation.threadId = some issueNumber ∧
    f.conversation.workflow = workflow

/-- A user message in the first 30 lines mentions the number. -/
def Mentions (issueNumber : Int) (f : Transcript) : Prop :=
  ∃ line ∈ f.lines.take 30, lineMentions loads (issueText issueNumber) line = some true

/-- Only a transcript that was asked for is shown, and one is shown if one mentions the number. -/
structure ShowsRight {base : List String} (dirs : List (ProjectDir base)) (repo : String)
    (issueNumber : Int) (workflow : String) : Prop where
  right : ∀ f, findTranscriptByRepo loads dirs repo issueNumber workflow = some f →
    Asked repo issueNumber workflow f
  found :
    (∃ x ∈ listing dirs, Asked repo issueNumber workflow x.2 ∧ Mentions loads issueNumber x.2) →
    ∃ f, findTranscriptByRepo loads dirs repo issueNumber workflow = some f

/-- The directory and the transcript pass the tests of the search. -/
def Passes (repo : String) (issueNumber : Int) (workflow : String) (x : String × Transcript) :
    Prop :=
  occursIn (sanitizeRepoKey repo) x.1 = true ∧
    transcriptMatches loads x.2 issueNumber workflow = true

/-- Every transcript of another conversation that passes is older than one that was asked for and
passes, or as old and listed behind it. -/
def Outdated (repo : String) (issueNumber : Int) (workflow : String)
    (all : List (String × Transcript)) : Prop :=
  ∀ before x after, all = before ++ x :: after → Passes loads repo issueNumber workflow x →
    ¬ Asked repo issueNumber workflow x.2 →
      (∃ y ∈ before, Passes loads repo issueNumber workflow y ∧
        Asked repo issueNumber workflow y.2 ∧ x.2.mtime ≤ y.2.mtime) ∨
      ∃ y ∈ after, Passes loads repo issueNumber workflow y ∧
        Asked repo issueNumber workflow y.2 ∧ x.2.mtime < y.2.mtime

/-- The name of the repository is kept by the SDK's encoding. -/
def Plain (repo : String) : Prop :=
  ∀ ch ∈ (sanitizeRepoKey repo).toList, ch.isAlphanum = true ∨ ch = '-'

/-- If a transcript that was asked for mentions the number, then the repository has a plain name,
and the scan of such a transcript comes to the mention. -/
def Findable (repo : String) (issueNumber : Int) (workflow : String)
    (all : List (String × Transcript)) : Prop :=
  (∃ x ∈ all, Asked repo issueNumber workflow x.2 ∧ Mentions loads issueNumber x.2) →
    Plain repo ∧ ∃ x ∈ all, Asked repo issueNumber workflow x.2 ∧
      transcriptMatches loads x.2 issueNumber workflow = true

end Search

/-! ### The newest of the candidates -/

section Newest

variable {p : String × Transcript → Bool} {all : List (String × Transcript)}

theorem newest_none (h : newest ((all.filter p).map Prod.snd) = none) :
    ∀ x ∈ all, p x = false := by
  induction all with
  | nil => nofun
  | cons a all ih =>
    cases ha : p a with
    | true =>
      rw [List.filter_cons_of_pos ha, List.map_cons, newest] at h
      split at h
      · cases h
      · split at h <;> cases h
    | false =>
      rw [List.filter_cons_of_neg (by simp [ha])] at h
      intro x hx
      rcases List.mem_cons.mp hx with rfl | hx
      · exact ha
      · exact ih h x hx

/-- The newest candidate is newer than those before it and as new as those behind it. -/
theorem newest_some {f : Transcript} (h : newest ((all.filter p).map Prod.snd) = some f) :
    ∃ before x after, all = before ++ x :: after ∧ p x = true ∧ x.2 = f ∧
      (∀ y ∈ before, p y = true → y.2.mtime < f.mtime) ∧
      ∀ y ∈ after, p y = true → y.2.mtime ≤ f.mtime := by
  induction all generalizing f with
  | nil => cases h
  | cons a all ih =>
    cases ha : p a with
    | false =>
      rw [List.filter_cons_of_neg (by simp [ha])] at h
      obtain ⟨before, x, after, rfl, hx, hxf, hbefore, hafter⟩ := ih h
      refine ⟨a :: before, x, after, rfl, hx, hxf, fun y hy hpy ↦ ?_, hafter⟩
      rcases List.mem_cons.mp hy with rfl | hy
      · rw [ha] at hpy
        cases hpy
      · exact hbefore y hy hpy
    | true =>
      rw [List.filter_cons_of_pos ha, List.map_cons, newest] at h
      split at h
      · next hnone =>
        cases h
        refine ⟨[], a, all, rfl, ha, rfl, nofun, fun y hy hpy ↦ ?_⟩
        rw [newest_none hnone y hy] at hpy
        cases hpy
      · next g hg =>
        obtain ⟨before, x, after, hall, hx, hxg, hbefore, hafter⟩ := ih hg
        split at h
        · next hle =>
          cases h
          refine ⟨[], a, all, rfl, ha, rfl, nofun, fun y hy hpy ↦ le_trans ?_ hle⟩
          rw [hall] at hy
          rcases List.mem_append.mp hy with hy | hy
          · exact (hbefore y hy hpy).le
          · rcases List.mem_cons.mp hy with rfl | hy
            · exact hxg ▸ le_rfl
            · exact hafter y hy hpy
        · next hlt =>
          cases h
          refine ⟨a :: before, x, after, by rw [hall]; rfl, hx, hxg, fun y hy hpy ↦ ?_, hafter⟩
          rcases List.mem_cons.mp hy with rfl | hy
          · exact lt_of_not_ge hlt
          · exact hbefore y hy hpy

/-- Two places in a list: they are the same, or one is before the other. -/
theorem two_splits {A : Type} {before after before' after' : List A} {x y : A}
    (h : before ++ x :: after = before' ++ y :: after') :
    x = y ∨ (x ∈ before' ∧ y ∈ after) ∨ (x ∈ after' ∧ y ∈ before) := by
  obtain ⟨mid, hmid, hrest⟩ | ⟨mid, hmid, hrest⟩ := List.append_eq_append_iff.mp h
  · cases mid with
    | nil => exact .inl (List.cons.inj hrest).1
    | cons z mid =>
      obtain ⟨rfl, rfl⟩ := List.cons.inj hrest
      exact .inr (.inl ⟨by rw [hmid]; simp, by simp⟩)
  · cases mid with
    | nil => exact .inl (List.cons.inj hrest).1.symm
    | cons z mid =>
      obtain ⟨rfl, rfl⟩ := List.cons.inj hrest
      exact .inr (.inr ⟨by simp, by rw [hmid]; simp⟩)

end Newest

/-! ### When the right transcript is shown -/

section Shown

variable {loads : String → Option Json} {base : List String}

variable (loads) in
theorem findTranscriptByRepo_eq (dirs : List (ProjectDir base)) (repo : String) (issueNumber : Int)
    (workflow : String) : findTranscriptByRepo loads dirs repo issueNumber workflow =
      newest (((listing dirs).filter fun x ↦ occursIn (sanitizeRepoKey repo) x.1 &&
        transcriptMatches loads x.2 issueNumber workflow).map Prod.snd) := by
  rw [findTranscriptByRepo, listing]
  apply congrArg newest
  induction dirs with
  | nil => rfl
  | cons d dirs ih =>
    rw [List.flatMap_cons, List.flatMap_cons, List.filter_append, List.map_append, ih,
      List.filter_map, List.map_map]
    cases hname : occursIn (sanitizeRepoKey repo) d.name with
    | true => simp [Function.comp_def, hname]
    | false => simp [Function.comp_def, hname]

/-- The names of project directories have only letters, digits and hyphens. -/
theorem plain_of_occursIn {repo : String} {c : Conversation}
    (h : occursIn (sanitizeRepoKey repo) (projectName base c) = true) : Plain repo := by
  intro ch hch
  have hmem := (of_decide_eq_true h).subset hch
  rw [projectName, String.toList_ofList] at hmem
  obtain ⟨original, -, rfl⟩ := List.mem_map.mp hmem
  split
  · next hal => exact .inl hal
  · exact .inr rfl

/-- A plain name occurs in the names of the directories of its repository. -/
theorem occursIn_of_plain {c : Conversation} (h : Plain c.repo) :
    occursIn (sanitizeRepoKey c.repo) (projectName base c) = true := by
  refine decide_eq_true ?_
  have hkept : ((sanitizeRepoKey c.repo).toList.map fun ch ↦ if ch.isAlphanum then ch else '-') =
      (sanitizeRepoKey c.repo).toList := by
    refine (List.map_congr_left fun ch hch ↦ ?_).trans (List.map_id _)
    rcases h ch hch with hal | rfl
    · rw [if_pos hal]; rfl
    · rfl
  rw [projectName, String.toList_ofList, worktreePath_eq, getWorktreePath, List.flatMap_append,
    List.flatMap_cons, List.map_append, List.map_append, List.map_cons, hkept]
  exact (List.infix_cons (List.prefix_append _ _).isInfix).trans (List.suffix_append _ _).isInfix

theorem asked_of_mem {dirs : List (ProjectDir base)} {x : String × Transcript}
    (h : x ∈ listing dirs) : x.1 = projectName base x.2.conversation := by
  obtain ⟨d, -, hx⟩ := List.mem_flatMap.mp h
  obtain ⟨f, hf, rfl⟩ := List.mem_map.mp hx
  exact d.named f hf

/-- The fallback shows the right conversation exactly if no newer transcript of another one
passes its tests, and if it can find a transcript that mentions the number. -/
theorem showsRight_iff (loads : String → Option Json) (dirs : List (ProjectDir base))
    (repo : String) (issueNumber : Int) (workflow : String) :
    ShowsRight loads dirs repo issueNumber workflow ↔
      Outdated loads repo issueNumber workflow (listing dirs) ∧
        Findable loads repo issueNumber workflow (listing dirs) := by
  have hfind := findTranscriptByRepo_eq loads dirs repo issueNumber workflow
  have hpasses (x : String × Transcript) : (occursIn (sanitizeRepoKey repo) x.1 &&
      transcriptMatches loads x.2 issueNumber workflow) = true ↔
        Passes loads repo issueNumber workflow x := Bool.and_eq_true_iff
  constructor
  · intro h
    refine ⟨fun before x after hall hx hother ↦ ?_, fun hmention ↦ ?_⟩
    · -- the transcript that is found is the right one, and `x` does not beat it
      cases hbest : findTranscriptByRepo loads dirs repo issueNumber workflow with
      | none =>
        rw [hfind] at hbest
        have hnot := newest_none hbest x (by rw [hall]; simp)
        rw [(hpasses x).mpr hx] at hnot
        cases hnot
      | some f =>
        have hasked := h.right f hbest
        rw [hfind] at hbest
        obtain ⟨before', y, after', hall', hy, rfl, hbefore, hafter⟩ := newest_some hbest
        obtain rfl | ⟨hxy, hyx⟩ | ⟨hxy, hyx⟩ := two_splits (hall.symm.trans hall')
        · exact absurd hasked hother
        · exact .inr ⟨y, hyx, (hpasses y).mp hy, hasked, hbefore x hxy ((hpasses x).mpr hx)⟩
        · exact .inl ⟨y, hyx, (hpasses y).mp hy, hasked, hafter x hxy ((hpasses x).mpr hx)⟩
    · obtain ⟨f, hbest⟩ := h.found hmention
      have hasked := h.right f hbest
      rw [hfind] at hbest
      obtain ⟨before, y, after, hall, hy, rfl, -, -⟩ := newest_some hbest
      have hmem : y ∈ listing dirs := by rw [hall]; simp
      obtain ⟨hoccurs, hmatches⟩ := (hpasses y).mp hy
      rw [asked_of_mem hmem] at hoccurs
      exact ⟨plain_of_occursIn hoccurs, y, hmem, hasked, hmatches⟩
  · rintro ⟨houtdated, hfindable⟩
    refine ⟨fun f hbest ↦ ?_, fun hmention ↦ ?_⟩
    · rw [hfind] at hbest
      obtain ⟨before, y, after, hall, hy, rfl, hbefore, hafter⟩ := newest_some hbest
      by_contra hother
      obtain ⟨z, hz, hpass, -, hle⟩ | ⟨z, hz, hpass, -, hlt⟩ :=
        houtdated before y after hall ((hpasses y).mp hy) hother
      · exact absurd (hbefore z hz ((hpasses z).mpr hpass)) (not_lt_of_ge hle)
      · exact absurd (hafter z hz ((hpasses z).mpr hpass)) (not_le_of_gt hlt)
    · obtain ⟨hplain, y, hmem, hasked, hmatches⟩ := hfindable hmention
      cases hbest : findTranscriptByRepo loads dirs repo issueNumber workflow with
      | some f => exact ⟨f, rfl⟩
      | none =>
        have hoccurs : occursIn (sanitizeRepoKey repo) y.1 = true := by
          rw [asked_of_mem hmem]
          rw [← hasked.1] at hplain ⊢
          exact occursIn_of_plain hplain
        rw [hfind] at hbest
        have hnot := newest_none hbest y hmem
        rw [(hpasses y).mpr ⟨hoccurs, hmatches⟩] at hnot
        cases hnot

end Shown

/-! ### Another repository's conversation -/

/-- Number 12 of `octo/app2`. -/
def otherConversation : Conversation where
  owner := "octo"
  name := "app2"
  threadType := .issue
  threadId := "12"
  workflow := "triage"
  owner_valid := by decide
  name_valid := by decide
  threadId_valid := by decide
  workflow_valid := by decide

/-- The line that a question about number 12 leaves in a transcript. -/
def questionLine : String :=
  "\x7b\"type\": \"user\", \"message\": \x7b\"content\": \"See #12\"\x7d\x7d"

/-- `json.loads` on that line. -/
def loadsQuestion (line : String) : Option Json :=
  if line = questionLine then
    some (.obj [("type", .str "user"), ("message", .obj [("content", .str "See #12")])])
  else none

/-- The only project directory, with one transcript. -/
def otherDir : ProjectDir ["home", "bot", ".claude", "worktrees"] where
  name := projectName ["home", "bot", ".claude", "worktrees"] otherConversation
  files := [⟨otherConversation, 0, [questionLine]⟩]
  named := by simp

/-- Whoever looks for number 1 of `octo/app` is shown the conversation of `octo/app2`. -/
theorem not_showsRight : ¬ ShowsRight loadsQuestion [otherDir] "octo/app" 1 "triage" := by
  intro h
  let x : String × Transcript := (otherDir.name, ⟨otherConversation, 0, [questionLine]⟩)
  have hpass : (occursIn (sanitizeRepoKey "octo/app") x.1 &&
      transcriptMatches loadsQuestion x.2 1 "triage") = true := by
    decide +kernel
  have hcandidates : ([x].filter fun x ↦ occursIn (sanitizeRepoKey "octo/app") x.1 &&
      transcriptMatches loadsQuestion x.2 1 "triage") = [x] := List.filter_cons_of_pos hpass
  have hfound : findTranscriptByRepo loadsQuestion [otherDir] "octo/app" 1 "triage" = some x.2 := by
    rw [findTranscriptByRepo_eq]
    exact congrArg (fun l ↦ newest (l.map Prod.snd)) hcandidates
  have hrepo : otherConversation.repo = "octo/app" := (h.right _ hfound).1
  revert hrepo
  decide

end GithubAgent.Session.Fallback
