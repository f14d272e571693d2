import GithubAgent.Executor.LastRun
import GithubAgent.Executor.SystemPrompt
import GithubAgent.Session.Transcript

/-!
# The context of an SDK run

The system prompt that `_execute_sdk_loop` builds for each of its iterations
(`src/services/sandbox_executor/processor.py:567-627`, `utils.py:68-97`): which of the texts that
are there for a job it shows.
-/

namespace GithubAgent.Executor

open GithubAgent.Base GithubAgent.Shared GithubAgent.Webhook
open GithubAgent.Session.Transcript (partitionSlash)
open LastRun (StartMode)

/-! ### The prompt of an iteration -/

/-- The texts of a job and what its session URL is made of; `sessionProxyUrl` is the environment
variable, empty when it is not set. -/
structure PromptJob where
  systemContext : Option Text
  claudeMd : Option Text
  memoryIndex : Option Text
  threadHistoryText : Text
  fileTreeText : Text
  conversationSummary : Option Text
  sessionMode : StartMode
  streamingBridge : Bool
  sessionProxyUrl : Text
  repo : String
  threadType : ThreadType
  issueNumber : Int
  workflowName : String

namespace PromptJob

variable (job : PromptJob)

/-- `configure_builder`, as far as the system prompt goes (`utils.py:93-96`). -/
def configureBuilder (builder : SdkOptionsBuilder) : SdkOptionsBuilder :=
  withStructuralContext (some job.fileTreeText) <| withThreadHistory (some job.threadHistoryText) <|
    withRepositoryContext job.claudeMd job.memoryIndex <|
      withSystemPrompt job.systemContext builder

/-- The session continues an earlier one. -/
def continues : Prop := job.sessionMode = .resume ∨ job.sessionMode = .continueRecent

instance : Decidable job.continues := inferInstanceAs (Decidable (_ ∨ _))

/-- What stands before the summary (`processor.py:605-607`). -/
def summaryHeader : Text := "## Previous Conversation Context\n".toList

/-- The step for the conversation summary (`processor.py:598-611`). -/
def addSummary (continueCount : Nat) (builder : SdkOptionsBuilder) : SdkOptionsBuilder :=
  match given job.conversationSummary with
  | some summary =>
    if job.continues ∧ continueCount = 0 then
      let summaryContext := "\n\n".toList ++ summaryHeader ++ summary
      withSystemPrompt (some (job.systemContext.getD [] ++ summaryContext)) builder
    else builder
  | none => builder

/-- `session_url`, if there is one (`processor.py:613-626`). -/
def sessionUrl : Option Text :=
  let sessionProxyUrl := stripSlashes (String.ofList (strip job.sessionProxyUrl))
  if job.streamingBridge ∧ sessionProxyUrl ≠ "" then
    let (owner, repoName) := partitionSlash job.repo
    some (buildSessionUrl sessionProxyUrl owner repoName job.threadType job.issueNumber
      job.workflowName).toList
  else none

/-- The step for the session URL (`processor.py:613-627`). -/
def addSignature (builder : SdkOptionsBuilder) : SdkOptionsBuilder :=
  match job.sessionUrl with
  | some sessionUrl => withSessionSignature sessionUrl builder
  | none => builder

/-- The builder of an iteration of the loop (`processor.py:567-627`). -/
def loopBuilder (continueCount : Nat) : SdkOptionsBuilder :=
  job.addSignature (job.addSummary continueCount (job.configureBuilder {}))

/-- The system prompt that the SDK gets in an iteration (`sdk_factory.py:734, 756`). -/
def systemPrompt (continueCount : Nat) : Option Text :=
  assembleSystemPrompt (job.loopBuilder continueCount)

/-! ### What belongs to it -/

/-- The blocks of the memory index and of `CLAUDE.md`. -/
def repositoryBlocks : List Text :=
  (filled job.memoryIndex).toList.map memoryBlock ++
    (filled job.claudeMd).toList.map repositoryBlock

/-- The block of the summary, in the first iteration of a session that continues one. -/
def summaryBlock (continueCount : Nat) : Option Text :=
  if job.continues ∧ continueCount = 0 then
    (given job.conversationSummary).map fun summary ↦ strip (summaryHeader ++ summary)
  else none

/-- The blocks of the prompt component, with those of the repository. -/
def promptGroup (continueCount : Nat) (repositoryBlocks : List Text) : List Text :=
  repositoryBlocks ++ (filled job.systemContext).toList ++ (job.summaryBlock continueCount).toList

/-- The blocks of the texts that belong to a system prompt, by its four components; a text that is
blank has none. -/
def blocksOf (continueCount : Nat) (repositoryBlocks : List Text) : List (List Text) :=
  [((filled (some job.fileTreeText)).map structureBlock).toList,
    (filled (some job.threadHistoryText)).toList,
    job.promptGroup continueCount repositoryBlocks,
    ((given job.sessionUrl).map signatureInstruction).toList]

/-- All the blocks. -/
def blocks (continueCount : Nat) : List (List Text) :=
  job.blocksOf continueCount job.repositoryBlocks

end PromptJob

/-- The size of a component with the blocks; without a block there is none. -/
def groupSize (group : List Text) : Nat :=
  if group = [] then 0 else estimateTokens (joinParts group)

/-- The sizes of the components, together. -/
def sizeOf (groups : List (List Text)) : Nat := (groups.map groupSize).sum

/-- The text shows the blocks: it contains each of them, and its words are the words of the blocks
one after the other, of each block once. -/
def ShowsOnce (text : Text) (blocks : List Text) : Prop :=
  (∀ block ∈ blocks, block <:+: text) ∧
    ∃ order : List Text, order.Perm blocks ∧ words isSpace text = order.flatMap (words isSpace)

/-- What fits the budget is shown. -/
def NoContextDropped (job : PromptJob) (continueCount : Nat) : Prop :=
  sizeOf (job.blocks continueCount) ≤ systemPromptBudget →
    ShowsOnce ((job.systemPrompt continueCount).getD []) (job.blocks continueCount).flatten

/-- The summary is put in the place of a `CLAUDE.md` or a memory index. -/
def Overwrites (job : PromptJob) (continueCount : Nat) : Prop :=
  (job.continues ∧ continueCount = 0 ∧ given job.conversationSummary ≠ none) ∧
    job.repositoryBlocks ≠ []

/-! ### Blocks -/

/-- A block is not empty and has no whitespace at its ends. -/
structure IsBlock (block : Text) : Prop where
  ne_nil : block ≠ []
  trimmed : Trimmed block

namespace IsBlock

theorem of_filled {text : Option Text} {block : Text} (h : filled text = some block) :
    IsBlock block := by
  obtain ⟨hstrip, hne⟩ := filled_eq_some.mp h
  exact ⟨hne, hstrip ▸ trimmed_strip _⟩

/-- A text between two that begin and end a block. -/
theorem framed {first last : Text} (middle : Text) (hfirst : first ≠ []) (hlast : last ≠ [])
    (hhead : ∀ c ∈ first.head?, isSpace c = false) (hend : ∀ c ∈ last.getLast?, isSpace c = false) :
    IsBlock (first ++ middle ++ last) := by
  constructor
  · simp [hfirst]
  · constructor
    · rw [List.append_assoc, List.head?_append_of_ne_nil _ hfirst]
      exact hhead
    · rw [List.getLast?_append_of_ne_nil _ hlast]
      exact hend

theorem words_ne_nil {block : Text} (h : IsBlock block) : words isSpace block ≠ [] := by
  obtain ⟨c, rest, rfl⟩ := List.exists_cons_of_ne_nil h.ne_nil
  rw [Ne, words_eq_nil_iff]
  intro hall
  have hc : isSpace c = false := h.trimmed.head c rfl
  rw [hall c List.mem_cons_self] at hc
  cases hc

theorem memoryBlock (index : Text) : IsBlock (memoryBlock index) :=
  framed index (by decide) (by decide) (by rintro _ ⟨⟩; rfl) (by rintro _ ⟨⟩; rfl)

theorem repositoryBlock (claudeMd : Text) : IsBlock (repositoryBlock claudeMd) :=
  framed claudeMd (by decide) (by decide) (by rintro _ ⟨⟩; rfl) (by rintro _ ⟨⟩; rfl)

theorem structureBlock (fileTree : Text) : IsBlock (structureBlock fileTree) :=
  framed fileTree (by decide) (by decide) (by rintro _ ⟨⟩; rfl) (by rintro _ ⟨⟩; rfl)

theorem signatureInstruction (sessionUrl : Text) : IsBlock (signatureInstruction sessionUrl) :=
  framed _ (by decide) (by decide) (by rintro _ ⟨⟩; rfl) (by rintro _ ⟨⟩; rfl)

theorem summary (text : Text) : IsBlock (strip (PromptJob.summaryHeader ++ text)) := by
  constructor
  · intro hnil
    have hwords := words_strip (PromptJob.summaryHeader ++ text)
    rw [hnil, words_nil, eq_comm, words_eq_nil_iff] at hwords
    have hmem : '#' ∈ PromptJob.summaryHeader ++ text := List.mem_append_left _ (by decide)
    exact absurd (hwords '#' hmem) (by decide)
  · exact trimmed_strip _

end IsBlock

/-! ### What a component shows -/

/-- The component is there when its group of blocks is not empty, and shows it. -/
structure Shows (component : Option Text) (group : List Text) : Prop where
  eq_none_iff : component = none ↔ group = []
  words_eq : words isSpace (component.getD []) = group.flatMap (words isSpace)
  infix_of_mem : ∀ block ∈ group, block <:+: component.getD []

/-- A stripped text shows the blocks that make up its words. -/
theorem shows_filled {text : Option Text} {group : List Text}
    (hwords : words isSpace (text.getD []) = group.flatMap (words isSpace))
    (hblocks : ∀ block ∈ group, IsBlock block ∧ block <:+: text.getD []) :
    Shows (filled text) group := by
  have hget : (filled text).getD [] = strip (text.getD []) := by
    cases h : filled text with
    | none => exact (filled_eq_none.mp h).symm
    | some t => exact (filled_eq_some.mp h).1.symm
  constructor
  · rw [filled_eq_none]
    constructor
    · intro hnil
      rw [← words_strip, hnil, words_nil, eq_comm, List.flatMap_eq_nil_iff] at hwords
      rw [List.eq_nil_iff_forall_not_mem]
      exact fun block hblock ↦ (hblocks block hblock).1.words_ne_nil (hwords block hblock)
    · rintro rfl
      have hall := words_eq_nil_iff.mp hwords
      rw [strip_eq, List.dropWhile_eq_nil_iff.mpr hall]
      rfl
  · rw [hget, words_strip, hwords]
  · intro block hblock
    rw [hget]
    exact infix_strip (hblocks block hblock).2 (hblocks block hblock).1.trimmed

/-- A component that is one block. -/
theorem shows_toList (component : Option Text) : Shows component component.toList := by
  cases component with
  | none => exact ⟨by simp, rfl, by simp⟩
  | some text => exact ⟨by simp, by simp, by simp⟩

/-- A field that a setter filled with a block. -/
theorem shows_filled_block (text : Option Text) (field : Text → Text)
    (h : ∀ t, filled text = some t → IsBlock (field t)) :
    Shows (filled ((filled text).map field)) ((filled text).map field).toList := by
  cases ht : filled text with
  | none => exact shows_toList none
  | some t =>
    refine shows_filled (by simp) ?_
    simpa using h t ht

/-- The words of a text are those of its stripped form. -/
theorem flatMap_words_filled (text : Option Text) :
    (filled text).toList.flatMap (words isSpace) = words isSpace (text.getD []) := by
  cases h : filled text with
  | none => rw [← words_strip, filled_eq_none.mp h]; rfl
  | some t => rw [← words_strip, (filled_eq_some.mp h).1]; simp

theorem infix_of_filled {text : Option Text} {t : Text} (h : filled text = some t) :
    t <:+: text.getD [] :=
  (filled_eq_some.mp h).1 ▸ strip_within _

theorem given_given (text : Option Text) : given (given text) = given text := by
  simp [given, Option.filter_filter]

theorem getD_given (text : Option Text) : (given text).getD [] = text.getD [] := by
  cases text with
  | none => rfl
  | some t =>
    cases t with
    | nil => rfl
    | cons c t => rfl

theorem joinParts_given (text : Option Text) : joinParts (given text).toList = text.getD [] := by
  rw [← getD_given]
  cases given text with
  | none => rfl
  | some t => rw [Option.toList_some, joinParts, List.intercalate_singleton, Option.getD_some]

/-! ### The fields of the builder -/

namespace PromptJob

variable (job : PromptJob) (continueCount : Nat)

theorem isBlock_of_mem_repositoryBlocks {block : Text} (h : block ∈ job.repositoryBlocks) :
    IsBlock block := by
  simp only [repositoryBlocks, List.mem_append, List.mem_map] at h
  obtain ⟨index, _, rfl⟩ | ⟨claudeMd, _, rfl⟩ := h
  · exact IsBlock.memoryBlock index
  · exact IsBlock.repositoryBlock claudeMd

/-- What `with_repository_context` makes of a system context. -/
def withBlocks (text : Option Text) : Option Text :=
  if job.repositoryBlocks = [] then given text
  else some (joinParts (job.repositoryBlocks ++ (given text).toList))

theorem withRepositoryContext_eq (text : Option Text) :
    withRepositoryContext job.claudeMd job.memoryIndex { systemPrompt := given text } =
      { systemPrompt := job.withBlocks text } := by
  unfold withRepositoryContext withBlocks
  rw [show (filled job.memoryIndex).toList.map memoryBlock ++
    (filled job.claudeMd).toList.map repositoryBlock = job.repositoryBlocks from rfl]
  cases hblocks : job.repositoryBlocks with
  | nil => rfl
  | cons first rest =>
    rw [if_neg (by simp), given_given]
    cases given text with
    | none => simp
    | some prompt =>
      have hjoin : joinParts (first :: rest ++ [prompt]) =
          joinParts (first :: rest) ++ "\n\n".toList ++ prompt := by
        rw [joinParts, intercalate_append _ (by simp) (by simp), List.intercalate_singleton]
        rfl
      rw [Option.toList_some, hjoin]

/-- The system prompt that the summary leaves, or makes. -/
def mergedPrompt : Option Text :=
  if job.continues ∧ continueCount = 0 ∧ given job.conversationSummary ≠ none then
    some (job.systemContext.getD [] ++
      ("\n\n".toList ++ summaryHeader ++ job.conversationSummary.getD []))
  else job.withBlocks job.systemContext

theorem loopBuilder_eq : job.loopBuilder continueCount =
    { systemPrompt := job.mergedPrompt continueCount
      structuralContext := (filled (some job.fileTreeText)).map structureBlock
      threadHistory := filled (some job.threadHistoryText)
      sessionSignature := job.sessionUrl } := by
  have hconfigured : job.configureBuilder {} =
      { systemPrompt := job.withBlocks job.systemContext
        structuralContext := (filled (some job.fileTreeText)).map structureBlock
        threadHistory := filled (some job.threadHistoryText) } := by
    have hsystem : withSystemPrompt job.systemContext {} =
        { systemPrompt := given job.systemContext } := by
      unfold withSystemPrompt
      cases given job.systemContext <;> rfl
    unfold configureBuilder
    rw [hsystem, withRepositoryContext_eq]
    unfold withThreadHistory withStructuralContext
    cases filled (some job.threadHistoryText) <;> cases filled (some job.fileTreeText) <;> rfl
  have hsummary : job.addSummary continueCount (job.configureBuilder {}) =
      { systemPrompt := job.mergedPrompt continueCount
        structuralContext := (filled (some job.fileTreeText)).map structureBlock
        threadHistory := filled (some job.threadHistoryText) } := by
    unfold addSummary mergedPrompt
    rw [hconfigured]
    cases hgiven : given job.conversationSummary with
    | none => simp
    | some summary =>
      have hget : job.conversationSummary.getD [] = summary := by
        rw [(Option.filter_eq_some_iff.mp hgiven).1, Option.getD_some]
      have hgap : "\n\n".toList ≠ [] := by decide
      have hne : job.systemContext.getD [] ++ ("\n\n".toList ++ summaryHeader ++ summary) ≠ [] :=
        List.append_ne_nil_of_right_ne_nil _ (List.append_ne_nil_of_left_ne_nil
          (List.append_ne_nil_of_left_ne_nil hgap _) _)
      have hprompt : given (some (job.systemContext.getD [] ++
          ("\n\n".toList ++ summaryHeader ++ summary))) = some (job.systemContext.getD [] ++
          ("\n\n".toList ++ summaryHeader ++ summary)) :=
        Option.filter_eq_some_iff.mpr ⟨rfl, decide_eq_true hne⟩
      rw [hget]
      by_cases hfirst : job.continues ∧ continueCount = 0
      · simp only [withSystemPrompt, hprompt, hfirst.1, hfirst.2, ne_eq, reduceCtorEq,
          not_false_eq_true, and_self, if_true]
      · have hnot : ¬ (job.continues ∧ continueCount = 0 ∧ some summary ≠ none) :=
          fun h ↦ hfirst ⟨h.1, h.2.1⟩
        simp only [if_neg hfirst, if_neg hnot]
  unfold loopBuilder addSignature
  rw [hsummary]
  cases job.sessionUrl <;> rfl

/-- The blocks of the repository that the prompt keeps. -/
def keptBlocks : List Text :=
  if job.continues ∧ continueCount = 0 ∧ given job.conversationSummary ≠ none then []
  else job.repositoryBlocks

theorem words_withBlocks (text : Option Text) : words isSpace ((job.withBlocks text).getD []) =
    job.repositoryBlocks.flatMap (words isSpace) ++ words isSpace (text.getD []) := by
  have hwords : words isSpace (joinParts (given text).toList) = words isSpace (text.getD []) := by
    rw [joinParts_given]
  unfold withBlocks
  split
  · next hnil => rw [hnil, getD_given, List.flatMap_nil, List.nil_append]
  · rw [Option.getD_some, words_joinParts, List.flatMap_append, ← hwords, words_joinParts]

theorem infix_withBlocks {block : Text} {text : Option Text} (hne : block ≠ [])
    (h : block ∈ job.repositoryBlocks ∨ block <:+: text.getD []) :
    block <:+: (job.withBlocks text).getD [] := by
  unfold withBlocks
  split
  · next hnil =>
    rw [hnil] at h
    rw [getD_given]
    exact h.resolve_left (List.not_mem_nil)
  · rw [Option.getD_some]
    rcases h with h | h
    · exact infix_intercalate _ (List.mem_append_left _ h)
    · have htext : text.getD [] ∈ (given text).toList := by
        cases hgiven : given text with
        | none =>
          rw [← getD_given, hgiven, Option.getD_none, List.infix_nil] at h
          exact absurd h hne
        | some t => rw [← getD_given, hgiven]; simp
      exact h.trans (infix_intercalate _ (List.mem_append_right _ htext))

/-- The blocks of the context and the summary are those of the text that the summary ends. -/
theorem shows_mergedPrompt_of_summary {summary : Text}
    (hgiven : given job.conversationSummary = some summary) :
    Shows (filled (some (job.systemContext.getD [] ++
        ("\n\n".toList ++ summaryHeader ++ job.conversationSummary.getD []))))
      ((filled job.systemContext).toList ++ [strip (summaryHeader ++ summary)]) := by
  have hget : job.conversationSummary.getD [] = summary := by
    rw [← getD_given, hgiven, Option.getD_some]
  rw [hget, List.append_assoc "\n\n".toList, ← List.append_assoc]
  apply shows_filled
  · rw [Option.getD_some, words_append_gap (by decide) (List.all_eq_true.mp (by decide)),
      List.flatMap_append,
      flatMap_words_filled, List.flatMap_singleton, words_strip]
  · intro block hblock
    rw [Option.getD_some]
    rcases List.mem_append.mp hblock with h | h
    · have hfilled : filled job.systemContext = some block := Option.mem_toList.mp h
      refine ⟨.of_filled hfilled, (infix_of_filled hfilled).trans ?_⟩
      rw [List.append_assoc]
      exact (List.prefix_append _ _).isInfix
    · rw [List.mem_singleton.mp h]
      exact ⟨.summary summary, (strip_within _).trans (List.suffix_append _ _).isInfix⟩

/-- The blocks of the repository and the context are those of the text they are joined into. -/
theorem shows_withBlocks : Shows (filled (job.withBlocks job.systemContext))
    (job.repositoryBlocks ++ (filled job.systemContext).toList) := by
  apply shows_filled
  · rw [words_withBlocks, List.flatMap_append, flatMap_words_filled]
  · intro block hblock
    rcases List.mem_append.mp hblock with h | h
    · have hblock := job.isBlock_of_mem_repositoryBlocks h
      exact ⟨hblock, job.infix_withBlocks hblock.ne_nil (.inl h)⟩
    · have hfilled : filled job.systemContext = some block := Option.mem_toList.mp h
      have hblock := IsBlock.of_filled hfilled
      exact ⟨hblock, job.infix_withBlocks hblock.ne_nil (.inr (infix_of_filled hfilled))⟩

theorem shows_prompt : Shows (filled (job.mergedPrompt continueCount))
    (job.promptGroup continueCount (job.keptBlocks continueCount)) := by
  unfold mergedPrompt keptBlocks promptGroup summaryBlock
  by_cases hsummary : job.continues ∧ continueCount = 0 ∧ given job.conversationSummary ≠ none
  · obtain ⟨summary, hgiven⟩ := Option.ne_none_iff_exists'.mp hsummary.2.2
    rw [if_pos hsummary, if_pos hsummary, if_pos ⟨hsummary.1, hsummary.2.1⟩, hgiven]
    exact job.shows_mergedPrompt_of_summary hgiven
  · rw [if_neg hsummary, if_neg hsummary]
    have hnone : (if job.continues ∧ continueCount = 0 then
        (given job.conversationSummary).map fun summary ↦ strip (summaryHeader ++ summary)
        else none) = none := by
      split
      · next hfirst =>
        have hgiven : given job.conversationSummary = none := by
          by_contra hne
          exact hsummary ⟨hfirst.1, hfirst.2, hne⟩
        rw [hgiven, Option.map_none]
      · rfl
    rw [hnone, Option.toList_none, List.append_nil]
    exact job.shows_withBlocks

/-- The components of the builder of an iteration show the blocks that it keeps. -/
theorem shows_loopBuilder : List.Forall₂ Shows
    [(job.loopBuilder continueCount).structural, (job.loopBuilder continueCount).history,
      (job.loopBuilder continueCount).prompt, (job.loopBuilder continueCount).signature]
    (job.blocksOf continueCount (job.keptBlocks continueCount)) := by
  have hhistory := shows_filled_block (some job.threadHistoryText) id fun _ ↦ IsBlock.of_filled
  rw [Option.map_id, id_eq] at hhistory
  rw [loopBuilder_eq]
  exact .cons (shows_filled_block _ _ fun t _ ↦ IsBlock.structureBlock t) (.cons hhistory
    (.cons (job.shows_prompt continueCount) (.cons (shows_toList _) .nil)))

end PromptJob

/-! ### The system prompt -/

section Assembled

variable {components : List (Option Text)} {groups : List (List Text)}

theorem estimateTokens_of_shows {text : Text} {group : List Text} (h : Shows (some text) group) :
    estimateTokens text = estimateTokens (joinParts group) := by
  have hwords : words isSpace text = words isSpace (joinParts group) := by
    rw [words_joinParts]
    exact h.words_eq
  rw [estimateTokens, wordCount, hwords]
  rfl

/-- The sizes of the components are those of their groups. -/
theorem sum_estimateTokens_of_shows (h : List.Forall₂ Shows components groups) :
    ((components.filterMap id).map estimateTokens).sum = sizeOf groups := by
  unfold sizeOf
  induction h with
  | nil => rfl
  | @cons component group components groups hshows _ ih =>
    cases component with
    | none =>
      have hnil : group = [] := hshows.eq_none_iff.mp rfl
      simpa [hnil, groupSize] using ih
    | some text =>
      have hne : group ≠ [] := by
        intro hnil
        cases hshows.eq_none_iff.mpr hnil
      simpa [hne, groupSize, estimateTokens_of_shows hshows] using ih

/-- The components joined have the words of their groups. -/
theorem words_of_shows (h : List.Forall₂ Shows components groups) :
    words isSpace (joinParts (components.filterMap id)) =
      groups.flatten.flatMap (words isSpace) := by
  rw [words_joinParts]
  induction h with
  | nil => rfl
  | @cons component group components groups hshows _ ih =>
    rw [List.flatten_cons, List.flatMap_append, ← hshows.words_eq, ← ih]
    cases component <;> simp

theorem exists_of_shows (h : List.Forall₂ Shows components groups) {group : List Text}
    (hgroup : group ∈ groups) : ∃ component ∈ components, Shows component group := by
  induction h with
  | nil => cases hgroup
  | cons hshows _ ih =>
    rcases List.mem_cons.mp hgroup with rfl | hgroup
    · exact ⟨_, List.mem_cons_self, hshows⟩
    · obtain ⟨component, hmem, h⟩ := ih hgroup
      exact ⟨component, List.mem_cons_of_mem _ hmem, h⟩

/-- The components joined contain the blocks of their groups. -/
theorem infix_of_shows (h : List.Forall₂ Shows components groups) {block : Text}
    (hne : block ≠ []) (hblock : block ∈ groups.flatten) :
    block <:+: joinParts (components.filterMap id) := by
  obtain ⟨group, hgroup, hblock⟩ := List.mem_flatten.mp hblock
  obtain ⟨component, hcomponent, hshows⟩ := exists_of_shows h hgroup
  have hin := hshows.infix_of_mem block hblock
  cases component with
  | none =>
    rw [Option.getD_none, List.infix_nil] at hin
    exact absurd hin hne
  | some text => exact hin.trans (infix_intercalate _ (List.mem_filterMap.mpr ⟨_, hcomponent, rfl⟩))

/-- A system prompt that fits the budget has the words of its blocks and contains each of them. -/
theorem assembleSystemPrompt_of_shows {b : SdkOptionsBuilder}
    (h : List.Forall₂ Shows [b.structural, b.history, b.prompt, b.signature] groups)
    (hfits : sizeOf groups ≤ systemPromptBudget) :
    words isSpace ((assembleSystemPrompt b).getD []) = groups.flatten.flatMap (words isSpace) ∧
      ∀ block ∈ groups.flatten, block ≠ [] → block <:+: (assembleSystemPrompt b).getD [] := by
  have htotal : totalTokens b.components = sizeOf groups := by
    rw [← sum_estimateTokens_of_shows h, ← map_snd_components, List.map_map]
    rfl
  rw [← htotal] at hfits
  rw [assembleSystemPrompt_of_fits hfits, map_snd_components]
  exact ⟨words_of_shows h, fun block hblock hne ↦ infix_of_shows h hne hblock⟩

end Assembled

namespace PromptJob

variable (job : PromptJob) (continueCount : Nat)

theorem isBlock_of_mem_blocks {block : Text} (h : block ∈ (job.blocks continueCount).flatten) :
    IsBlock block := by
  simp only [blocks, blocksOf, promptGroup, List.flatten_cons, List.flatten_nil, List.append_nil,
    List.mem_append, Option.mem_toList, Option.map_eq_some_iff] at h
  obtain ⟨fileTree, _, rfl⟩ | hhistory | ((hrepository | hcontext) | hsummary) | ⟨url, _, rfl⟩ := h
  · exact .structureBlock fileTree
  · exact .of_filled hhistory
  · exact job.isBlock_of_mem_repositoryBlocks hrepository
  · exact .of_filled hcontext
  · unfold summaryBlock at hsummary
    split at hsummary
    · obtain ⟨summary, _, rfl⟩ := Option.map_eq_some_iff.mp hsummary
      exact .summary summary
    · cases hsummary
  · exact .signatureInstruction url

theorem groupSize_le_append (group more : List Text) :
    groupSize group ≤ groupSize (more ++ group) := by
  unfold groupSize
  split
  · exact Nat.zero_le _
  · next hne =>
    rw [if_neg (by simp [hne])]
    apply tokens_mono
    rw [wordCount_joinParts, wordCount_joinParts, List.map_append, List.sum_append]
    exact Nat.le_add_left _ _

/-- Without the blocks of the repository a prompt is no longer. -/
theorem sizeOf_blocksOf_nil_le :
    sizeOf (job.blocksOf continueCount []) ≤ sizeOf (job.blocks continueCount) := by
  have hprompt : groupSize (job.promptGroup continueCount []) ≤
      groupSize (job.promptGroup continueCount job.repositoryBlocks) := by
    unfold promptGroup
    rw [List.append_assoc job.repositoryBlocks]
    exact groupSize_le_append _ _
  simp only [sizeOf, blocks, blocksOf, List.map_cons, List.sum_cons, List.map_nil, List.sum_nil]
  omega

/-- The words of the blocks, with those of the repository. -/
theorem length_words_blocks :
    ((job.blocks continueCount).flatten.flatMap (words isSpace)).length =
      ((job.blocksOf continueCount []).flatten.flatMap (words isSpace)).length +
        (job.repositoryBlocks.flatMap (words isSpace)).length := by
  simp only [blocks, blocksOf, promptGroup, List.flatten_cons, List.flatMap_append,
    List.length_append, List.nil_append]
  omega

theorem words_repositoryBlocks_pos (h : job.repositoryBlocks ≠ []) :
    0 < (job.repositoryBlocks.flatMap (words isSpace)).length := by
  obtain ⟨block, hblock⟩ := List.exists_mem_of_ne_nil _ h
  rw [List.length_pos_iff, Ne, List.flatMap_eq_nil_iff]
  intro hall
  exact (job.isBlock_of_mem_repositoryBlocks hblock).words_ne_nil (hall block hblock)

end PromptJob

/-- What the summary replaces is not shown. -/
theorem not_shown_of_overwrites {job : PromptJob} {continueCount : Nat}
    (hfits : sizeOf (job.blocks continueCount) ≤ systemPromptBudget)
    (h : Overwrites job continueCount) : ¬ NoContextDropped job continueCount := by
  intro hshown
  have hshows := job.shows_loopBuilder continueCount
  have hkept : job.keptBlocks continueCount = [] := if_pos h.1
  rw [hkept] at hshows
  obtain ⟨order, hperm, hwords⟩ := (hshown hfits).2
  have hleft := (assembleSystemPrompt_of_shows hshows
    ((job.sizeOf_blocksOf_nil_le continueCount).trans hfits)).1
  have hlength := (hperm.flatMap_right (words isSpace)).length_eq
  rw [← hwords, PromptJob.systemPrompt, hleft, job.length_words_blocks] at hlength
  have hpos := job.words_repositoryBlocks_pos h.2
  omega

/-- In an iteration of a job what fits is shown exactly when the summary is not put in the place of
the repository's texts. -/
theorem noContextDropped_iff (job : PromptJob) (continueCount : Nat) :
    NoContextDropped job continueCount ↔
      ¬ (sizeOf (job.blocks continueCount) ≤ systemPromptBudget ∧
        Overwrites job continueCount) := by
  constructor
  · rintro hshown ⟨hfits, hover⟩
    exact not_shown_of_overwrites hfits hover hshown
  · intro hnot hfits
    have hshows := job.shows_loopBuilder continueCount
    have hkept : job.keptBlocks continueCount = job.repositoryBlocks := by
      unfold PromptJob.keptBlocks
      split
      · next hsummary =>
        by_contra hne
        exact hnot ⟨hfits, hsummary, fun hnil ↦ hne hnil.symm⟩
      · rfl
    rw [hkept] at hshows
    obtain ⟨hwords, hin⟩ := assembleSystemPrompt_of_shows hshows hfits
    refine ⟨fun block hblock ↦ ?_, _, .refl _, hwords⟩
    exact hin block hblock (job.isBlock_of_mem_blocks continueCount hblock).ne_nil

/-- A resumed job of a repository with a `CLAUDE.md`. -/
def resumedJob : PromptJob where
  systemContext := some "Review the change.".toList
  claudeMd := some "Use tabs.".toList
  memoryIndex := none
  threadHistoryText := []
  fileTreeText := []
  conversationSummary := some "The tests were added.".toList
  sessionMode := .resume
  streamingBridge := false
  sessionProxyUrl := []
  repo := "acme/app"
  threadType := .pr
  issueNumber := 7
  workflowName := "review-pr"

/-- The first iteration of the resumed job does not show the `CLAUDE.md`. -/
theorem not_noContextDropped :
    ¬ ∀ (job : PromptJob) (continueCount : Nat), NoContextDropped job continueCount := by
  intro h
  refine not_shown_of_overwrites ?_ ?_ (h resumedJob 0)
  · decide +kernel
  · exact ⟨⟨.inl rfl, rfl, by decide⟩, by decide⟩

end GithubAgent.Executor
