import GithubAgent.Base.Words
import GithubAgent.Webhook.Command
import Mathlib.Tactic.ByContra

/-!
# The system prompt of the SDK options

The part of `SDKOptionsBuilder` that makes the system prompt (`src/shared/sdk_factory.py:503-599,
698-711, 769-932`): the setters, `_assemble_system_prompt` with its budget, and `_truncate_text`.
Sizes are estimates by words. Of the parts of a result the model keeps the labels, which the source
drops, since the text of one part can stand in another by chance.
-/

namespace GithubAgent.Executor

open GithubAgent.Base GithubAgent.Webhook

/-- A text as its characters. -/
abbrev Text := List Char

/-! ### Sizes and truncation -/

/-- `SYSTEM_PROMPT_BUDGET` (`sdk_factory.py:21`). -/
def systemPromptBudget : Nat := 12000

/-- `max(1, int(words * 1.3))`. -/
def tokens (words : Nat) : Nat := max 1 (words * 13 / 10)

/-- `_estimate_tokens` and `_estimate` (`sdk_factory.py:811-813, 897-898`). -/
def estimateTokens (text : Text) : Nat := tokens (wordCount isSpace text)

/-- `"\n".join(lines)`. -/
def joinLines (lines : List Text) : Text := ['\n'].intercalate lines

/-- `"\n\n".join(parts)`. -/
def joinParts (parts : List Text) : Text := ['\n', '\n'].intercalate parts

/-- The loop that removes lines from the end (`sdk_factory.py:922-927`). -/
def keepFirst (maxTokens : Nat) (resultLines : List Text) : List Text → List Text
  | [] => resultLines
  | line :: rest =>
    if maxTokens < estimateTokens (joinLines (resultLines ++ [line])) then resultLines
    else keepFirst maxTokens (resultLines ++ [line]) rest

/-- The loop that removes lines from the beginning, over the lines in reverse
(`sdk_factory.py:908-913`); the result is in the order of the text. -/
def keepLast (maxTokens : Nat) (resultLines : List Text) : List Text → List Text
  | [] => resultLines
  | line :: rest =>
    if maxTokens < estimateTokens (joinLines (line :: resultLines)) then resultLines
    else keepLast maxTokens (line :: resultLines) rest

/-- The line before a text that lost its beginning. -/
def olderTruncated : Text := "... (older comments truncated)".toList

/-- The line behind a text that lost its end. -/
def truncatedMarker : Text := "... (truncated)".toList

/-- `_truncate_text` (`sdk_factory.py:884-932`). -/
def truncateText (text : Text) (maxTokens : Nat) (fromTop : Bool) : Option Text :=
  if estimateTokens text ≤ maxTokens then some text
  else if fromTop then
    match keepLast maxTokens [] (text.splitOn '\n').reverse with
    | [] => none
    | resultLines => some (olderTruncated ++ '\n' :: joinLines resultLines)
  else
    match keepFirst maxTokens [] (text.splitOn '\n') with
    | [] => none
    | resultLines => some (joinLines resultLines ++ '\n' :: truncatedMarker)

/-! ### The builder -/

/-- The fields of `SDKOptionsBuilder` that the system prompt is made of (`sdk_factory.py:85-91`). -/
structure SdkOptionsBuilder where
  systemPrompt : Option Text := none
  structuralContext : Option Text := none
  threadHistory : Option Text := none
  sessionSignature : Option Text := none

/-- `text` if it is truthy. -/
def given (text : Option Text) : Option Text := text.filter (· ≠ [])

/-- `text.strip()` if `text and text.strip()`. -/
def filled (text : Option Text) : Option Text := given (text.map strip)

/-- `with_system_prompt` (`sdk_factory.py:503-514`). -/
def withSystemPrompt (prompt : Option Text) (b : SdkOptionsBuilder) : SdkOptionsBuilder :=
  match given prompt with
  | some prompt => { b with systemPrompt := some prompt }
  | none => b

/-- The block of the memory index. -/
def memoryBlock (index : Text) : Text :=
  "<memory name=\"index.md\">\n".toList ++ index ++ "\n</memory>".toList

/-- The block of `CLAUDE.md`. -/
def repositoryBlock (claudeMd : Text) : Text :=
  "<repository_context>\n".toList ++ claudeMd ++ "\n</repository_context>".toList

/-- The block of the file tree. -/
def structureBlock (fileTree : Text) : Text :=
  "<repo_structure>\n".toList ++ fileTree ++ "\n</repo_structure>".toList

/-- `with_repository_context` (`sdk_factory.py:516-559`). -/
def withRepositoryContext (claudeMd memoryIndex : Option Text) (b : SdkOptionsBuilder) :
    SdkOptionsBuilder :=
  match (filled memoryIndex).toList.map memoryBlock ++
      (filled claudeMd).toList.map repositoryBlock with
  | [] => b
  | contextParts =>
    let repoContext := joinParts contextParts
    match given b.systemPrompt with
    | some prompt => { b with systemPrompt := some (repoContext ++ "\n\n".toList ++ prompt) }
    | none => { b with systemPrompt := some repoContext }

/-- `with_thread_history` (`sdk_factory.py:582-599`). -/
def withThreadHistory (history : Option Text) (b : SdkOptionsBuilder) : SdkOptionsBuilder :=
  match filled history with
  | some history => { b with threadHistory := some history }
  | none => b

/-- `with_structural_context` (`sdk_factory.py:561-580`). -/
def withStructuralContext (fileTree : Option Text) (b : SdkOptionsBuilder) : SdkOptionsBuilder :=
  match filled fileTree with
  | some fileTree => { b with structuralContext := some (structureBlock fileTree) }
  | none => b

/-- `with_session_signature` (`sdk_factory.py:698-711`). -/
def withSessionSignature (sessionUrl : Text) (b : SdkOptionsBuilder) : SdkOptionsBuilder :=
  { b with sessionSignature := some sessionUrl }

/-! ### Assembling -/

/-- The labels of the components. -/
inductive Label where
  | structural
  | threadHistory
  | prompt
  | signature
  deriving DecidableEq

/-- The text of the signature component (`sdk_factory.py:797-805`). -/
def signatureInstruction (sessionUrl : Text) : Text :=
  "When posting any GitHub comment (via add_issue_comment or ".toList ++
    ("pull_request_review_write), you MUST append this signature ".toList ++
      "at the very end of your comment:\n\n---\n".toList ++
      "[Link to remote control this session](".toList ++ sessionUrl ++
      ")\n\nDo not include this signature in PR descriptions, ".toList ++
      "commit messages, or any other output ".toList) ++
    "— only GitHub comments.".toList

namespace SdkOptionsBuilder

variable (b : SdkOptionsBuilder)

/-- The structural context as a component. -/
def structural : Option Text := filled b.structuralContext

/-- The thread history as a component. -/
def history : Option Text := filled b.threadHistory

/-- The prompt as a component. -/
def prompt : Option Text := filled b.systemPrompt

/-- The signature as a component. -/
def signature : Option Text := (given b.sessionSignature).map signatureInstruction

/-- `components` (`sdk_factory.py:783-806`). -/
def components : List (Label × Text) :=
  b.structural.toList.map (Label.structural, ·) ++ b.history.toList.map (Label.threadHistory, ·) ++
    b.prompt.toList.map (Label.prompt, ·) ++ b.signature.toList.map (Label.signature, ·)

end SdkOptionsBuilder

/-- `total` (`sdk_factory.py:815`). -/
def totalTokens (components : List (Label × Text)) : Nat :=
  (components.map fun c ↦ estimateTokens c.2).sum

/-- The pass over the prompt and the signature, with the budget that it leaves
(`sdk_factory.py:830-842`). -/
def highPass : List (Label × Text) → Nat → List (Label × Text) × Nat
  | [], remaining => ([], remaining)
  | (label, text) :: rest, remaining =>
    if label = .structural ∨ label = .threadHistory then highPass rest remaining
    else if estimateTokens text ≤ remaining then
      let (parts, remaining) := highPass rest (remaining - estimateTokens text)
      ((label, text) :: parts, remaining)
    else
      match truncateText text remaining false with
      | some truncated => ([(label, truncated)], 0)
      | none => ([], remaining)

/-- The pass over the thread history (`sdk_factory.py:844-861`). -/
def historyPass (components : List (Label × Text)) (remaining : Nat) : List (Label × Text) × Nat :=
  if remaining = 0 then ([], 0)
  else
    match components.find? (·.1 = Label.threadHistory) with
    | none => ([], remaining)
    | some (label, text) =>
      if estimateTokens text ≤ remaining then
        ([(label, text)], remaining - estimateTokens text)
      else
        match truncateText text remaining true with
        | some truncated => ([(label, truncated)], 0)
        | none => ([], remaining)

/-- The pass over the structural context (`sdk_factory.py:863-873`). -/
def structuralPass (components : List (Label × Text)) (remaining : Nat) : List (Label × Text) :=
  if remaining = 0 then []
  else
    (components.filter (·.1 = Label.structural)).flatMap fun (label, text) ↦
      if estimateTokens text ≤ remaining then [(label, text)]
      else (truncateText text remaining false).toList.map (label, ·)

/-- `final_parts` with the labels of the parts; the components themselves when they are within the
budget (`sdk_factory.py:815-873`). -/
def finalParts (components : List (Label × Text)) : List (Label × Text) :=
  if totalTokens components ≤ systemPromptBudget then components
  else
    let (high, remaining) := highPass components systemPromptBudget
    let (history, remaining) := historyPass components remaining
    high ++ history ++ structuralPass components remaining

/-- `_assemble_system_prompt` (`sdk_factory.py:769-881`). -/
def assembleSystemPrompt (b : SdkOptionsBuilder) : Option Text :=
  match finalParts b.components with
  | [] => none
  | parts => some (joinParts (parts.map Prod.snd))

/-! ### Words -/

/-- Stripping keeps the words. -/
theorem words_strip (text : Text) : words isSpace (strip text) = words isSpace text := by
  rw [strip_eq, words_rdropWhile, words_dropWhile]

theorem words_joinParts (parts : List Text) :
    words isSpace (joinParts parts) = parts.flatMap (words isSpace) :=
  words_intercalate (by simp) (List.all_eq_true.mp (by decide)) parts

theorem wordCount_joinLines (lines : List Text) :
    wordCount isSpace (joinLines lines) = (lines.map (wordCount isSpace)).sum :=
  wordCount_intercalate (by simp) (List.all_eq_true.mp (by decide)) lines

theorem wordCount_joinParts (parts : List Text) :
    wordCount isSpace (joinParts parts) = (parts.map (wordCount isSpace)).sum :=
  wordCount_intercalate (by simp) (List.all_eq_true.mp (by decide)) parts

theorem tokens_mono {w w' : Nat} (h : w ≤ w') : tokens w ≤ tokens w' := by
  unfold tokens
  omega

theorem tokens_pos (w : Nat) : 0 < tokens w := by
  unfold tokens
  omega

/-! ### Components -/

theorem filled_eq_some {text : Option Text} {t : Text} :
    filled text = some t ↔ strip (text.getD []) = t ∧ t ≠ [] := by
  cases text with
  | none =>
    simp only [filled, given, Option.map_none, Option.filter_none, Option.getD_none]
    constructor
    · rintro ⟨⟩
    · rintro ⟨rfl, hne⟩
      exact absurd rfl hne
  | some raw =>
    simp only [filled, given, Option.map_some, Option.filter_some, Option.getD_some]
    split
    · next hne =>
      rw [Option.some.injEq]
      exact ⟨fun h ↦ ⟨h, h ▸ by simpa using hne⟩, fun h ↦ h.1⟩
    · next hnil =>
      constructor
      · rintro ⟨⟩
      · rintro ⟨rfl, hne⟩
        simp [hne] at hnil

theorem filled_eq_none {text : Option Text} : filled text = none ↔ strip (text.getD []) = [] := by
  constructor
  · intro h
    by_contra hne
    rw [filled_eq_some.mpr ⟨rfl, hne⟩] at h
    cases h
  · intro h
    rw [Option.eq_none_iff_forall_ne_some]
    intro t ht
    obtain ⟨hstrip, hne⟩ := filled_eq_some.mp ht
    exact hne (hstrip ▸ h)

theorem map_snd_components (b : SdkOptionsBuilder) : b.components.map Prod.snd =
    [b.structural, b.history, b.prompt, b.signature].filterMap id := by
  unfold SdkOptionsBuilder.components
  cases b.structural <;> cases b.history <;> cases b.prompt <;> cases b.signature <;> rfl

/-- When the components are within the budget, all of them are joined. -/
theorem assembleSystemPrompt_of_fits {b : SdkOptionsBuilder}
    (h : totalTokens b.components ≤ systemPromptBudget) :
    (assembleSystemPrompt b).getD [] = joinParts (b.components.map Prod.snd) := by
  rw [assembleSystemPrompt, finalParts, if_pos h]
  split
  · next hnil => rw [hnil]; rfl
  · rfl

end GithubAgent.Executor
