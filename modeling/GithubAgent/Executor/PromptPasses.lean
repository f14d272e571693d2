import GithubAgent.Executor.SystemPrompt

/-!
# What the passes over an oversized prompt keep

`_truncate_text` fails exactly when the line that it would keep first is too large, and a text that
it cuts has the words of the lines that fit with those of the marker. Each of the three passes of
`_assemble_system_prompt` places one component in what is left of the budget.
-/

namespace GithubAgent.Executor

open GithubAgent.Base GithubAgent.Webhook

/-! ### The lines that are kept -/

/-- The line that a text keeps as long as any. -/
def edgeLine (fromTop : Bool) (text : Text) : Text :=
  if fromTop then (text.splitOn '\n').getLastD [] else (text.splitOn '\n').headD []

/-- The words in the longest run of lines, added to those in use, that has room. -/
def fillWords (maxTokens : Nat) : Nat → List Nat → Nat
  | used, [] => used
  | used, w :: rest =>
    if maxTokens < tokens (used + w) then used else fillWords maxTokens (used + w) rest

/-- The words of the lines of a text that have room, from the one or the other end. -/
def keptWords (fromTop : Bool) (text : Text) (maxTokens : Nat) : Nat :=
  let lines := (text.splitOn '\n').map (wordCount isSpace)
  fillWords maxTokens 0 (if fromTop then lines.reverse else lines)

/-- The words of the marker of a cut. -/
def markerWords (fromTop : Bool) : Nat := if fromTop then 4 else 2

theorem wordCount_joinLines_append (lines : List Text) (line : Text) :
    wordCount isSpace (joinLines (lines ++ [line])) =
      wordCount isSpace (joinLines lines) + wordCount isSpace line := by
  simp [wordCount_joinLines]

theorem wordCount_joinLines_cons (line : Text) (lines : List Text) :
    wordCount isSpace (joinLines (line :: lines)) =
      wordCount isSpace line + wordCount isSpace (joinLines lines) := by
  simp [wordCount_joinLines]

theorem wordCount_keepFirst (maxTokens : Nat) (kept lines : List Text) :
    wordCount isSpace (joinLines (keepFirst maxTokens kept lines)) =
      fillWords maxTokens (wordCount isSpace (joinLines kept)) (lines.map (wordCount isSpace)) := by
  induction lines generalizing kept with
  | nil => rfl
  | cons line rest ih =>
    rw [keepFirst, List.map_cons, fillWords, estimateTokens, wordCount_joinLines_append]
    split
    · rfl
    · rw [ih, wordCount_joinLines_append]

theorem wordCount_keepLast (maxTokens : Nat) (kept lines : List Text) :
    wordCount isSpace (joinLines (keepLast maxTokens kept lines)) =
      fillWords maxTokens (wordCount isSpace (joinLines kept)) (lines.map (wordCount isSpace)) := by
  induction lines generalizing kept with
  | nil => rfl
  | cons line rest ih =>
    rw [keepLast, List.map_cons, fillWords, estimateTokens, wordCount_joinLines_cons, Nat.add_comm]
    split
    · rfl
    · rw [ih, wordCount_joinLines_cons, Nat.add_comm]

theorem keepFirst_ne_nil {maxTokens : Nat} {kept : List Text} (h : kept ≠ []) (lines : List Text) :
    keepFirst maxTokens kept lines ≠ [] := by
  induction lines generalizing kept with
  | nil => exact h
  | cons line rest ih =>
    rw [keepFirst]
    split
    · exact h
    · exact ih (by simp)

theorem keepLast_ne_nil {maxTokens : Nat} {kept : List Text} (h : kept ≠ []) (lines : List Text) :
    keepLast maxTokens kept lines ≠ [] := by
  induction lines generalizing kept with
  | nil => exact h
  | cons line rest ih =>
    rw [keepLast]
    split
    · exact h
    · exact ih (by simp)

theorem keepFirst_eq_nil_iff {maxTokens : Nat} {line : Text} {rest : List Text} :
    keepFirst maxTokens [] (line :: rest) = [] ↔ maxTokens < estimateTokens line := by
  rw [keepFirst, List.nil_append, joinLines, List.intercalate_singleton]
  split
  · next hlarge => simp [hlarge]
  · next hroom => simp [hroom, keepFirst_ne_nil]

theorem keepLast_eq_nil_iff {maxTokens : Nat} {line : Text} {rest : List Text} :
    keepLast maxTokens [] (line :: rest) = [] ↔ maxTokens < estimateTokens line := by
  rw [keepLast, joinLines, List.intercalate_singleton]
  split
  · next hlarge => simp [hlarge]
  · next hroom => simp [hroom, keepLast_ne_nil]

/-! ### Truncated texts -/

/-- The lines of a text, from the end that is kept. -/
def orderedLines (fromTop : Bool) (text : Text) : List Text :=
  if fromTop then (text.splitOn '\n').reverse else text.splitOn '\n'

theorem exists_orderedLines (fromTop : Bool) (text : Text) :
    ∃ rest, orderedLines fromTop text = edgeLine fromTop text :: rest := by
  obtain ⟨first, rest, hlines⟩ := List.exists_cons_of_ne_nil (List.splitOn_ne_nil '\n' text)
  cases fromTop with
  | false => exact ⟨rest, by simp [orderedLines, edgeLine, hlines]⟩
  | true =>
    obtain ⟨before, last, hlast⟩ := (List.eq_nil_or_concat' (text.splitOn '\n')).resolve_left
      (List.splitOn_ne_nil '\n' text)
    exact ⟨before.reverse, by simp [orderedLines, edgeLine, hlast]⟩

theorem keptWords_eq (fromTop : Bool) (text : Text) (maxTokens : Nat) :
    keptWords fromTop text maxTokens =
      fillWords maxTokens 0 ((orderedLines fromTop text).map (wordCount isSpace)) := by
  cases fromTop <;> simp [keptWords, orderedLines, List.map_reverse]

theorem sum_orderedLines (fromTop : Bool) (text : Text) :
    ((orderedLines fromTop text).map (wordCount isSpace)).sum = wordCount isSpace text := by
  have hlines : ((text.splitOn '\n').map (wordCount isSpace)).sum = wordCount isSpace text := by
    rw [← wordCount_joinLines, joinLines, List.intercalate_splitOn]
  cases fromTop with
  | false => exact hlines
  | true =>
    rw [orderedLines, if_pos rfl, List.map_reverse, List.sum_reverse]
    exact hlines

/-- A line of a text is no larger than the text. -/
theorem estimateTokens_edgeLine_le (fromTop : Bool) (text : Text) :
    estimateTokens (edgeLine fromTop text) ≤ estimateTokens text := by
  obtain ⟨rest, hlines⟩ := exists_orderedLines fromTop text
  apply tokens_mono
  rw [← sum_orderedLines fromTop text, hlines, List.map_cons, List.sum_cons]
  exact Nat.le_add_right _ _

theorem tokens_fillWords {maxTokens used : Nat} (weights : List Nat) (h : tokens used ≤ maxTokens) :
    tokens (fillWords maxTokens used weights) ≤ maxTokens := by
  induction weights generalizing used with
  | nil => exact h
  | cons w rest ih =>
    rw [fillWords]
    split
    · exact h
    · next hroom => exact ih (Nat.not_lt.mp hroom)

/-- The lines that are kept have room. -/
theorem tokens_keptWords {text : Text} {maxTokens : Nat} {fromTop : Bool}
    (h : estimateTokens (edgeLine fromTop text) ≤ maxTokens) :
    tokens (keptWords fromTop text maxTokens) ≤ maxTokens := by
  rw [keptWords_eq]
  exact tokens_fillWords _ (Nat.le_trans (tokens_mono (Nat.zero_le _)) h)

/-- A text with a line at its edge that is too large is lost. -/
theorem truncateText_eq_none {text : Text} {maxTokens : Nat} {fromTop : Bool}
    (h : maxTokens < estimateTokens (edgeLine fromTop text)) :
    truncateText text maxTokens fromTop = none := by
  have hlarge := Nat.lt_of_lt_of_le h (estimateTokens_edgeLine_le fromTop text)
  obtain ⟨rest, hlines⟩ := exists_orderedLines fromTop text
  rw [truncateText, if_neg (Nat.not_le.mpr hlarge)]
  cases fromTop with
  | false =>
    have hlines : text.splitOn '\n' = edgeLine false text :: rest := hlines
    rw [if_neg (by simp), hlines, keepFirst_eq_nil_iff.mpr h]
  | true =>
    have hlines : (text.splitOn '\n').reverse = edgeLine true text :: rest := hlines
    rw [if_pos rfl, hlines, keepLast_eq_nil_iff.mpr h]

theorem wordCount_truncatedMarker (text : Text) :
    wordCount isSpace (text ++ '\n' :: truncatedMarker) = wordCount isSpace text + 2 := by
  rw [wordCount, words_append_cons text _ (by decide), List.length_append]
  rfl

theorem wordCount_olderTruncated (text : Text) :
    wordCount isSpace (olderTruncated ++ '\n' :: text) = wordCount isSpace text + 4 := by
  rw [wordCount, words_append_cons _ text (by decide), List.length_append, Nat.add_comm]
  rfl

/-- A text that is cut has the words of the lines that are kept and those of the marker. -/
theorem truncateText_of_cut {text : Text} {maxTokens : Nat} {fromTop : Bool}
    (hlarge : maxTokens < estimateTokens text)
    (h : estimateTokens (edgeLine fromTop text) ≤ maxTokens) :
    ∃ cut, truncateText text maxTokens fromTop = some cut ∧
      wordCount isSpace cut = keptWords fromTop text maxTokens + markerWords fromTop ∧
      (fromTop = false → ∃ kept, cut = kept ++ '\n' :: truncatedMarker) := by
  obtain ⟨rest, hlines⟩ := exists_orderedLines fromTop text
  rw [truncateText, if_neg (Nat.not_le.mpr hlarge), keptWords_eq, hlines]
  cases fromTop with
  | false =>
    have hlines : text.splitOn '\n' = edgeLine false text :: rest := hlines
    rw [if_neg (by simp), hlines]
    have hwords := wordCount_keepFirst maxTokens [] (edgeLine false text :: rest)
    cases hkept : keepFirst maxTokens [] (edgeLine false text :: rest) with
    | nil => exact absurd (keepFirst_eq_nil_iff.mp hkept) (Nat.not_lt.mpr h)
    | cons line lines =>
      rw [hkept] at hwords
      exact ⟨_, rfl, by rw [wordCount_truncatedMarker, hwords]; rfl, fun _ ↦ ⟨_, rfl⟩⟩
  | true =>
    have hlines : (text.splitOn '\n').reverse = edgeLine true text :: rest := hlines
    rw [if_pos rfl, hlines]
    have hwords := wordCount_keepLast maxTokens [] (edgeLine true text :: rest)
    cases hkept : keepLast maxTokens [] (edgeLine true text :: rest) with
    | nil => exact absurd (keepLast_eq_nil_iff.mp hkept) (Nat.not_lt.mpr h)
    | cons line lines =>
      rw [hkept] at hwords
      exact ⟨_, rfl, by rw [wordCount_olderTruncated, hwords]; rfl, fun h ↦ by cases h⟩

/-! ### Placing a component -/

/-- A component in what is left of the budget: what of it becomes a part, and what is left then. -/
def place (label : Label) (fromTop : Bool) (text : Option Text) (remaining : Nat) :
    List (Label × Text) × Nat :=
  match text with
  | none => ([], remaining)
  | some text =>
    if estimateTokens text ≤ remaining then ([(label, text)], remaining - estimateTokens text)
    else
      match truncateText text remaining fromTop with
      | some truncated => ([(label, truncated)], 0)
      | none => ([], remaining)

/-- The size of a component, if it is there. -/
def sizeOfComponent (text : Option Text) : Nat := text.elim 0 estimateTokens

theorem sizeOfComponent_some (text : Text) :
    sizeOfComponent (some text) = estimateTokens text := rfl

section Place

variable {label : Label} {fromTop : Bool} {text : Text} {remaining : Nat}

theorem place_of_room (label : Label) (fromTop : Bool) (h : estimateTokens text ≤ remaining) :
    place label fromTop (some text) remaining =
      ([(label, text)], remaining - estimateTokens text) :=
  if_pos h

theorem place_of_lost (label : Label) (h : remaining < estimateTokens (edgeLine fromTop text)) :
    place label fromTop (some text) remaining = ([], remaining) := by
  have hlarge := Nat.lt_of_lt_of_le h (estimateTokens_edgeLine_le fromTop text)
  rw [place, if_neg (Nat.not_le.mpr hlarge), truncateText_eq_none h]

theorem place_of_cut (label : Label) (hlarge : remaining < estimateTokens text)
    (h : estimateTokens (edgeLine fromTop text) ≤ remaining) :
    ∃ cut, place label fromTop (some text) remaining = ([(label, cut)], 0) ∧
      wordCount isSpace cut = keptWords fromTop text remaining + markerWords fromTop ∧
      (fromTop = false → ∃ kept, cut = kept ++ '\n' :: truncatedMarker) := by
  obtain ⟨cut, hcut, hrest⟩ := truncateText_of_cut hlarge h
  refine ⟨cut, ?_, hrest⟩
  rw [place, if_neg (Nat.not_le.mpr hlarge), hcut]

/-- Nothing is placed where nothing is left. -/
theorem place_zero (label : Label) (fromTop : Bool) (text : Option Text) :
    place label fromTop text 0 = ([], 0) := by
  cases text with
  | none => rfl
  | some text => exact place_of_lost label (tokens_pos _)

theorem label_eq_of_mem_place {component : Option Text} {part : Label × Text}
    (h : part ∈ (place label fromTop component remaining).1) : part.1 = label := by
  unfold place at h
  split at h
  · cases h
  · split at h
    · rw [List.mem_singleton.mp h]
    · split at h
      · rw [List.mem_singleton.mp h]
      · cases h

end Place

/-! ### The passes -/

section Passes

variable (b : SdkOptionsBuilder) (remaining : Nat)

/-- The first pass places the prompt and, behind one that fits, the signature. -/
theorem highPass_components : highPass b.components remaining =
    if sizeOfComponent b.prompt ≤ remaining then
      let signature := place .signature false b.signature (remaining - sizeOfComponent b.prompt)
      (b.prompt.toList.map (Label.prompt, ·) ++ signature.1, signature.2)
    else place .prompt false b.prompt remaining := by
  have hskip : highPass b.components remaining = highPass (b.prompt.toList.map (Label.prompt, ·) ++
      b.signature.toList.map (Label.signature, ·)) remaining := by
    unfold SdkOptionsBuilder.components
    cases b.structural <;> cases b.history <;> simp [highPass]
  have hsignature : ∀ r, highPass (b.signature.toList.map (Label.signature, ·)) r =
      place .signature false b.signature r := by
    intro r
    cases b.signature with
    | none => rfl
    | some text =>
      simp only [Option.toList_some, List.map_singleton, highPass, place]
      rfl
  rw [hskip]
  cases b.prompt with
  | none =>
    rw [if_pos (show sizeOfComponent none ≤ remaining from Nat.zero_le _)]
    exact hsignature remaining
  | some text =>
    rw [Option.toList_some, List.map_singleton, List.singleton_append, highPass, if_neg (by simp)]
    unfold sizeOfComponent
    rw [Option.elim_some, hsignature]
    split
    · rfl
    · next hlarge => exact (if_neg hlarge).symm

theorem historyPass_components : historyPass b.components remaining =
    place .threadHistory true b.history remaining := by
  unfold historyPass
  split
  · next hzero => rw [hzero, place_zero]
  · have hfind : b.components.find? (·.1 = Label.threadHistory) =
        b.history.map (Label.threadHistory, ·) := by
      unfold SdkOptionsBuilder.components
      cases b.structural <;> cases b.history <;> cases b.prompt <;> cases b.signature <;> rfl
    rw [hfind]
    cases b.history <;> rfl

theorem structuralPass_components : structuralPass b.components remaining =
    (place .structural false b.structural remaining).1 := by
  unfold structuralPass
  split
  · next hzero => rw [hzero, place_zero]
  · have hfilter : b.components.filter (·.1 = Label.structural) =
        b.structural.toList.map (Label.structural, ·) := by
      unfold SdkOptionsBuilder.components
      cases b.structural <;> cases b.history <;> cases b.prompt <;> cases b.signature <;> rfl
    rw [hfilter]
    cases b.structural with
    | none => rfl
    | some text =>
      rw [Option.toList_some, List.map_singleton, List.flatMap_singleton, place]
      show (if estimateTokens text ≤ remaining then [(Label.structural, text)]
        else (truncateText text remaining false).toList.map (Label.structural, ·)) = _
      split
      · rfl
      · cases truncateText text remaining false <;> rfl

/-- The parts of an oversized prompt. -/
theorem finalParts_of_large (h : systemPromptBudget < totalTokens b.components) :
    finalParts b.components =
      let high := highPass b.components systemPromptBudget
      let history := place .threadHistory true b.history high.2
      high.1 ++ history.1 ++ (place .structural false b.structural history.2).1 := by
  rw [finalParts, if_neg (Nat.not_le.mpr h)]
  simp only [historyPass_components, structuralPass_components]

theorem totalTokens_components : totalTokens b.components = sizeOfComponent b.structural +
    sizeOfComponent b.history + sizeOfComponent b.prompt + sizeOfComponent b.signature := by
  unfold totalTokens SdkOptionsBuilder.components sizeOfComponent
  cases b.structural <;> cases b.history <;> cases b.prompt <;> cases b.signature <;>
    simp [Nat.add_assoc]

end Passes

end GithubAgent.Executor
