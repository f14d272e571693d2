import GithubAgent.Executor.PromptPasses

/-!
# The priority and the budget of the system prompt

What `_assemble_system_prompt` documents (`src/shared/sdk_factory.py:769-881`): the signature is
always there, a component of lower priority never stands for one of higher priority, and the result
is within the budget.
-/

namespace GithubAgent.Executor

open GithubAgent.Base GithubAgent.Webhook

/-! ### Priority -/

/-- Something of the component is a part. -/
def HasPart (label : Label) (parts : List (Label × Text)) : Prop := ∃ text, (label, text) ∈ parts

/-- The signature is complete, and where there is something of a component, those of higher
priority are complete. -/
structure PriorityKept (b : SdkOptionsBuilder) : Prop where
  signature : ∀ text ∈ b.signature, (Label.signature, text) ∈ finalParts b.components
  prompt : ∀ text ∈ b.prompt, HasPart .threadHistory (finalParts b.components) ∨
    HasPart .structural (finalParts b.components) → (Label.prompt, text) ∈ finalParts b.components
  history : ∀ text ∈ b.history, HasPart .structural (finalParts b.components) →
    (Label.threadHistory, text) ∈ finalParts b.components

/-- Something of the component has room. -/
def HasRoom (fromTop : Bool) (component : Option Text) (remaining : Nat) : Prop :=
  ∃ text ∈ component, estimateTokens (edgeLine fromTop text) ≤ remaining

/-- The component is there, and nothing of it has room. -/
def Lost (fromTop : Bool) (component : Option Text) (remaining : Nat) : Prop :=
  ∃ text ∈ component, remaining < estimateTokens (edgeLine fromTop text)

/-- What the prompt and the signature leave of the budget. -/
def lowBudget (b : SdkOptionsBuilder) : Nat :=
  systemPromptBudget - sizeOfComponent b.prompt - sizeOfComponent b.signature

/-- The signature fits behind the prompt, and no component is lost for one line that is too large
where there is room for something of a lower one. -/
structure RoomByPriority (b : SdkOptionsBuilder) : Prop where
  signature : b.signature = none ∨
    sizeOfComponent b.prompt + sizeOfComponent b.signature ≤ systemPromptBudget
  prompt : ¬ Lost false b.prompt systemPromptBudget ∨
    ¬ HasRoom true b.history systemPromptBudget ∧ ¬ HasRoom false b.structural systemPromptBudget
  history : ¬ Lost true b.history (lowBudget b) ∨ ¬ HasRoom false b.structural (lowBudget b)

/-! ### Room for a component -/

section Room

variable {label : Label} {fromTop : Bool} {component : Option Text} {text : Text} {remaining : Nat}

theorem place_of_not_hasRoom (label : Label) (h : ¬ HasRoom fromTop component remaining) :
    place label fromTop component remaining = ([], remaining) := by
  cases component with
  | none => rfl
  | some text =>
    apply place_of_lost
    by_contra hroom
    exact h ⟨text, rfl, Nat.not_lt.mp hroom⟩

theorem hasPart_place_iff (label : Label) :
    HasPart label (place label fromTop component remaining).1 ↔
      HasRoom fromTop component remaining := by
  constructor
  · rintro ⟨text, hpart⟩
    by_contra hroom
    rw [place_of_not_hasRoom label hroom] at hpart
    cases hpart
  · rintro ⟨text, rfl, hroom⟩
    by_cases hfull : estimateTokens text ≤ remaining
    · exact ⟨text, by rw [place_of_room label fromTop hfull]; exact List.mem_singleton_self _⟩
    · obtain ⟨cut, hcut, _⟩ := place_of_cut label (Nat.not_le.mp hfull) hroom
      exact ⟨cut, by rw [hcut]; exact List.mem_singleton_self _⟩

/-- A component that is there and not in full leaves nothing, or is lost. -/
theorem place_of_large (label : Label) (fromTop : Bool) (h : remaining < estimateTokens text) :
    (place label fromTop (some text) remaining).2 = 0 ∨ Lost fromTop (some text) remaining := by
  by_cases hroom : estimateTokens (edgeLine fromTop text) ≤ remaining
  · obtain ⟨cut, hcut, _⟩ := place_of_cut label h hroom
    exact .inl (by rw [hcut])
  · exact .inr ⟨text, rfl, Nat.not_le.mp hroom⟩

theorem not_hasRoom_of_lost (h : Lost fromTop component remaining) :
    ¬ HasRoom fromTop component remaining := by
  rintro ⟨text, rfl, hroom⟩
  obtain ⟨_, ⟨⟩, hlost⟩ := h
  exact Nat.not_le.mpr hlost hroom

theorem not_hasRoom_zero : ¬ HasRoom fromTop component 0 := by
  rintro ⟨text, _, hroom⟩
  exact Nat.not_le.mpr (tokens_pos _) hroom

theorem not_lost_of_room (h : sizeOfComponent component ≤ remaining) :
    ¬ Lost fromTop component remaining := by
  rintro ⟨text, rfl, hlost⟩
  exact Nat.not_le.mpr hlost ((estimateTokens_edgeLine_le fromTop text).trans h)

end Room

/-! ### The parts by their labels -/

section Parts

variable {b : SdkOptionsBuilder}

/-- The first pass of an oversized prompt. -/
def highParts (b : SdkOptionsBuilder) : List (Label × Text) × Nat :=
  highPass b.components systemPromptBudget

/-- The second pass of an oversized prompt. -/
def historyParts (b : SdkOptionsBuilder) : List (Label × Text) × Nat :=
  place .threadHistory true b.history (highParts b).2

/-- The third pass of an oversized prompt. -/
def structuralParts (b : SdkOptionsBuilder) : List (Label × Text) :=
  (place .structural false b.structural (historyParts b).2).1

theorem label_of_mem_highParts {part : Label × Text} (h : part ∈ (highParts b).1) :
    part.1 = .prompt ∨ part.1 = .signature := by
  rw [highParts, highPass_components] at h
  split at h
  · rcases List.mem_append.mp h with h | h
    · obtain ⟨text, _, rfl⟩ := List.mem_map.mp h
      exact .inl rfl
    · exact .inr (label_eq_of_mem_place h)
  · exact .inl (label_eq_of_mem_place h)

variable (hlarge : systemPromptBudget < totalTokens b.components)

include hlarge

theorem mem_finalParts_iff (part : Label × Text) : part ∈ finalParts b.components ↔
    part ∈ (highParts b).1 ∨ part ∈ (historyParts b).1 ∨ part ∈ structuralParts b := by
  rw [finalParts_of_large b hlarge]
  simp only [List.mem_append, or_assoc]
  rfl

/-- The prompt and the signature stand in the parts of the first pass. -/
theorem mem_finalParts_high {part : Label × Text}
    (hlabel : part.1 = .prompt ∨ part.1 = .signature) :
    part ∈ finalParts b.components ↔ part ∈ (highParts b).1 := by
  rw [mem_finalParts_iff hlarge]
  constructor
  · rintro (h | h | h)
    · exact h
    · rw [label_eq_of_mem_place h] at hlabel
      rcases hlabel with hlabel | hlabel <;> cases hlabel
    · rw [label_eq_of_mem_place h] at hlabel
      rcases hlabel with hlabel | hlabel <;> cases hlabel
  · exact .inl

theorem mem_finalParts_history {text : Text} :
    (Label.threadHistory, text) ∈ finalParts b.components ↔
      (Label.threadHistory, text) ∈ (historyParts b).1 := by
  rw [mem_finalParts_iff hlarge]
  constructor
  · rintro (h | h | h)
    · rcases label_of_mem_highParts h with h | h <;> cases h
    · exact h
    · cases label_eq_of_mem_place h
  · exact fun h ↦ .inr (.inl h)

theorem hasPart_history_iff : HasPart .threadHistory (finalParts b.components) ↔
    HasRoom true b.history (highParts b).2 := by
  rw [← hasPart_place_iff .threadHistory]
  exact exists_congr fun text ↦ mem_finalParts_history hlarge

theorem hasPart_structural_iff : HasPart .structural (finalParts b.components) ↔
    HasRoom false b.structural (historyParts b).2 := by
  rw [← hasPart_place_iff .structural]
  refine exists_congr fun text ↦ ?_
  rw [mem_finalParts_iff hlarge]
  constructor
  · rintro (h | h | h)
    · rcases label_of_mem_highParts h with h | h <;> cases h
    · cases label_eq_of_mem_place h
    · exact h
  · exact fun h ↦ .inr (.inr h)

end Parts

/-! ### The first pass -/

section High

variable {b : SdkOptionsBuilder}

/-- The prompt and the signature in full. -/
theorem highParts_of_room (hprompt : sizeOfComponent b.prompt ≤ systemPromptBudget)
    (h : b.signature = none ∨
      sizeOfComponent b.prompt + sizeOfComponent b.signature ≤ systemPromptBudget) :
    highParts b = (b.prompt.toList.map (Label.prompt, ·) ++
      b.signature.toList.map (Label.signature, ·), lowBudget b) := by
  rw [highParts, highPass_components, if_pos hprompt]
  cases hsignature : b.signature with
  | none => simp [place, lowBudget, hsignature, sizeOfComponent]
  | some text =>
    rw [hsignature] at h
    have hroom : estimateTokens text ≤ systemPromptBudget - sizeOfComponent b.prompt :=
      Nat.le_sub_of_add_le' (h.resolve_left (by simp))
    simp only [place_of_room Label.signature false hroom, lowBudget, hsignature]
    rfl

theorem highParts_of_large (h : systemPromptBudget < sizeOfComponent b.prompt) :
    highParts b = place .prompt false b.prompt systemPromptBudget := by
  rw [highParts, highPass_components, if_neg (Nat.not_le.mpr h)]

/-- A signature is never what a cut leaves of a text. -/
theorem signatureInstruction_ne_cut (sessionUrl kept : Text) :
    signatureInstruction sessionUrl ≠ kept ++ '\n' :: truncatedMarker := by
  intro heq
  have hsignature : (signatureInstruction sessionUrl).getLast? = some '.' := by
    unfold signatureInstruction
    rw [List.getLast?_append_of_ne_nil _ (by decide)]
    rfl
  have hcut : (kept ++ '\n' :: truncatedMarker).getLast? = some ')' := by
    have hne : truncatedMarker ≠ [] := by decide
    rw [List.append_cons, List.getLast?_append_of_ne_nil _ hne]
    rfl
  rw [heq, hcut] at hsignature
  exact absurd hsignature (by decide)

/-- A signature without room behind the prompt is not complete. -/
theorem signature_notMem {text : Text} (hsignature : b.signature = some text)
    (h : systemPromptBudget < sizeOfComponent b.prompt + estimateTokens text) :
    (Label.signature, text) ∉ (highParts b).1 := by
  by_cases hprompt : sizeOfComponent b.prompt ≤ systemPromptBudget
  · have hlarge : systemPromptBudget - sizeOfComponent b.prompt < estimateTokens text := by omega
    rw [highParts, highPass_components, if_pos hprompt, hsignature]
    intro hmem
    rcases List.mem_append.mp hmem with hmem | hmem
    · obtain ⟨_, _, heq⟩ := List.mem_map.mp hmem
      cases heq
    · by_cases hroom : estimateTokens (edgeLine false text) ≤
          systemPromptBudget - sizeOfComponent b.prompt
      · obtain ⟨cut, hcut, _, hmarker⟩ := place_of_cut .signature hlarge hroom
        obtain ⟨kept, rfl⟩ := hmarker rfl
        obtain ⟨sessionUrl, _, rfl⟩ := Option.map_eq_some_iff.mp hsignature
        rw [hcut, List.mem_singleton] at hmem
        exact signatureInstruction_ne_cut sessionUrl kept (congrArg Prod.snd hmem)
      · rw [place_of_lost _ (Nat.not_le.mp hroom)] at hmem
        cases hmem
  · rw [highParts_of_large (Nat.not_le.mp hprompt)]
    intro hmem
    cases label_eq_of_mem_place hmem

end High

/-! ### When the priority is kept -/

section Priority

variable {b : SdkOptionsBuilder}

/-- Within the budget nothing is lost. -/
theorem priorityKept_of_fits (h : totalTokens b.components ≤ systemPromptBudget) :
    PriorityKept b := by
  have hparts : finalParts b.components = b.components := if_pos h
  constructor
  · intro text htext
    rw [hparts, SdkOptionsBuilder.components, Option.mem_def.mp htext]
    simp
  · intro text htext _
    rw [hparts, SdkOptionsBuilder.components, Option.mem_def.mp htext]
    simp
  · intro text htext _
    rw [hparts, SdkOptionsBuilder.components, Option.mem_def.mp htext]
    simp

theorem roomByPriority_of_fits (h : totalTokens b.components ≤ systemPromptBudget) :
    RoomByPriority b := by
  rw [totalTokens_components] at h
  constructor
  · right
    omega
  · left
    apply not_lost_of_room
    omega
  · left
    apply not_lost_of_room
    unfold lowBudget
    omega

variable (hlarge : systemPromptBudget < totalTokens b.components)

include hlarge

/-- With the prompt and the signature in full, only the history can be lost. -/
theorem priorityKept_of_room (hprompt : sizeOfComponent b.prompt ≤ systemPromptBudget)
    (h : RoomByPriority b) : PriorityKept b := by
  have hhigh := highParts_of_room hprompt h.signature
  constructor
  · intro text htext
    rw [mem_finalParts_high hlarge (.inr rfl), hhigh, Option.mem_def.mp htext]
    simp
  · intro text htext _
    rw [mem_finalParts_high hlarge (.inl rfl), hhigh, Option.mem_def.mp htext]
    simp
  · intro text htext hpart
    rw [hasPart_structural_iff hlarge, historyParts, hhigh, Option.mem_def.mp htext] at hpart
    rw [mem_finalParts_history hlarge, historyParts, hhigh, Option.mem_def.mp htext]
    by_cases hfull : estimateTokens text ≤ lowBudget b
    · rw [place_of_room _ _ hfull]
      exact List.mem_singleton_self _
    · rcases place_of_large .threadHistory true (Nat.not_le.mp hfull) with hzero | hlost
      · rw [hzero] at hpart
        exact absurd hpart not_hasRoom_zero
      · rw [place_of_not_hasRoom _ (not_hasRoom_of_lost hlost)] at hpart
        rw [← Option.mem_def.mp htext] at hlost
        exact absurd hpart (h.history.resolve_left (not_not_intro hlost))

/-- With the prompt cut, nothing else stands in the result. -/
theorem priorityKept_of_cut (hprompt : systemPromptBudget < sizeOfComponent b.prompt)
    (h : RoomByPriority b) : PriorityKept b := by
  have hsignature : b.signature = none := by
    rcases h.signature with hnone | hfits
    · exact hnone
    · omega
  have hempty : ¬ HasRoom true b.history (highParts b).2 ∧
      ¬ HasRoom false b.structural (highParts b).2 := by
    rw [highParts_of_large hprompt]
    cases hb : b.prompt with
    | none =>
      rw [hb] at hprompt
      exact absurd hprompt (Nat.not_lt_zero _)
    | some text =>
      rw [hb] at hprompt
      rcases place_of_large .prompt false hprompt with hzero | hlost
      · rw [hzero]
        exact ⟨not_hasRoom_zero, not_hasRoom_zero⟩
      · rw [place_of_not_hasRoom _ (not_hasRoom_of_lost hlost)]
        rw [← hb] at hlost
        exact h.prompt.resolve_left (not_not_intro hlost)
  have hhistory := hempty.1
  have hstructural : ¬ HasRoom false b.structural (historyParts b).2 := by
    rw [historyParts, place_of_not_hasRoom _ hempty.1]
    exact hempty.2
  rw [← hasPart_history_iff hlarge] at hhistory
  rw [← hasPart_structural_iff hlarge] at hstructural
  constructor
  · intro text htext
    rw [hsignature] at htext
    cases htext
  · intro text _ hpart
    exact absurd hpart (not_or.mpr ⟨hhistory, hstructural⟩)
  · intro text _ hpart
    exact absurd hpart hstructural

/-- A lost prompt lets nothing in behind it. -/
theorem room_prompt_of_priorityKept (h : PriorityKept b) :
    ¬ Lost false b.prompt systemPromptBudget ∨ ¬ HasRoom true b.history systemPromptBudget ∧
      ¬ HasRoom false b.structural systemPromptBudget := by
  by_cases hlost : Lost false b.prompt systemPromptBudget
  · right
    have hprompt : systemPromptBudget < sizeOfComponent b.prompt := by
      by_contra hroom
      exact not_lost_of_room (Nat.not_lt.mp hroom) hlost
    have hhigh : highParts b = ([], systemPromptBudget) := by
      rw [highParts_of_large hprompt, place_of_not_hasRoom _ (not_hasRoom_of_lost hlost)]
    obtain ⟨text, htext, _⟩ := hlost
    have hnone : ¬ (HasPart .threadHistory (finalParts b.components) ∨
        HasPart .structural (finalParts b.components)) := by
      intro hpart
      have hmem := h.prompt text htext hpart
      rw [mem_finalParts_high hlarge (.inl rfl), hhigh] at hmem
      cases hmem
    rw [not_or, hasPart_history_iff hlarge, hasPart_structural_iff hlarge, historyParts,
      hhigh] at hnone
    refine ⟨hnone.1, ?_⟩
    rw [place_of_not_hasRoom _ hnone.1] at hnone
    exact hnone.2
  · exact .inl hlost

/-- A lost history lets no structural context in. -/
theorem room_history_of_priorityKept (hsignature : b.signature = none ∨
      sizeOfComponent b.prompt + sizeOfComponent b.signature ≤ systemPromptBudget)
    (h : PriorityKept b) :
    ¬ Lost true b.history (lowBudget b) ∨ ¬ HasRoom false b.structural (lowBudget b) := by
  by_cases hlost : Lost true b.history (lowBudget b)
  · right
    intro hroom
    have hprompt : sizeOfComponent b.prompt ≤ systemPromptBudget := by
      by_contra hover
      have hzero : lowBudget b = 0 := by
        unfold lowBudget
        omega
      rw [hzero] at hroom
      exact not_hasRoom_zero hroom
    have hhistory : historyParts b = ([], lowBudget b) := by
      rw [historyParts, highParts_of_room hprompt hsignature,
        place_of_not_hasRoom _ (not_hasRoom_of_lost hlost)]
    obtain ⟨text, htext, _⟩ := hlost
    have hpart : HasPart .structural (finalParts b.components) := by
      rw [hasPart_structural_iff hlarge, hhistory]
      exact hroom
    have hmem := h.history text htext hpart
    rw [mem_finalParts_history hlarge, hhistory] at hmem
    cases hmem
  · exact .inl hlost

theorem roomByPriority_of_priorityKept (h : PriorityKept b) : RoomByPriority b := by
  have hsignature : b.signature = none ∨
      sizeOfComponent b.prompt + sizeOfComponent b.signature ≤ systemPromptBudget := by
    cases hb : b.signature with
    | none => exact .inl rfl
    | some text =>
      right
      by_contra hover
      have hmem := (mem_finalParts_high hlarge (.inr rfl)).mp (h.signature text hb)
      exact signature_notMem hb (Nat.not_le.mp hover) hmem
  exact ⟨hsignature, room_prompt_of_priorityKept hlarge h,
    room_history_of_priorityKept hlarge hsignature h⟩

end Priority

/-- The priority is kept exactly when there is room by priority. -/
theorem priorityKept_iff (b : SdkOptionsBuilder) : PriorityKept b ↔ RoomByPriority b := by
  by_cases hfits : totalTokens b.components ≤ systemPromptBudget
  · exact iff_of_true (priorityKept_of_fits hfits) (roomByPriority_of_fits hfits)
  · have hlarge := Nat.not_le.mp hfits
    constructor
    · exact roomByPriority_of_priorityKept hlarge
    · intro h
      by_cases hprompt : sizeOfComponent b.prompt ≤ systemPromptBudget
      · exact priorityKept_of_room hlarge hprompt h
      · exact priorityKept_of_cut hlarge (Nat.not_le.mp hprompt) h

/-- A signature that does not fit behind the prompt is not complete. -/
theorem not_priorityKept_of_signature {b : SdkOptionsBuilder} {text : Text}
    (hsignature : b.signature = some text)
    (h : systemPromptBudget < sizeOfComponent b.prompt + estimateTokens text) :
    ¬ PriorityKept b := by
  intro hkept
  have hlarge : systemPromptBudget < totalTokens b.components := by
    rw [totalTokens_components, hsignature]
    exact Nat.lt_of_lt_of_le h (Nat.add_le_add_right (Nat.le_add_left _ _) _)
  have hmem := (mem_finalParts_high hlarge (.inr rfl)).mp (hkept.signature text hsignature)
  exact signature_notMem hsignature h hmem

/-- A line of words. -/
def wordLine : Nat → Text
  | 0 => ['a']
  | n + 1 => ['a'] ++ ' ' :: wordLine n

theorem wordCount_wordLine (n : Nat) : wordCount isSpace (wordLine n) = n + 1 := by
  induction n with
  | zero => rfl
  | succ n ih =>
    rw [wordLine, wordCount, words_append_cons _ _ (by decide), List.length_append, ← wordCount,
      ← wordCount, ih, Nat.add_comm]
    rfl

theorem sizeOfComponent_filled (text : Text) (h : 0 < wordCount isSpace text) :
    sizeOfComponent (filled (some text)) = estimateTokens text := by
  have hwords : words isSpace (strip text) = words isSpace text := words_strip text
  cases hfilled : filled (some text) with
  | none =>
    have hnil : strip text = [] := filled_eq_none.mp hfilled
    rw [hnil, words_nil] at hwords
    rw [wordCount, ← hwords] at h
    exact absurd h (Nat.lt_irrefl 0)
  | some t =>
    have ht : strip text = t := (filled_eq_some.mp hfilled).1
    show estimateTokens t = estimateTokens text
    rw [← ht, estimateTokens, wordCount, hwords]
    rfl

/-- A prompt that uses up the budget, with a signature. -/
def fullPrompt : SdkOptionsBuilder where
  systemPrompt := some (wordLine 9230)
  sessionSignature := some "http://localhost:10001/session/acme/app/pull/7/review-pr".toList

/-- The full prompt is sent without the signature. -/
theorem not_priorityKept : ¬ ∀ b : SdkOptionsBuilder, PriorityKept b := by
  intro h
  refine not_priorityKept_of_signature (b := fullPrompt) rfl ?_ (h fullPrompt)
  have hprompt : sizeOfComponent fullPrompt.prompt = systemPromptBudget := by
    have hcount := wordCount_wordLine 9230
    refine (sizeOfComponent_filled (wordLine 9230) (by omega)).trans ?_
    rw [estimateTokens, hcount]
    rfl
  rw [hprompt]
  exact Nat.lt_add_of_pos_right (tokens_pos _)

/-! ### The budget -/

/-- The result is within the budget. -/
def WithinBudget (b : SdkOptionsBuilder) : Prop :=
  ∀ text ∈ assembleSystemPrompt b, estimateTokens text ≤ systemPromptBudget

/-- What becomes of a component that is offered some room. -/
inductive Fate where
  | whole
  | cut
  | lost
  deriving DecidableEq

/-- A component stands whole, or is cut, or lost when the line at its edge is too large. -/
def fate (fromTop : Bool) (text : Text) (remaining : Nat) : Fate :=
  if estimateTokens text ≤ remaining then .whole
  else if estimateTokens (edgeLine fromTop text) ≤ remaining then .cut
  else .lost

/-- What the budget is charged for a text that goes in, and what it is not charged for: the tenths
that the estimate drops and the words of the marker. -/
structure Charge where
  size : Nat
  tenths : Nat
  marker : Nat

namespace Charge

instance : Zero Charge := ⟨⟨0, 0, 0⟩⟩

instance : Add Charge := ⟨fun c d ↦ ⟨c.size + d.size, c.tenths + d.tenths, c.marker + d.marker⟩⟩

/-- The charge for words with a marker. -/
def ofWords (words marker : Nat) : Charge := ⟨words * 13 / 10, words * 13 % 10, marker⟩

/-- What it comes to, in tenths. -/
def cost (c : Charge) : Nat := 10 * c.size + c.tenths + 13 * c.marker

/-- What goes in without being charged. -/
def overhead (c : Charge) : Nat := (c.tenths + 13 * c.marker) / 10

@[simp]
theorem cost_zero : (0 : Charge).cost = 0 := rfl

@[simp]
theorem cost_add (c d : Charge) : (c + d).cost = c.cost + d.cost := by
  show 10 * (c.size + d.size) + (c.tenths + d.tenths) + 13 * (c.marker + d.marker) = _
  unfold cost
  omega

@[simp]
theorem cost_ofWords (words marker : Nat) :
    (ofWords words marker).cost = 13 * (words + marker) := by
  show 10 * (words * 13 / 10) + words * 13 % 10 + 13 * marker = 13 * (words + marker)
  omega

theorem cost_div (c : Charge) : c.cost / 10 = c.size + c.overhead := by
  unfold cost overhead
  omega

end Charge

/-- The charge for a component that is offered some room. -/
def charge (fromTop : Bool) (component : Option Text) (remaining : Nat) : Charge :=
  component.elim 0 fun text ↦
    match fate fromTop text remaining with
    | .whole => .ofWords (wordCount isSpace text) 0
    | .cut => .ofWords (keptWords fromTop text remaining) (markerWords fromTop)
    | .lost => 0

/-- The charge for a component that goes in as it is. -/
def wholeCharge (component : Option Text) : Charge :=
  component.elim 0 fun text ↦ .ofWords (wordCount isSpace text) 0

/-- The room that a component leaves. -/
def leftRoom (fromTop : Bool) (component : Option Text) (remaining : Nat) : Nat :=
  component.elim remaining fun text ↦
    match fate fromTop text remaining with
    | .whole => remaining - estimateTokens text
    | .cut => 0
    | .lost => remaining

/-- The charge for the history and the structural context. -/
def lowCharge (b : SdkOptionsBuilder) (remaining : Nat) : Charge :=
  charge true b.history remaining + charge false b.structural (leftRoom true b.history remaining)

/-- The charge for all the components: as they are when their sizes add up to no more than the
budget, else one after the other, the signature only behind a whole prompt. -/
def totalCharge (b : SdkOptionsBuilder) : Charge :=
  if totalTokens b.components ≤ systemPromptBudget then
    wholeCharge b.structural + wholeCharge b.history + wholeCharge b.prompt +
      wholeCharge b.signature
  else if sizeOfComponent b.prompt ≤ systemPromptBudget then
    let remaining := systemPromptBudget - sizeOfComponent b.prompt
    wholeCharge b.prompt + charge false b.signature remaining +
      lowCharge b (leftRoom false b.signature remaining)
  else
    charge false b.prompt systemPromptBudget +
      lowCharge b (leftRoom false b.prompt systemPromptBudget)

/-- What goes in without being charged fits into what the charge leaves of the budget. -/
def OverheadFits (b : SdkOptionsBuilder) : Prop :=
  (totalCharge b).overhead ≤ systemPromptBudget - (totalCharge b).size

/-! ### The charge for the parts -/

/-- The words of parts. -/
def partWords (parts : List (Label × Text)) : Nat :=
  (parts.map fun part ↦ wordCount isSpace part.2).sum

theorem partWords_append (parts more : List (Label × Text)) :
    partWords (parts ++ more) = partWords parts + partWords more := by
  simp [partWords]

theorem cost_wholeCharge (label : Label) (component : Option Text) :
    (wholeCharge component).cost = 13 * partWords (component.toList.map (label, ·)) := by
  cases component <;> simp [partWords, wholeCharge]

theorem place_charge (label : Label) (fromTop : Bool) (component : Option Text) (remaining : Nat) :
    (charge fromTop component remaining).cost =
        13 * partWords (place label fromTop component remaining).1 ∧
      leftRoom fromTop component remaining = (place label fromTop component remaining).2 := by
  cases component with
  | none => exact ⟨rfl, rfl⟩
  | some text =>
    unfold charge leftRoom fate
    simp only [Option.elim_some]
    by_cases hroom : estimateTokens text ≤ remaining
    · rw [place_of_room label fromTop hroom, if_pos hroom]
      exact ⟨by simp [partWords], rfl⟩
    · rw [if_neg hroom]
      by_cases hedge : estimateTokens (edgeLine fromTop text) ≤ remaining
      · obtain ⟨cut, hcut, hwords, _⟩ := place_of_cut label (Nat.not_le.mp hroom) hedge
        rw [hcut, if_pos hedge]
        exact ⟨by simp [partWords, hwords], rfl⟩
      · rw [place_of_lost label (Nat.not_le.mp hedge), if_neg hedge]
        exact ⟨rfl, rfl⟩

/-- The history and the structural context behind the parts of the first pass. -/
theorem cost_low (b : SdkOptionsBuilder) (high : List (Label × Text) × Nat) :
    13 * partWords (high.1 ++ (place .threadHistory true b.history high.2).1 ++
        (place .structural false b.structural (place .threadHistory true b.history high.2).2).1) =
      13 * partWords high.1 + (lowCharge b high.2).cost := by
  unfold lowCharge
  rw [Charge.cost_add, (place_charge .threadHistory _ _ _).1, (place_charge .structural _ _ _).1,
    (place_charge .threadHistory _ _ _).2, partWords_append, partWords_append]
  omega

/-- The charge comes to the words of the parts. -/
theorem cost_totalCharge (b : SdkOptionsBuilder) :
    (totalCharge b).cost = 13 * partWords (finalParts b.components) := by
  unfold totalCharge
  split
  · next hfits =>
    rw [finalParts, if_pos hfits, SdkOptionsBuilder.components]
    simp only [Charge.cost_add, partWords_append, Nat.mul_add,
      cost_wholeCharge .structural b.structural, cost_wholeCharge .threadHistory b.history, cost_wholeCharge .prompt b.prompt,
      cost_wholeCharge .signature b.signature]
  · next hlarge =>
    rw [finalParts_of_large b (Nat.not_le.mp hlarge), highPass_components]
    simp only [cost_low]
    split
    · simp only [Charge.cost_add, partWords_append, Nat.mul_add, cost_wholeCharge .prompt b.prompt,
        (place_charge .signature _ _ _).1, (place_charge .signature _ _ _).2]
    · simp only [Charge.cost_add, (place_charge .prompt _ _ _).1, (place_charge .prompt _ _ _).2]

/-- The size of the result is that of its words. -/
theorem withinBudget_iff_partWords (b : SdkOptionsBuilder) :
    WithinBudget b ↔ tokens (partWords (finalParts b.components)) ≤ systemPromptBudget := by
  unfold WithinBudget assembleSystemPrompt
  cases hparts : finalParts b.components with
  | nil => exact iff_of_true (by simp) (by decide)
  | cons part parts =>
    have hwords : wordCount isSpace (joinParts ((part :: parts).map Prod.snd)) =
        partWords (part :: parts) := by
      rw [wordCount_joinParts, List.map_map]
      rfl
    simp only [Option.mem_some, forall_eq', estimateTokens, hwords]

/-! ### The charge is within the budget -/

theorem size_wholeCharge_le (component : Option Text) :
    (wholeCharge component).size ≤ sizeOfComponent component := by
  cases component with
  | none => exact Nat.le_refl 0
  | some text => exact Nat.le_max_right _ _

/-- A component is charged no more than the room that it takes. -/
theorem size_charge_le (fromTop : Bool) (component : Option Text) (remaining : Nat) :
    (charge fromTop component remaining).size + leftRoom fromTop component remaining ≤
      remaining := by
  cases component with
  | none => exact Nat.le_of_eq (Nat.zero_add _)
  | some text =>
    unfold charge leftRoom fate
    simp only [Option.elim_some]
    by_cases hroom : estimateTokens text ≤ remaining
    · rw [if_pos hroom]
      have hsize : (Charge.ofWords (wordCount isSpace text) 0).size ≤ estimateTokens text :=
        Nat.le_max_right _ _
      show (Charge.ofWords (wordCount isSpace text) 0).size + (remaining - estimateTokens text) ≤
        remaining
      omega
    · rw [if_neg hroom]
      by_cases hedge : estimateTokens (edgeLine fromTop text) ≤ remaining
      · rw [if_pos hedge]
        exact (Nat.le_max_right _ _).trans (tokens_keptWords hedge)
      · rw [if_neg hedge]
        exact Nat.le_of_eq (Nat.zero_add _)

theorem size_add (c d : Charge) : (c + d).size = c.size + d.size := rfl

theorem size_lowCharge_le (b : SdkOptionsBuilder) (remaining : Nat) :
    (lowCharge b remaining).size ≤ remaining := by
  have hhistory := size_charge_le true b.history remaining
  have hstructural := size_charge_le false b.structural (leftRoom true b.history remaining)
  rw [lowCharge, size_add]
  omega

/-- What is charged is within the budget. -/
theorem size_totalCharge_le (b : SdkOptionsBuilder) :
    (totalCharge b).size ≤ systemPromptBudget := by
  have hwhole := size_wholeCharge_le b.prompt
  unfold totalCharge
  split
  · next hfits =>
    have hstructural := size_wholeCharge_le b.structural
    have hhistory := size_wholeCharge_le b.history
    have hsignature := size_wholeCharge_le b.signature
    rw [totalTokens_components] at hfits
    simp only [size_add]
    omega
  · split
    · have hsignature := size_charge_le false b.signature
        (systemPromptBudget - sizeOfComponent b.prompt)
      have hlow := size_lowCharge_le b
        (leftRoom false b.signature (systemPromptBudget - sizeOfComponent b.prompt))
      simp only [size_add]
      omega
    · have hprompt := size_charge_le false b.prompt systemPromptBudget
      have hlow := size_lowCharge_le b (leftRoom false b.prompt systemPromptBudget)
      simp only [size_add]
      omega

theorem withinBudget_iff_cost (b : SdkOptionsBuilder) :
    WithinBudget b ↔ (totalCharge b).cost / 10 ≤ systemPromptBudget := by
  have hbudget : 1 ≤ systemPromptBudget := by decide
  rw [withinBudget_iff_partWords, cost_totalCharge, tokens]
  omega

/-- The result is within the budget exactly when what goes in without being charged fits into what
the charge leaves. -/
theorem withinBudget_iff (b : SdkOptionsBuilder) : WithinBudget b ↔ OverheadFits b := by
  have hsize := size_totalCharge_le b
  rw [withinBudget_iff_cost, Charge.cost_div]
  unfold OverheadFits
  omega

theorem trimmed_wordLine (n : Nat) : Trimmed (wordLine n) := by
  have hhead : (wordLine n).head? = some 'a' := by cases n <;> rfl
  have hlast : (wordLine n).getLast? = some 'a' := by
    induction n with
    | zero => rfl
    | succ n ih =>
      have hne : wordLine n ≠ [] := by cases n <;> simp [wordLine]
      rw [wordLine, List.append_cons, List.getLast?_append_of_ne_nil _ hne, ih (by cases n <;> rfl)]
  exact ⟨by rw [hhead]; rintro _ ⟨⟩; rfl, by rw [hlast]; rintro _ ⟨⟩; rfl⟩

theorem newline_notMem_wordLine (n : Nat) : '\n' ∉ wordLine n := by
  induction n with
  | zero => decide
  | succ n ih => simpa [wordLine] using ih

/-- Two lines, of which the first almost uses up the budget. -/
def longText : Text := wordLine 9229 ++ '\n' :: wordLine 9

theorem estimateTokens_longText : estimateTokens longText = 12012 := by
  rw [estimateTokens, wordCount, longText, words_append_cons _ _ (by decide), List.length_append,
    ← wordCount, ← wordCount, wordCount_wordLine, wordCount_wordLine]
  rfl

theorem splitOn_longText : longText.splitOn '\n' = [wordLine 9229, wordLine 9] := by
  rw [List.splitOn_eq_splitOnP, longText, List.splitOnP_append_cons _ _ (by decide),
    List.splitOnP_eq_singleton, List.splitOnP_eq_singleton]
  · rfl
  · intro c hc
    rw [beq_eq_false_iff_ne]
    exact fun heq ↦ newline_notMem_wordLine 9 (heq ▸ hc)
  · intro c hc
    rw [beq_eq_false_iff_ne]
    exact fun heq ↦ newline_notMem_wordLine 9229 (heq ▸ hc)

theorem filled_longText : filled (some longText) = some longText := by
  have hne : ∀ n, wordLine n ≠ [] := by
    intro n
    cases n <;> simp [wordLine]
  have htrim : Trimmed longText := by
    constructor
    · rw [longText, List.head?_append_of_ne_nil _ (hne 9229)]
      exact (trimmed_wordLine 9229).head
    · rw [longText, List.append_cons, List.getLast?_append_of_ne_nil _ (hne 9)]
      exact (trimmed_wordLine 9).last
  exact filled_eq_some.mpr ⟨strip_of_trimmed htrim, by simp [longText]⟩

/-- The first line stays. -/
theorem charge_longText :
    charge false (some longText) systemPromptBudget = .ofWords 9230 2 := by
  have hlarge : ¬ estimateTokens longText ≤ systemPromptBudget := by
    rw [estimateTokens_longText]
    decide
  have hedge : estimateTokens (edgeLine false longText) ≤ systemPromptBudget := by
    rw [edgeLine, if_neg (by simp), splitOn_longText, List.headD_cons, estimateTokens,
      wordCount_wordLine]
    decide
  have hkept : keptWords false longText systemPromptBudget = 9230 := by
    rw [keptWords, splitOn_longText, List.map_cons, List.map_singleton, wordCount_wordLine,
      wordCount_wordLine]
    decide
  unfold charge fate
  rw [Option.elim_some, if_neg hlarge, if_pos hedge, hkept]
  rfl

/-- A prompt of two lines. -/
def twoLines : SdkOptionsBuilder where
  systemPrompt := some longText

theorem size_twoLines : sizeOfComponent twoLines.prompt = 12012 := by
  have hprompt : twoLines.prompt = some longText := filled_longText
  rw [hprompt, sizeOfComponent_some, estimateTokens_longText]

theorem totalTokens_twoLines : totalTokens twoLines.components = 12012 := by
  rw [totalTokens_components, size_twoLines]
  rfl

theorem totalCharge_twoLines : totalCharge twoLines = .ofWords 9230 2 := by
  have hprompt : twoLines.prompt = some longText := filled_longText
  have hlow : ∀ remaining, lowCharge twoLines remaining = 0 := fun _ ↦ rfl
  rw [totalCharge, totalTokens_twoLines, size_twoLines, if_neg (by decide), if_neg (by decide),
    hprompt, charge_longText, hlow]
  rfl

/-- The marker behind the first line is over the budget. -/
theorem not_withinBudget : ¬ ∀ b : SdkOptionsBuilder, WithinBudget b := by
  intro h
  have hwithin := (withinBudget_iff_cost twoLines).mp (h twoLines)
  rw [totalCharge_twoLines, Charge.cost_ofWords] at hwithin
  exact absurd hwithin (by decide)

end GithubAgent.Executor
