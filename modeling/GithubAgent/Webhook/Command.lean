import GithubAgent.Webhook.Handler
import Mathlib.Data.List.DropRight

/-!
# Commands in comments

What the webhook makes of a comment that starts with a command: the command, and the first line of
what follows it.
-/

namespace GithubAgent.Webhook

theorem isSpace_eq_false_of_isNameChar {c : Char} (h : (isNameChar c || c == '-') = true) :
    isSpace c = false := by
  have hcode : (97 ≤ c.toNat ∧ c.toNat ≤ 122) ∨ (48 ≤ c.toNat ∧ c.toNat ≤ 57) ∨
      c.toNat = 45 := by
    simp only [isNameChar, Bool.or_eq_true, Bool.and_eq_true, decide_eq_true_eq,
      beq_iff_eq] at h
    obtain ⟨hlow, hhigh⟩ | ⟨hlow, hhigh⟩ | rfl := or_assoc.mp h
    · exact .inl ⟨hlow, hhigh⟩
    · exact .inr (.inl ⟨hlow, hhigh⟩)
    · exact .inr (.inr rfl)
  simp only [isSpace, Bool.or_eq_false_iff, decide_eq_false_iff_not, Bool.and_eq_false_iff,
    List.mem_cons, List.not_mem_nil, or_false]
  omega

/-- No character of a command is whitespace. -/
theorem exists_of_isCommand {command : String} (h : isCommand command = true) :
    ∃ word, command.toList = '/' :: word ∧ word ≠ [] ∧ ∀ c ∈ word, isSpace c = false := by
  unfold isCommand at h
  split at h
  · next word hword =>
    obtain ⟨hne, hall⟩ := (Bool.and_eq_true ..).mp h
    refine ⟨word, hword, ?_, ?_⟩
    · intro hnil
      rw [hnil] at hne
      cases hne
    · intro c hc
      exact isSpace_eq_false_of_isNameChar (List.all_eq_true.mp hall c hc)
  · cases h

/-! ### Stripping -/

theorem strip_eq (text : List Char) : strip text = (text.dropWhile isSpace).rdropWhile isSpace :=
  rfl

/-- Stripping the end stops at the last character that is not whitespace. -/
theorem stripEnd_append {c : Char} (text rest : List Char) (h : isSpace c = false) :
    (text ++ c :: rest).rdropWhile isSpace = text ++ c :: rest.rdropWhile isSpace := by
  rw [List.rdropWhile, List.rdropWhile, List.reverse_append, List.reverse_cons, List.append_assoc,
    List.dropWhile_append]
  split
  · next hnil =>
    rw [List.isEmpty_iff.mp hnil]
    simp [h]
  · simp

/-- Stripping keeps a first character that is not whitespace. -/
theorem strip_cons {c : Char} (rest : List Char) (h : isSpace c = false) :
    strip (c :: rest) = c :: rest.rdropWhile isSpace := by
  have hstart : (c :: rest).dropWhile isSpace = c :: rest := by simp [h]
  rw [strip_eq, hstart]
  exact stripEnd_append [] rest h

/-- The end can be stripped first. -/
theorem strip_eq_dropWhile (text : List Char) :
    strip text = (text.rdropWhile isSpace).dropWhile isSpace := by
  rw [strip_eq]
  induction text with
  | nil => rfl
  | cons c rest ih =>
    cases hc : isSpace c with
    | false =>
      have hstart : (c :: rest).dropWhile isSpace = c :: rest := by simp [hc]
      have hend : (c :: rest).rdropWhile isSpace = c :: rest.rdropWhile isSpace :=
        stripEnd_append [] rest hc
      rw [hstart, hend]
      simp [hc]
    | true =>
      rw [List.dropWhile_cons_of_pos hc, ih]
      by_cases hall : ∀ d ∈ rest, isSpace d = true
      · have hnil : rest.rdropWhile isSpace = [] := List.rdropWhile_eq_nil_iff.mpr hall
        have hnil' : (c :: rest).rdropWhile isSpace = [] :=
          List.rdropWhile_eq_nil_iff.mpr (List.forall_mem_cons.mpr ⟨hc, hall⟩)
        rw [hnil, hnil']
      · push Not at hall
        obtain ⟨d, hd, hne⟩ := hall
        obtain ⟨before, after, rfl⟩ := List.append_of_mem hd
        have hnot : isSpace d = false := by simpa using hne
        have hcons : c :: (before ++ d :: after) = (c :: before) ++ d :: after := rfl
        rw [hcons, stripEnd_append _ _ hnot, stripEnd_append _ _ hnot, List.cons_append,
          List.dropWhile_cons_of_pos hc]

/-- Stripped text stays as it is. -/
theorem strip_strip (text : List Char) : strip (strip text) = strip text := by
  have hend : (strip text).rdropWhile isSpace = strip text := List.rdropWhile_idempotent _ _
  rw [strip_eq_dropWhile (strip text), hend, strip_eq_dropWhile]
  exact List.dropWhile_idempotent _ _

/-- Stripping takes a part of the text. -/
theorem strip_within (text : List Char) : strip text <:+: text := by
  rw [strip_eq]
  exact (List.rdropWhile_prefix _ _).isInfix.trans (List.dropWhile_suffix _).isInfix

/-- A text without whitespace at its ends. -/
structure Trimmed (text : List Char) : Prop where
  head : ∀ c ∈ text.head?, isSpace c = false
  last : ∀ c ∈ text.getLast?, isSpace c = false

theorem trimmed_strip (text : List Char) : Trimmed (strip text) := by
  constructor
  · intro c hc
    have hnot := List.head?_dropWhile_not isSpace (text.rdropWhile isSpace)
    rw [← strip_eq_dropWhile, Option.mem_def.mp hc] at hnot
    exact hnot
  · intro c hc
    have hne : (text.dropWhile isSpace).rdropWhile isSpace ≠ [] := by
      intro hnil
      rw [strip_eq, hnil] at hc
      cases hc
    have hlast := List.rdropWhile_last_not isSpace (text.dropWhile isSpace) hne
    rw [strip_eq, List.getLast?_eq_some_getLast hne, Option.mem_some] at hc
    rw [hc] at hlast
    simpa using hlast

theorem infix_dropWhile {part text : List Char} (h : part <:+: text)
    (hhead : ∀ c ∈ part.head?, isSpace c = false) : part <:+: text.dropWhile isSpace := by
  obtain ⟨before, after, rfl⟩ := h
  induction before with
  | nil =>
    cases part with
    | nil => exact List.nil_infix
    | cons c part =>
      rw [List.nil_append, List.cons_append, List.dropWhile_cons_of_neg (by simp [hhead c rfl])]
      exact (List.prefix_append (c :: part) after).isInfix
  | cons b before ih =>
    rw [List.cons_append, List.cons_append, List.dropWhile_cons]
    split
    · exact ih
    · exact ⟨b :: before, after, rfl⟩

/-- Stripping a text keeps a part of it that has no whitespace at its ends. -/
theorem infix_strip {part text : List Char} (h : part <:+: text) (htrim : Trimmed part) :
    part <:+: strip text := by
  have hstart : part <:+: text.dropWhile isSpace := infix_dropWhile h htrim.head
  have hend : part.reverse <:+: (text.dropWhile isSpace).reverse.dropWhile isSpace := by
    refine infix_dropWhile (List.reverse_infix.mpr hstart) ?_
    rw [List.head?_reverse]
    exact htrim.last
  rw [strip, ← List.reverse_infix, List.reverse_reverse]
  exact hend

/-- A text without whitespace at its ends is stripped. -/
theorem strip_of_trimmed {text : List Char} (h : Trimmed text) : strip text = text :=
  (strip_within text).eq_of_length_le (infix_strip List.infix_rfl h).length_le

/-! ### The query -/

/-- A command with what follows it. -/
theorem parseCommand_eq {word text : List Char} (hword : word ≠ [])
    (hletters : ∀ x ∈ word, isSpace x = false) (htext : ∀ c ∈ text.head?, isSpace c = true) :
    parseCommand (String.ofList ('/' :: (word ++ text))) =
      some (String.ofList ('/' :: word),
        String.ofList (strip ((strip text).takeWhile (· ≠ '\n')))) := by
  have hslash : isSpace '/' = false := by decide
  have hnot : ∀ x ∈ word, (!isSpace x) = true := by
    intro x hx
    rw [hletters x hx]
    rfl
  have hbody : strip ('/' :: (word ++ text)) = '/' :: (word ++ text.rdropWhile isSpace) := by
    obtain ⟨letters, c, rfl⟩ := (List.eq_nil_or_concat word).resolve_left hword
    rw [strip_cons _ hslash, List.concat_append, List.concat_append,
      stripEnd_append _ _ (hletters c (by simp))]
  have hhead : ∀ c ∈ (text.rdropWhile isSpace).head?, isSpace c = true := by
    intro c hc
    obtain ⟨rest, hrest⟩ := List.head?_eq_some_iff.mp hc
    obtain ⟨gone, hgone⟩ := List.rdropWhile_prefix isSpace (l := text)
    apply htext c
    rw [← hgone, hrest]
    rfl
  have hcommand : (word ++ text.rdropWhile isSpace).takeWhile (!isSpace ·) = word := by
    rw [List.takeWhile_append_of_pos hnot]
    cases hafter : text.rdropWhile isSpace with
    | nil => simp
    | cons c rest => simp [hhead c (by rw [hafter]; rfl)]
  have hafter : (word ++ text.rdropWhile isSpace).dropWhile (!isSpace ·) =
      text.rdropWhile isSpace := by
    rw [List.dropWhile_append_of_pos hnot]
    cases hafter : text.rdropWhile isSpace with
    | nil => rfl
    | cons c rest => simp [hhead c (by rw [hafter]; rfl)]
  simp only [parseCommand, String.toList_ofList, hbody, hcommand, hafter, if_neg hword,
    ← strip_eq_dropWhile]

/-- The query is the text exactly when the text is one line. -/
theorem query_eq_iff (text : List Char) :
    strip ((strip text).takeWhile (· ≠ '\n')) = strip text ↔ '\n' ∉ strip text := by
  constructor
  · intro h hmem
    have hline : '\n' ∉ (strip text).takeWhile (· ≠ '\n') := by
      intro hmem
      have hne := List.mem_takeWhile_imp hmem
      simp at hne
    rw [← h] at hmem
    exact hline ((strip_within _).subset hmem)
  · intro h
    have hall : (strip text).takeWhile (· ≠ '\n') = strip text := by
      refine List.takeWhile_eq_self_iff.mpr fun c hc ↦ ?_
      have hne : c ≠ '\n' := fun heq ↦ h (heq ▸ hc)
      simpa using hne
    rw [hall, strip_strip]

end GithubAgent.Webhook
