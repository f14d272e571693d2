import Mathlib.Data.List.Basic

/-!
# The lines of a text

`str.splitlines` breaks a text at more characters than the newline, and takes a carriage return with
the newline behind it for one break. What is behind the last break is a line if it is not empty. In
text mode every end of a line is read as a newline.
-/

namespace GithubAgent.Base

/-- The characters at which `str.splitlines` breaks. -/
def isLineBreak (c : Char) : Bool :=
  c.toNat ∈ [10, 11, 12, 13, 28, 29, 30, 133, 8232, 8233]

/-- The lines from within a line on; `skip` says that a carriage return stands in front. -/
def splitlinesFrom (skip : Bool) (line : List Char) : List Char → List (List Char)
  | [] => if line = [] then [] else [line]
  | c :: rest =>
    if skip = true ∧ c = '\n' then splitlinesFrom false line rest
    else if isLineBreak c then line :: splitlinesFrom (c = '\r') [] rest
    else splitlinesFrom false (line ++ [c]) rest

/-- `str.splitlines`. -/
def splitlines (text : List Char) : List (List Char) := splitlinesFrom false [] text

/-- Characters that are no break are added to the line. -/
theorem splitlinesFrom_append {l : List Char} (h : ∀ c ∈ l, isLineBreak c = false)
    (line rest : List Char) :
    splitlinesFrom false line (l ++ rest) = splitlinesFrom false (line ++ l) rest := by
  induction l generalizing line with
  | nil => rw [List.nil_append, List.append_nil]
  | cons c l ih =>
    have hc : isLineBreak c = false := h c List.mem_cons_self
    rw [List.cons_append, splitlinesFrom, if_neg (fun hskip ↦ Bool.false_ne_true hskip.1), hc,
      if_neg Bool.false_ne_true, ih fun d hd ↦ h d (List.mem_cons_of_mem c hd), List.append_assoc]
    rfl

/-- What is behind a newline is split on its own. -/
theorem splitlinesFrom_newline {skip : Bool} {line : List Char} (h : skip = true → line = [])
    (l rest : List Char) :
    splitlinesFrom skip line (l ++ '\n' :: rest) =
      splitlinesFrom skip line (l ++ ['\n']) ++ splitlines rest := by
  induction l generalizing skip line with
  | nil =>
    rw [List.nil_append, List.nil_append, splitlinesFrom, splitlinesFrom]
    cases skip with
    | true =>
      rw [h rfl]
      rfl
    | false => rfl
  | cons c l ih =>
    rw [List.cons_append, List.cons_append, splitlinesFrom, splitlinesFrom]
    split
    · exact ih (fun hskip ↦ by cases hskip)
    · split
      · rw [ih (fun _ ↦ rfl), List.cons_append]
      · exact ih (fun hskip ↦ by cases hskip)

/-- The lines of a text with a newline in it. -/
theorem splitlines_newline (l rest : List Char) :
    splitlines (l ++ '\n' :: rest) = splitlines (l ++ ['\n']) ++ splitlines rest :=
  splitlinesFrom_newline (fun h ↦ by cases h) l rest

/-- A text without breaks is one line. -/
theorem splitlines_singleton {l : List Char} (h : ∀ c ∈ l, isLineBreak c = false) :
    splitlines (l ++ ['\n']) = [l] := by
  rw [splitlines, splitlinesFrom_append h]
  rfl

/-- The line that is begun is continued. -/
theorem exists_splitlinesFrom_cons (line l : List Char) :
    ∃ more rest, splitlinesFrom false line (l ++ ['\n']) = (line ++ more) :: rest := by
  induction l generalizing line with
  | nil => exact ⟨[], [], by rw [List.append_nil]; rfl⟩
  | cons c l ih =>
    rw [List.cons_append, splitlinesFrom, if_neg (fun hskip ↦ Bool.false_ne_true hskip.1)]
    split
    · exact ⟨[], _, by rw [List.append_nil]⟩
    · obtain ⟨more, rest, hlines⟩ := ih (line ++ [c])
      exact ⟨c :: more, rest, by rw [hlines, List.append_assoc]; rfl⟩

/-- Where no other character breaks lines, the parts between newlines are the lines from within a
line on, and the part behind the last newline if it is empty. -/
theorem splitOn_append_eq {text : List Char} (h : ∀ c ∈ text, isLineBreak c = true → c = '\n') :
    ∀ {line : List Char}, '\n' ∉ line →
      (line ++ text).splitOn '\n' = splitlinesFrom false line text ∨
        (line ++ text).splitOn '\n' = splitlinesFrom false line text ++ [[]] := by
  induction text with
  | nil =>
    intro line hline
    rw [List.append_nil, List.splitOn_eq_singleton hline, splitlinesFrom]
    split
    · next hempty => exact Or.inr (by rw [hempty, List.nil_append])
    · exact Or.inl rfl
  | cons c text ih =>
    have hrest : ∀ d ∈ text, isLineBreak d = true → d = '\n' :=
      fun d hd ↦ h d (List.mem_cons_of_mem c hd)
    intro line hline
    rw [splitlinesFrom, if_neg (fun hskip ↦ Bool.false_ne_true hskip.1)]
    split
    · next hbreak =>
      obtain rfl : c = '\n' := h c List.mem_cons_self hbreak
      rw [List.splitOn_append_cons_self_of_not_mem hline]
      refine (ih hrest List.not_mem_nil).imp (fun heq ↦ ?_) (fun heq ↦ ?_)
      · exact congrArg (line :: ·) heq
      · exact congrArg (line :: ·) heq
    · next hother =>
      have hc : '\n' ∉ line ++ [c] := by
        intro hmem
        refine (List.mem_append.mp hmem).elim hline fun hmem ↦ hother ?_
        rw [← List.mem_singleton.mp hmem]
        rfl
      rw [List.append_cons]
      exact ih hrest hc

/-- Where no other character breaks lines, the parts between newlines are the lines, and the part
behind the last newline if it is empty. -/
theorem splitOn_newline_eq {text : List Char} (h : ∀ c ∈ text, isLineBreak c = true → c = '\n') :
    text.splitOn '\n' = splitlines text ∨ text.splitOn '\n' = splitlines text ++ [[]] :=
  splitOn_append_eq h List.not_mem_nil

/-! ### Text mode -/

/-- What the text mode makes of the ends of the lines of a file. -/
def universalNewlines : List Char → List Char
  | [] => []
  | '\r' :: '\n' :: rest => '\n' :: universalNewlines rest
  | '\r' :: rest => '\n' :: universalNewlines rest
  | c :: rest => c :: universalNewlines rest

theorem cr_notMem_universalNewlines (text : List Char) : '\r' ∉ universalNewlines text := by
  fun_induction universalNewlines text with
  | case1 => exact List.not_mem_nil
  | case2 rest ih => exact List.not_mem_cons_of_ne_of_not_mem (by decide) ih
  | case3 rest _ ih => exact List.not_mem_cons_of_ne_of_not_mem (by decide) ih
  | case4 c rest hcr hc ih => exact List.not_mem_cons_of_ne_of_not_mem (Ne.symm hc) ih

theorem universalNewlines_of_notMem {text : List Char} (h : '\r' ∉ text) :
    universalNewlines text = text := by
  fun_induction universalNewlines text with
  | case1 => rfl
  | case2 rest ih => exact absurd List.mem_cons_self h
  | case3 rest _ ih => exact absurd List.mem_cons_self h
  | case4 c rest hcr hc ih => rw [ih fun hmem ↦ h (List.mem_cons_of_mem _ hmem)]

end GithubAgent.Base
