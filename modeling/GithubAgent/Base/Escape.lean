import GithubAgent.Base.Format

/-!
# Braces in the values of a format string

Doubling the braces of a text is right for text that becomes part of a format string. A value is
inserted as it is, so a text with doubled braces stands there with its braces doubled, unless a
precision cuts it off in time.
-/

namespace GithubAgent.Base.Format

/-! ### Escaping -/

/-- `s.replace(b, b + b)`. -/
def double (b : Char) (s : List Char) : List Char :=
  s.flatMap fun c ↦ if c = b then [c, c] else [c]

/-- The text as it is written in a format string. -/
def escapeBraces (s : List Char) : List Char := double '\x7d' (double '\x7b' s)

/-- A brace. -/
def isBrace (c : Char) : Bool := c = '\x7b' || c = '\x7d'

@[simp]
theorem escapeBraces_nil : escapeBraces [] = [] := rfl

theorem escapeBraces_append (s t : List Char) :
    escapeBraces (s ++ t) = escapeBraces s ++ escapeBraces t := by
  simp [escapeBraces, double]

theorem escapeBraces_cons_of_pos {c : Char} (s : List Char) (h : isBrace c = true) :
    escapeBraces (c :: s) = c :: c :: escapeBraces s := by
  obtain rfl | rfl : c = '\x7b' ∨ c = '\x7d' := by simpa [isBrace] using h
  · rfl
  · rfl

theorem escapeBraces_cons_of_neg {c : Char} (s : List Char) (h : isBrace c = false) :
    escapeBraces (c :: s) = c :: escapeBraces s := by
  obtain ⟨hopen, hclose⟩ : c ≠ '\x7b' ∧ c ≠ '\x7d' := by simpa [isBrace] using h
  simp [escapeBraces, double, hopen, hclose]

/-- A text without braces is not changed. -/
theorem escapeBraces_eq_self {s : List Char} (h : ∀ c ∈ s, isBrace c = false) :
    escapeBraces s = s := by
  induction s with
  | nil => rfl
  | cons c s ih =>
    rw [escapeBraces_cons_of_neg s (h c List.mem_cons_self),
      ih fun d hd ↦ h d (List.mem_cons_of_mem c hd)]

@[simp]
theorem mem_escapeBraces {c : Char} {s : List Char} : c ∈ escapeBraces s ↔ c ∈ s := by
  induction s with
  | nil => rfl
  | cons d s ih =>
    cases hd : isBrace d with
    | true =>
      rw [escapeBraces_cons_of_pos s hd, List.mem_cons, List.mem_cons, ih, List.mem_cons]
      tauto
    | false => rw [escapeBraces_cons_of_neg s hd, List.mem_cons, ih, List.mem_cons]

theorem length_le_escapeBraces (s : List Char) : s.length ≤ (escapeBraces s).length := by
  induction s with
  | nil => exact le_rfl
  | cons c s ih =>
    cases hc : isBrace c with
    | true =>
      rw [escapeBraces_cons_of_pos s hc]
      exact Nat.succ_le_succ (Nat.le_succ_of_le ih)
    | false =>
      rw [escapeBraces_cons_of_neg s hc]
      exact Nat.succ_le_succ ih

theorem not_isBrace_of_all {s : List Char} (h : s.all (!isBrace ·) = true) :
    ∀ c ∈ s, isBrace c = false := by
  intro c hc
  simpa using List.all_eq_true.mp h c hc

/-- A text that does not get longer has no braces. -/
theorem not_isBrace_of_length_le {s : List Char} (h : (escapeBraces s).length ≤ s.length) :
    ∀ c ∈ s, isBrace c = false := by
  induction s with
  | nil => nofun
  | cons d s ih =>
    cases hd : isBrace d with
    | true =>
      rw [escapeBraces_cons_of_pos s hd] at h
      have hle := length_le_escapeBraces s
      simp only [List.length_cons] at h
      omega
    | false =>
      rw [escapeBraces_cons_of_neg s hd] at h
      intro c hc
      rcases List.mem_cons.mp hc with rfl | hc
      · exact hd
      · exact ih (Nat.le_of_succ_le_succ h) c hc

/-- Rewriting the characters of a text commutes with escaping it, if the braces stay what they are
and no others are made. -/
theorem flatMap_escapeBraces {f : Char → List Char} (hbrace : ∀ c, isBrace c = true → f c = [c])
    (hother : ∀ c, isBrace c = false → ∀ d ∈ f c, isBrace d = false) (s : List Char) :
    (escapeBraces s).flatMap f = escapeBraces (s.flatMap f) := by
  induction s with
  | nil => rfl
  | cons c s ih =>
    rw [List.flatMap_cons, escapeBraces_append, ← ih]
    cases hc : isBrace c with
    | true =>
      rw [escapeBraces_cons_of_pos s hc, List.flatMap_cons, List.flatMap_cons, hbrace c hc,
        escapeBraces_cons_of_pos [] hc]
      rfl
    | false =>
      rw [escapeBraces_cons_of_neg s hc, List.flatMap_cons, escapeBraces_eq_self (hother c hc)]

/-- Where the first run of one brace ends, or the end of the text. -/
def firstRunEnd : List Char → Nat
  | [] => 0
  | c :: rest =>
    if isBrace c then (rest.takeWhile (· = c)).length + 1 else firstRunEnd rest + 1

/-- Behind some more of the same brace, an escaped text agrees with the text up to the end of its
first run of that brace. -/
theorem take_replicate_append_escapeBraces {c : Char} (hc : isBrace c = true) (s : List Char) :
    ∀ j n, (List.replicate (j + 1) c ++ escapeBraces s).take n = s.take n ↔
      n ≤ (s.takeWhile (· = c)).length := by
  induction s with
  | nil =>
    intro j n
    cases n with
    | zero => simp
    | succ n => simp
  | cons d s ih =>
    intro j n
    cases n with
    | zero => simp
    | succ n =>
      by_cases hdc : d = c
      · subst hdc
        have hmore : List.replicate (j + 1) d ++ escapeBraces (d :: s) =
            d :: (List.replicate (j + 1 + 1) d ++ escapeBraces s) := by
          rw [escapeBraces_cons_of_pos s hc, ← List.cons_append, ← List.replicate_succ]
          simp only [List.replicate_succ', List.append_assoc, List.cons_append, List.nil_append]
        rw [hmore, List.take_succ_cons, List.take_succ_cons, List.takeWhile_cons_of_pos (by simp),
          List.length_cons, Nat.add_le_add_iff_right, ← ih (j + 1) n]
        simp
      · rw [List.replicate_succ, List.cons_append, List.take_succ_cons, List.take_succ_cons,
          List.takeWhile_cons_of_neg (by simpa using hdc)]
        simp [Ne.symm hdc]

/-- The escaped text starts like the text up to the end of the first run of one brace. -/
theorem take_escapeBraces_iff (s : List Char) (n : Nat) :
    (escapeBraces s).take n = s.take n ↔ (∀ c ∈ s, isBrace c = false) ∨ n ≤ firstRunEnd s := by
  induction s generalizing n with
  | nil => simp
  | cons c s ih =>
    cases n with
    | zero => simp
    | succ n =>
      cases hc : isBrace c with
      | true =>
        have hrun := take_replicate_append_escapeBraces hc s 0 n
        rw [escapeBraces_cons_of_pos s hc, List.take_succ_cons, List.take_succ_cons, firstRunEnd,
          if_pos hc]
        simp only [List.cons.injEq, true_and, List.forall_mem_cons, hc, Bool.true_eq_false,
          false_and, false_or, Nat.add_le_add_iff_right]
        exact hrun
      | false =>
        rw [escapeBraces_cons_of_neg s hc, List.take_succ_cons, List.take_succ_cons, firstRunEnd,
          if_neg (by simp [hc])]
        simp only [List.cons.injEq, true_and, List.forall_mem_cons, hc, Nat.add_le_add_iff_right]
        exact ih n

/-- What a precision leaves of an escaped text is a start of the text if there are no braces, or if
the cut is before the end of the first run of one brace. -/
theorem cut_escapeBraces_prefix_iff (precision : Option Nat) (s : List Char) :
    cut precision (escapeBraces s) <+: s ↔
      (∀ c ∈ s, isBrace c = false) ∨ ∃ n, precision = some n ∧ n ≤ firstRunEnd s := by
  cases precision with
  | none =>
    simp only [reduceCtorEq, false_and, exists_false, or_false]
    constructor
    · intro h
      exact not_isBrace_of_length_le h.length_le
    · intro h
      exact ⟨[], (List.append_nil _).trans (escapeBraces_eq_self h)⟩
  | some n =>
    simp only [Option.some.injEq, exists_eq_left', cut]
    rw [← take_escapeBraces_iff]
    constructor
    · intro h
      rcases Nat.lt_or_ge (escapeBraces s).length n with hlong | hshort
      · rw [List.take_of_length_le hlong.le] at h
        rw [escapeBraces_eq_self (not_isBrace_of_length_le h.length_le)]
      · have heq := List.prefix_iff_eq_take.mp h
        rwa [List.length_take, Nat.min_eq_left hshort] at heq
    · intro h
      rw [h]
      exact List.take_prefix n s

/-- Then the precision leaves the same of the escaped text and of the text. -/
theorem cut_escapeBraces {precision : Option Nat} {s : List Char}
    (h : (∀ c ∈ s, isBrace c = false) ∨ ∃ n, precision = some n ∧ n ≤ firstRunEnd s) :
    cut precision (escapeBraces s) = cut precision s := by
  obtain hnone | ⟨n, rfl, hle⟩ := h
  · rw [escapeBraces_eq_self hnone]
  · exact (take_escapeBraces_iff s n).mpr (.inr hle)

/-! ### Conversions -/

section Convert

variable {rt : Runtime}

/-- Hexadecimal digits are letters and digits. -/
theorem isAlphanum_of_mem_hex {width : Nat} {c : Char} : ∀ {n : Nat}, c ∈ hex width n →
    c.isAlphanum = true := by
  have hdigit : ∀ d < 16, (Nat.digitChar d).isAlphanum = true := by decide
  induction width with
  | zero => nofun
  | succ width ih =>
    intro n hc
    rcases List.mem_append.mp hc with hc | hc
    · exact ih hc
    · rw [List.mem_singleton.mp hc]
      exact hdigit _ (Nat.mod_lt n (by decide))

/-- An escape is a backslash with letters and digits. -/
theorem mem_escapeCode {c d : Char} (h : d ∈ escapeCode c) : d = '\\' ∨ d.isAlphanum = true := by
  have hcode {letter : Char} {width : Nat} (hletter : letter.isAlphanum = true)
      (hd : d ∈ '\\' :: letter :: hex width c.toNat) : d = '\\' ∨ d.isAlphanum = true := by
    rcases List.mem_cons.mp hd with hd | hd
    · exact .inl hd
    · rcases List.mem_cons.mp hd with rfl | hd
      · exact .inr hletter
      · exact .inr (isAlphanum_of_mem_hex hd)
  unfold escapeCode at h
  split at h
  · exact hcode (by decide) h
  · split at h
    · exact hcode (by decide) h
    · exact hcode (by decide) h

/-- A character between quotes is written as itself or as an escape. -/
theorem mem_quoted {q c d : Char} (h : d ∈ quoted rt q c) :
    d = c ∨ d = '\\' ∨ d.isAlphanum = true := by
  have hpair {letter : Char} (hletter : letter = c ∨ letter.isAlphanum = true)
      (hd : d ∈ ['\\', letter]) : d = c ∨ d = '\\' ∨ d.isAlphanum = true := by
    rcases List.mem_cons.mp hd with hd | hd
    · exact .inr (.inl hd)
    · rw [List.mem_singleton.mp hd]
      exact hletter.imp_right .inr
  unfold quoted at h
  split at h
  · exact hpair (.inl rfl) h
  · split at h
    · exact hpair (.inr (by decide)) h
    · split at h
      · exact hpair (.inr (by decide)) h
      · split at h
        · exact hpair (.inr (by decide)) h
        · split at h
          · exact .inr (mem_escapeCode h)
          · split at h
            · exact .inl (List.mem_singleton.mp h)
            · exact .inr (mem_escapeCode h)

theorem mem_asciiChar {c d : Char} (h : d ∈ asciiChar c) :
    d = c ∨ d = '\\' ∨ d.isAlphanum = true := by
  unfold asciiChar at h
  split at h
  · exact .inl (List.mem_singleton.mp h)
  · exact .inr (mem_escapeCode h)

theorem quote_cases (s : List Char) : quote s = '\'' ∨ quote s = '"' := by
  unfold quote
  split
  · exact .inr rfl
  · exact .inl rfl

/-- Braces are not used in escapes. -/
theorem isBrace_eq_false_of_escape {d : Char} (h : d = '\\' ∨ d.isAlphanum = true) :
    isBrace d = false := by
  obtain rfl | halpha := h
  · rfl
  · cases hd : isBrace d with
    | false => rfl
    | true =>
      obtain rfl | rfl : d = '\x7b' ∨ d = '\x7d' := by simpa [isBrace] using hd
      · revert halpha
        decide
      · revert halpha
        decide

theorem isBrace_quote (s : List Char) : isBrace (quote s) = false := by
  obtain h | h := quote_cases s
  · rw [h]
    rfl
  · rw [h]
    rfl

/-- Quotes are put around an escaped text as around the text. -/
theorem repr_escapeBraces (s : List Char) :
    repr rt (escapeBraces s) = escapeBraces (repr rt s) := by
  have hquote : quote (escapeBraces s) = quote s := by
    simp only [quote, mem_escapeBraces]
  have hbrace : ∀ c, isBrace c = true → quoted rt (quote s) c = [c] := by
    intro c hc
    have hq : isBrace (quote s) = false := isBrace_quote s
    obtain rfl | rfl : c = '\x7b' ∨ c = '\x7d' := by simpa [isBrace] using hc
    · have hne : '\x7b' ≠ quote s := fun h ↦ by rw [← h] at hq; cases hq
      simp [quoted, hne]
    · have hne : '\x7d' ≠ quote s := fun h ↦ by rw [← h] at hq; cases hq
      simp [quoted, hne]
  have hother : ∀ c, isBrace c = false → ∀ d ∈ quoted rt (quote s) c, isBrace d = false := by
    intro c hc d hd
    obtain rfl | hd := mem_quoted hd
    · exact hc
    · exact isBrace_eq_false_of_escape hd
  rw [repr, repr, hquote, escapeBraces_append, escapeBraces_cons_of_neg _ (isBrace_quote s),
    escapeBraces_cons_of_neg _ (isBrace_quote s), flatMap_escapeBraces hbrace hother]
  rfl

theorem flatMap_asciiChar_escapeBraces (s : List Char) :
    (escapeBraces s).flatMap asciiChar = escapeBraces (s.flatMap asciiChar) := by
  refine flatMap_escapeBraces (fun c hc ↦ ?_) (fun c hc d hd ↦ ?_) s
  · obtain rfl | rfl : c = '\x7b' ∨ c = '\x7d' := by simpa [isBrace] using hc
    · rfl
    · rfl
  · obtain rfl | hd := mem_asciiChar hd
    · exact hc
    · exact isBrace_eq_false_of_escape hd

/-- The conversions that there are, on strings. -/
theorem convert_str_eq_ok {conversion : Option Char} {s : List Char} {v : Value}
    (h : convert rt conversion (.str s) = .ok v) :
    v = .str s ∧ (conversion = none ∨ conversion = some 's') ∨
      v = .str (repr rt s) ∧ conversion = some 'r' ∨
      v = .str ((repr rt s).flatMap asciiChar) ∧ conversion = some 'a' := by
  unfold convert at h
  split at h
  · exact .inl ⟨(Except.ok.inj h).symm, .inl rfl⟩
  · exact .inl ⟨(Except.ok.inj h).symm, .inr rfl⟩
  · exact .inr (.inl ⟨(Except.ok.inj h).symm, rfl⟩)
  · exact .inr (.inr ⟨(Except.ok.inj h).symm, rfl⟩)
  · cases h

/-- A brace is written as itself between quotes. -/
theorem mem_repr_of_isBrace {c : Char} {s : List Char} (hc : isBrace c = true) (h : c ∈ s) :
    c ∈ repr rt s := by
  have hself : c ∈ quoted rt (quote s) c := by
    unfold quoted
    split
    · simp
    · obtain rfl | rfl : c = '\x7b' ∨ c = '\x7d' := by simpa [isBrace] using hc
      · simp
      · simp
  exact List.mem_append_left _ (List.mem_cons_of_mem _ (List.mem_flatMap.mpr ⟨c, h, hself⟩))

theorem mem_flatMap_asciiChar_of_isBrace {c : Char} {s : List Char} (hc : isBrace c = true)
    (h : c ∈ s) : c ∈ s.flatMap asciiChar := by
  refine List.mem_flatMap.mpr ⟨c, h, ?_⟩
  obtain rfl | rfl : c = '\x7b' ∨ c = '\x7d' := by simpa [isBrace] using hc
  · decide
  · decide

/-- A text that escaping does not change has no braces. -/
theorem escapeBraces_eq_self_iff {s : List Char} :
    escapeBraces s = s ↔ ∀ c ∈ s, isBrace c = false :=
  ⟨fun h ↦ not_isBrace_of_length_le (congrArg List.length h).le, escapeBraces_eq_self⟩

/-- Converting commutes with escaping, and it neither makes nor removes braces. -/
theorem convert_escapeBraces {conversion : Option Char} {s : List Char} {v : Value}
    (h : convert rt conversion (.str s) = .ok v) :
    ∃ x, v = .str x ∧ convert rt conversion (.str (escapeBraces s)) = .ok (.str (escapeBraces x)) ∧
      ((∀ c ∈ x, isBrace c = false) ↔ ∀ c ∈ s, isBrace c = false) := by
  obtain ⟨rfl, rfl | rfl⟩ | ⟨rfl, rfl⟩ | ⟨rfl, rfl⟩ := convert_str_eq_ok h
  · exact ⟨s, rfl, rfl, Iff.rfl⟩
  · exact ⟨s, rfl, rfl, Iff.rfl⟩
  · refine ⟨repr rt s, rfl, congrArg (Except.ok ∘ Value.str) (repr_escapeBraces s), ?_, ?_⟩
    · intro hnot c hc
      by_contra hbrace
      rw [Bool.not_eq_false] at hbrace
      rw [hnot c (mem_repr_of_isBrace hbrace hc)] at hbrace
      cases hbrace
    · intro hnot
      rw [← escapeBraces_eq_self_iff, ← repr_escapeBraces, escapeBraces_eq_self hnot]
  · have hcommute : (repr rt (escapeBraces s)).flatMap asciiChar =
        escapeBraces ((repr rt s).flatMap asciiChar) := by
      rw [repr_escapeBraces, flatMap_asciiChar_escapeBraces]
    refine ⟨_, rfl, congrArg (Except.ok ∘ Value.str) hcommute, ?_, ?_⟩
    · intro hnot c hc
      by_contra hbrace
      rw [Bool.not_eq_false] at hbrace
      have hmem : c ∈ (repr rt s).flatMap asciiChar :=
        mem_flatMap_asciiChar_of_isBrace hbrace (mem_repr_of_isBrace hbrace hc)
      rw [hnot c hmem] at hbrace
      cases hbrace
    · intro hnot
      rw [← escapeBraces_eq_self_iff, ← hcommute, escapeBraces_eq_self hnot]

/-- Converting makes no line breaks. -/
theorem newline_notMem_convert {conversion : Option Char} {s x : List Char}
    (h : convert rt conversion (.str s) = .ok (.str x)) (hs : '\n' ∉ s) : '\n' ∉ x := by
  have hescape : ¬ ('\n' = '\\' ∨ '\n'.isAlphanum = true) := by decide
  have hrepr : '\n' ∉ repr rt s := by
    intro hmem
    obtain hmem | hmem := List.mem_append.mp hmem
    · obtain hmem | hmem := List.mem_cons.mp hmem
      · obtain hq | hq := quote_cases s
        · rw [hq] at hmem
          cases hmem
        · rw [hq] at hmem
          cases hmem
      · obtain ⟨c, hc, hmem⟩ := List.mem_flatMap.mp hmem
        obtain rfl | hmem := mem_quoted hmem
        · exact hs hc
        · exact hescape hmem
    · obtain hq | hq := quote_cases s
      · rw [hq] at hmem
        cases List.mem_singleton.mp hmem
      · rw [hq] at hmem
        cases List.mem_singleton.mp hmem
  obtain ⟨hx, -⟩ | ⟨hx, -⟩ | ⟨hx, -⟩ := convert_str_eq_ok h
  · rw [Value.str.inj hx]
    exact hs
  · rw [Value.str.inj hx]
    exact hrepr
  · rw [Value.str.inj hx]
    intro hmem
    obtain ⟨c, hc, hmem⟩ := List.mem_flatMap.mp hmem
    obtain rfl | hmem := mem_asciiChar hmem
    · exact hrepr hc
    · exact hescape hmem

end Convert

/-! ### Escaped values -/

section Fields

variable {rt : Runtime} {expand : List Char → Except FormatError (List Char)}

/-- How a string value is rendered. -/
theorem formatField_str_eq_ok {f : Field} {s : List Char} {r : Rendered} :
    formatField rt expand f (.str s) = .ok r ↔
      ∃ x spec asked, convert rt f.conversion (.str s) = .ok (.str x) ∧
        expand f.spec = .ok spec ∧ specOf rt spec = some asked ∧
        r = pad asked (cut asked.precision x) := by
  unfold formatField
  cases hconvert : convert rt f.conversion (.str s) with
  | error e => simp [bind, Except.bind]
  | ok v =>
    obtain ⟨x, rfl, -⟩ := convert_escapeBraces hconvert
    cases hexpand : expand f.spec with
    | error e => simp [bind, Except.bind]
    | ok spec => simp [bind, Except.bind, formatValue, formatStr_eq_ok]

/-- The precision of a field is that of its specification. -/
theorem precision_eq {f : Field} {spec : List Char} {asked : StrSpec}
    (hspec : expand f.spec = .ok spec) (hasked : specOf rt spec = some asked) :
    f.precision rt expand = asked.precision := by
  simp [Field.precision, hspec, hasked, Except.toOption]

variable (rt) in
/-- What is shown for the text is the text, or a start of it that is long enough, as the conversion
writes it. -/
def Verbatim (conversion : Option Char) (text body : List Char) : Prop :=
  ∃ x, convert rt conversion (.str text) = .ok (.str x) ∧ body <+: x ∧ text <:+: body

variable (rt expand) in
/-- The field shows its value. -/
def Fits (f : Field) (v : Value) : Prop :=
  ∃ r, formatField rt expand f v = .ok r ∧ v.text <:+: r.body

/-- An escaped text stands where the text should only if there are no braces or if the field has a
precision that cuts the text off before the first brace that is one too many. -/
theorem verbatim_escapeBraces_iff (f : Field) (text : List Char) :
    (∃ r, formatField rt expand f (.str (escapeBraces text)) = .ok r ∧
        Verbatim rt f.conversion text r.body) ↔
      Fits rt expand f (.str text) ∧ ((∀ c ∈ text, isBrace c = false) ∨
        ∃ n x, f.precision rt expand = some n ∧
          convert rt f.conversion (.str text) = .ok (.str x) ∧ n ≤ firstRunEnd x) := by
  constructor
  · rintro ⟨r, hr, x, hx, hprefix, hwithin⟩
    obtain ⟨y, hy, hescaped, hbraces⟩ := convert_escapeBraces hx
    obtain rfl := Value.str.inj hy
    obtain ⟨z, spec, asked, hz, hspec, hasked, rfl⟩ := formatField_str_eq_ok.mp hr
    obtain rfl := Value.str.inj (Except.ok.inj (hz.symm.trans hescaped))
    have hcut := (cut_escapeBraces_prefix_iff asked.precision x).mp hprefix
    refine ⟨⟨_, formatField_str_eq_ok.mpr ⟨x, spec, asked, hx, hspec, hasked, rfl⟩, ?_⟩, ?_⟩
    · show text <:+: cut asked.precision x
      rw [← cut_escapeBraces hcut]
      exact hwithin
    · exact hcut.imp hbraces.mp fun ⟨n, hn, hle⟩ ↦
        ⟨n, x, (precision_eq hspec hasked).trans hn, hx, hle⟩
  · rintro ⟨⟨r, hr, hwithin⟩, hcut⟩
    obtain ⟨x, spec, asked, hx, hspec, hasked, rfl⟩ := formatField_str_eq_ok.mp hr
    obtain ⟨y, hy, hescaped, hbraces⟩ := convert_escapeBraces hx
    obtain rfl := Value.str.inj hy
    have hcut : (∀ c ∈ x, isBrace c = false) ∨
        ∃ n, asked.precision = some n ∧ n ≤ firstRunEnd x := by
      obtain hnone | ⟨n, z, hn, hz, hle⟩ := hcut
      · exact .inl (hbraces.mpr hnone)
      · obtain rfl := Value.str.inj (Except.ok.inj (hz.symm.trans hx))
        exact .inr ⟨n, (precision_eq hspec hasked).symm.trans hn, hle⟩
    refine ⟨_, formatField_str_eq_ok.mpr ⟨_, spec, asked, hescaped, hspec, hasked, rfl⟩, x, hx,
      (cut_escapeBraces_prefix_iff asked.precision x).mpr hcut, ?_⟩
    show text <:+: cut asked.precision (escapeBraces x)
    rw [cut_escapeBraces hcut]
    exact hwithin

end Fields

end GithubAgent.Base.Format
