import GithubAgent.Indexing.GitDiff

/-!
# When a diff is read exactly

The parser keeps a source, a destination and ranges from line to line, and flushes them at the line
that names the old version. New files have no such line, deleted ones no line that names the new
version, and files without hunks have neither.
-/

namespace GithubAgent.Indexing.GitDiff

open GithubAgent.Base GithubAgent.Indexing.SymbolIndex

/-! ### The condition -/

/-- The line is taken for one of git's. -/
def Imitates (u : Digits) (line : List Char) : Prop :=
  "--- a/".toList <+: line ∨ "+++ b/".toList <+: line ∨
    ("@@".toList <+: line ∧ (hunkRange u line).isSome = true)

/-- What is split off behind the header of a hunk, and the lines that its contents are split
into. -/
def Hunk.contents (h : Hunk) : List (List Char) :=
  let header := h.mark ++ if h.heading = "" then "" else " " ++ h.heading
  (splitlines (header.toList ++ ['\n'])).tail ++
    h.body.flatMap fun line ↦ splitlines (line.toList ++ ['\n'])

/-- The paths of both versions. -/
def Change.paths : Change → List String
  | .modified path | .added path | .deleted path => [path]
  | .renamed old new _ => [old, new]

/-- The path is written as it is. -/
def Plain (path : String) : Prop := path ≠ "" ∧ needsQuotes path = false ∧ ' ' ∉ path.toList

/-- Every line of the diff reads as what it is: paths are written as they are, and no contents
imitate git's own lines. -/
structure Readable (u : Digits) (files : List FileDiff) : Prop where
  plain : ∀ f ∈ files, f.hunks ≠ [] → ∀ path ∈ f.change.paths, Plain path
  contents : ∀ f ∈ files, ∀ h ∈ f.hunks, ∀ line ∈ h.contents, ¬ Imitates u line

/-- The second of two files with hunks is added exactly when the first is deleted, under another
path. -/
def Follows (f g : FileDiff) : Prop :=
  match f.change, g.change with
  | .deleted path, .added path' => path ≠ path'
  | .deleted _, _ | _, .added _ => False
  | _, _ => True

/-- The files have the shapes and the order that the parser expects. -/
structure Orderly (files : List FileDiff) : Prop where
  stale : ∀ f ∈ files, f.hunks = [] → f.change.stalePath = none
  added : ∀ f ∈ files, f.change.newPath ≠ none → ∀ h ∈ f.hunks, h.added ≠ []
  chain : (files.filter fun f ↦ f.hunks ≠ []).IsChain Follows

/-! ### Numbers and headers -/

section Headers

variable {u : Digits}

theorem value_of_digit {c : Char} (h : c.isDigit = true) :
    u.value c = some (c.toNat - '0'.toNat) := by
  have hlt : c.toNat < 128 := by
    have hdigit := Char.isDigit_iff_toNat.mp h
    have hnine : '9'.toNat = 57 := rfl
    omega
  rw [u.ascii c hlt, if_pos h]

/-- A number is read back. -/
theorem readNumber_toString (n : Nat) {rest : List Char}
    (hrest : ∀ c ∈ rest.head?, u.value c = none) :
    readNumber u ((toString n).toList ++ rest) = some (n, rest) := by
  have htext : (toString n).toList = Nat.toDigits 10 n := Nat.toList_repr
  have hdigit : ∀ c ∈ Nat.toDigits 10 n, c.isDigit = true :=
    fun c hc ↦ Nat.isDigit_of_mem_toDigits (by decide) (by decide) hc
  have htake : (Nat.toDigits 10 n ++ rest).takeWhile (fun c ↦ (u.value c).isSome) =
      Nat.toDigits 10 n := by
    rw [List.takeWhile_append_of_pos]
    · cases rest with
      | nil => rw [List.takeWhile_nil, List.append_nil]
      | cons c rest =>
        rw [List.takeWhile_cons_of_neg, List.append_nil]
        rw [hrest c rfl]
        exact Bool.false_ne_true
    · intro c hc
      rw [value_of_digit (hdigit c hc)]
      rfl
  have hfold : (Nat.toDigits 10 n).foldl (fun n c ↦ 10 * n + (u.value c).getD 0) 0 = n := by
    rw [List.foldl_ext _ (fun n c ↦ 10 * n + (c.toNat - '0'.toNat))]
    · exact Nat.ofDigitChars_ten_toDigits
    · intro m c hc
      rw [value_of_digit (hdigit c hc)]
      rfl
  unfold readNumber
  rw [htext, htake]
  simp only [Nat.toDigits_ne_nil, if_false, hfold, List.drop_left]

/-- So are a start and a count, which is 1 where it is left out. -/
theorem exists_readSpan (start count : Nat) (rest : List Char) (hrest : rest.head? = some ' ') :
    ∃ more shown, readNumber u ((span start count).toList ++ rest) = some (start, more) ∧
      readCount u more = some (shown, rest) ∧ shown.getD 1 = count := by
  have hspace : ∀ c ∈ rest.head?, u.value c = none := by
    rw [hrest]
    rintro _ ⟨⟩
    exact u.ascii ' ' (by decide)
  unfold span
  split
  · next hone =>
    refine ⟨rest, none, readNumber_toString start hspace, ?_, hone.symm⟩
    cases rest with
    | nil => rfl
    | cons c rest =>
      cases hrest
      rfl
  · have htext : (toString start ++ "," ++ toString count).toList ++ rest =
        (toString start).toList ++ (',' :: ((toString count).toList ++ rest)) := by
      simp [String.toList_append]
    refine ⟨',' :: ((toString count).toList ++ rest), some count, ?_, ?_, rfl⟩
    · rw [htext]
      apply readNumber_toString
      rintro _ ⟨⟩
      exact u.ascii ',' (by decide)
    · rw [readCount, readNumber_toString count hspace]
      rfl

theorem expect_append (word : String) (rest : List Char) :
    expect word (word.toList ++ rest) = some rest := by
  have hdrop : (word.toList ++ rest).drop word.length = rest := by
    rw [← String.length_toList]
    exact List.drop_left
  rw [expect, if_pos (List.isPrefixOf_iff_prefix.mpr (List.prefix_append _ _)), hdrop]

/-- The header of a hunk is read, whatever is behind it. -/
theorem hunkRange_mark (h : Hunk) (rest : List Char) :
    hunkRange u (h.mark.toList ++ rest) = some h.range := by
  have htext : h.mark.toList ++ rest =
      "@@ -".toList ++ ((span h.oldStart h.removed.length).toList ++ (" +".toList ++
        ((span h.newStart h.added.length).toList ++ (" @@".toList ++ rest)))) := by
    simp only [Hunk.mark, String.toList_append, List.append_assoc]
  obtain ⟨more, shown, hold, hold', _⟩ := exists_readSpan (u := u) h.oldStart h.removed.length
    (" +".toList ++ ((span h.newStart h.added.length).toList ++ (" @@".toList ++ rest))) rfl
  obtain ⟨more', shown', hnew, hnew', hcount⟩ := exists_readSpan (u := u) h.newStart
    h.added.length (" @@".toList ++ rest) rfl
  unfold hunkRange
  rw [htext, expect_append]
  simp only [Option.bind_eq_bind, Option.bind_some, hold, hold', expect_append, hnew, hnew',
    hcount]
  rfl

end Headers

/-! ### The lines of the output -/

section Lines

variable {u : Digits} {quoted : String → String}

/-- The lines that a list of lines is split into again. -/
def pieces (lines : List String) : List (List Char) :=
  lines.flatMap fun line ↦ splitlines (line.toList ++ ['\n'])

theorem pieces_append (lines more : List String) :
    pieces (lines ++ more) = pieces lines ++ pieces more := List.flatMap_append

/-- Lines without breaks stay as they are. -/
theorem pieces_of_forall {lines : List String}
    (h : ∀ line ∈ lines, ∀ c ∈ line.toList, isLineBreak c = false) :
    pieces lines = lines.map String.toList := by
  induction lines with
  | nil => rfl
  | cons line lines ih =>
    have hline := splitlines_singleton (h line List.mem_cons_self)
    have hrest := ih fun l hl ↦ h l (List.mem_cons_of_mem line hl)
    rw [pieces, List.flatMap_cons, hline, List.map_cons]
    exact congrArg (line.toList :: ·) hrest

/-- The lines of the output are those of its files. -/
theorem splitlines_render (files : List FileDiff) :
    splitlines (render quoted files).toList = files.flatMap fun f ↦ pieces (f.lines quoted) := by
  have hlines : ∀ lines : List String,
      splitlines (lines.flatMap fun line ↦ line.toList ++ ['\n']) = pieces lines := by
    intro lines
    induction lines with
    | nil => rfl
    | cons line lines ih =>
      rw [List.flatMap_cons, List.append_assoc, List.singleton_append, splitlines_newline, ih]
      rfl
  rw [render, String.toList_ofList, hlines, pieces, List.flatMap_assoc]
  rfl

/-- A word without line breaks, as it is computed. -/
theorem isLineBreak_of_any {word : String} (h : word.toList.any isLineBreak = false) :
    ∀ c ∈ word.toList, isLineBreak c = false := by
  intro c hc
  exact Bool.eq_false_iff.mpr (List.any_eq_false.mp h c hc)

/-- A hunk is its header, with some of the heading, and the contents. -/
theorem exists_pieces_hunk (h : Hunk) :
    ∃ more, pieces h.lines = (h.mark.toList ++ more) :: h.contents := by
  have hnumber : ∀ n : Nat, ∀ c ∈ (toString n).toList, isLineBreak c = false := by
    intro n c hc
    have hdigit := Char.isDigit_iff_toNat.mp (Nat.isDigit_of_mem_toDigits (by decide) (by decide)
      (Nat.toList_repr ▸ hc))
    have hzero : '0'.toNat = 48 := rfl
    have hnine : '9'.toNat = 57 := rfl
    rw [isLineBreak, decide_eq_false_iff_not]
    simp only [List.mem_cons, List.not_mem_nil, or_false]
    omega
  have hspan : ∀ start count : Nat, ∀ c ∈ (span start count).toList, isLineBreak c = false := by
    intro start count c hc
    unfold span at hc
    split at hc
    · exact hnumber start c hc
    · rw [String.toList_append, String.toList_append, List.mem_append, List.mem_append] at hc
      rcases hc with (hc | hc) | hc
      · exact hnumber start c hc
      · rw [List.mem_singleton.mp hc]
        decide
      · exact hnumber count c hc
  have hmark : ∀ c ∈ h.mark.toList, isLineBreak c = false := by
    have hconst : ∀ word ∈ ["@@ -", " +", " @@"], word.toList.any isLineBreak = false := by
      decide
    intro c hc
    simp only [Hunk.mark, String.toList_append, List.mem_append] at hc
    rcases hc with (((hc | hc) | hc) | hc) | hc
    · exact isLineBreak_of_any (hconst "@@ -" (by decide)) c hc
    · exact hspan _ _ c hc
    · exact isLineBreak_of_any (hconst " +" (by decide)) c hc
    · exact hspan _ _ c hc
    · exact isLineBreak_of_any (hconst " @@" (by decide)) c hc
  have hheader : pieces h.lines = splitlines
      ((h.mark ++ if h.heading = "" then "" else " " ++ h.heading).toList ++ ['\n']) ++
        pieces h.body := rfl
  obtain ⟨more, rest, hfirst⟩ := exists_splitlinesFrom_cons h.mark.toList
    (if h.heading = "" then "" else " " ++ h.heading).toList
  have hsplit : splitlines
      ((h.mark ++ if h.heading = "" then "" else " " ++ h.heading).toList ++ ['\n']) =
        (h.mark.toList ++ more) :: rest := by
    rw [← hfirst, splitlines, String.toList_append, List.append_assoc,
      splitlinesFrom_append hmark, List.nil_append]
  refine ⟨more, ?_⟩
  rw [hheader, Hunk.contents, hsplit]
  rfl

/-- A line that imitates nothing is passed over. -/
theorem step_of_not_imitates {line : List Char} (h : ¬ Imitates u line) (s : ParseState) :
    step u s line = s := by
  unfold Imitates at h
  rw [not_or, not_or] at h
  obtain ⟨hsrc, hdst, hhunk⟩ := h
  unfold step
  rw [if_neg (List.isPrefixOf_iff_prefix.not.mpr hsrc),
    if_neg (List.isPrefixOf_iff_prefix.not.mpr hdst)]
  split
  · next hstart =>
    have hnone : hunkRange u line = none := by
      rw [← Option.not_isSome_iff_eq_none]
      intro hsome
      exact hhunk ⟨List.isPrefixOf_iff_prefix.mp hstart.1, hsome⟩
    rw [hnone]
  · rfl

theorem foldl_step_of_forall {lines : List (List Char)}
    (h : ∀ line ∈ lines, ¬ Imitates u line) (s : ParseState) :
    lines.foldl (step u) s = s := by
  induction lines with
  | nil => rfl
  | cons line lines ih =>
    rw [List.foldl_cons, step_of_not_imitates (h line List.mem_cons_self)]
    exact ih fun l hl ↦ h l (List.mem_cons_of_mem line hl)

/-- The line of the old version. -/
theorem step_src (s : ParseState) (path : String) :
    step u s ("--- a/" ++ path).toList = { s.flush with src := some path } := by
  have hdrop : ("--- a/" ++ path).toList.drop 6 = path.toList := by
    rw [String.toList_append]
    rfl
  have hstart : "--- a/".toList.isPrefixOf ("--- a/" ++ path).toList = true := by
    rw [String.toList_append]
    exact List.isPrefixOf_iff_prefix.mpr (List.prefix_append _ _)
  unfold step
  simp only [hstart, if_true, hdrop, String.ofList_toList]

/-- The line of the new version. -/
theorem step_dst (s : ParseState) (path : String) :
    step u s ("+++ b/" ++ path).toList =
      { s with
        dst := some path
        staleFiles :=
          if truthy s.src ∧ s.src ≠ some path then s.staleFiles ++ [s.src.getD ""]
          else s.staleFiles
        src := none } := by
  have hdrop : ("+++ b/" ++ path).toList.drop 6 = path.toList := by
    rw [String.toList_append]
    rfl
  have hsrc : "--- a/".toList.isPrefixOf ("+++ b/" ++ path).toList = false := by
    rw [String.toList_append]
    rfl
  have hstart : "+++ b/".toList.isPrefixOf ("+++ b/" ++ path).toList = true := by
    rw [String.toList_append]
    exact List.isPrefixOf_iff_prefix.mpr (List.prefix_append _ _)
  unfold step
  simp only [hsrc, Bool.false_eq_true, if_false, hstart, if_true, hdrop, String.ofList_toList]

/-- The ranges of hunks are kept where there is a new version. -/
theorem foldl_hunks (hunks : List Hunk) (s : ParseState)
    (h : ∀ hunk ∈ hunks, ∀ line ∈ hunk.contents, ¬ Imitates u line) :
    (pieces (hunks.flatMap Hunk.lines)).foldl (step u) s =
      if truthy s.dst then { s with ranges := s.ranges ++ hunks.map Hunk.range } else s := by
  induction hunks generalizing s with
  | nil =>
    split
    · rw [List.map_nil, List.append_nil]
      rfl
    · rfl
  | cons hunk hunks ih =>
    obtain ⟨more, hpieces⟩ := exists_pieces_hunk hunk
    have hstart : step u s (hunk.mark.toList ++ more) =
        if truthy s.dst then { s with ranges := s.ranges ++ [hunk.range] } else s := by
      obtain ⟨rest, htext⟩ : ∃ rest, hunk.mark.toList ++ more = '@' :: '@' :: rest := by
        simp only [Hunk.mark, String.toList_append, List.append_assoc]
        exact ⟨_, rfl⟩
      have hsrc : "--- a/".toList.isPrefixOf (hunk.mark.toList ++ more) = false := by
        rw [htext]
        rfl
      have hdst : "+++ b/".toList.isPrefixOf (hunk.mark.toList ++ more) = false := by
        rw [htext]
        rfl
      have hhunk : "@@".toList.isPrefixOf (hunk.mark.toList ++ more) = true := by
        rw [htext]
        rfl
      unfold step
      simp only [hsrc, hdst, hhunk, Bool.false_eq_true, if_false, true_and, hunkRange_mark]
    rw [List.flatMap_cons, pieces_append, hpieces, List.foldl_append, List.foldl_cons, hstart,
      foldl_step_of_forall (h hunk List.mem_cons_self),
      ih _ fun k hk ↦ h k (List.mem_cons_of_mem hunk hk)]
    cases htruthy : truthy s.dst with
    | true => simp [htruthy]
    | false => simp [htruthy]

end Lines

/-! ### The files of the output -/

/-- What the parser still holds behind a file: an entry that is not flushed, or a path that may be
stale. -/
inductive Pending where
  | nothing
  | changed (entry : ChangedRanges)
  | deleted (path : String)

namespace Pending

/-- The entry that the next flush reports. -/
def entries : Pending → List ChangedRanges
  | changed entry => [entry]
  | nothing | deleted _ => []

/-- The path that is stale if no new version follows. -/
def paths : Pending → List String
  | deleted path => [path]
  | nothing | changed _ => []

/-- The variables of the parser, with what is reported so far. -/
def state (p : Pending) (changes : List ChangedRanges) (staleFiles : List String) : ParseState :=
  match p with
  | nothing => { changes, staleFiles }
  | changed entry => { changes, staleFiles, dst := some entry.file, ranges := entry.ranges }
  | deleted path => { changes, staleFiles, src := some path }

/-- What is held has a path, and an entry has ranges. -/
def Held : Pending → Prop
  | nothing => True
  | changed entry => entry.file ≠ "" ∧ entry.ranges ≠ []
  | deleted path => path ≠ ""

/-- What is held behind a file with hunks. -/
def next (p : Pending) (f : FileDiff) : Pending :=
  match f.change with
  | .modified path | .renamed _ path _ => changed ⟨path, f.hunks.map Hunk.range⟩
  | .added path => changed ⟨path, p.entries.flatMap ChangedRanges.ranges ++ f.hunks.map Hunk.range⟩
  | .deleted path => deleted path

/-- The entries that a file with hunks flushes. -/
def flushed (p : Pending) (f : FileDiff) : List ChangedRanges :=
  match f.change with
  | .added _ => []
  | _ => p.entries

/-- The stale paths that a file with hunks reports. -/
def reported (p : Pending) (f : FileDiff) : List String :=
  match f.change with
  | .added path => p.paths.filter (· ≠ path)
  | .renamed old _ _ => [old]
  | _ => []

/-- What is reported from here on. -/
def run (p : Pending) : List FileDiff → List ChangedRanges × List String
  | [] => (p.entries, p.paths)
  | f :: files =>
    if f.hunks = [] then p.run files
    else (p.flushed f ++ ((p.next f).run files).1, p.reported f ++ ((p.next f).run files).2)

end Pending

section Files

variable {u : Digits} {quoted : String → String} {p : Pending} {f : FileDiff}

theorem truthy_some {path : String} (h : path ≠ "") : truthy (some path) = true := by
  simp [truthy, h]

/-- A flush reports the entry that is held. -/
theorem flush_state (h : p.Held) (changes : List ChangedRanges) (staleFiles : List String) :
    (p.state changes staleFiles).flush =
      { changes := changes ++ p.entries, staleFiles, src := (p.state changes staleFiles).src } := by
  cases p with
  | nothing => rw [Pending.entries, List.append_nil]; rfl
  | deleted path => rw [Pending.entries, List.append_nil]; rfl
  | changed entry =>
    have hentry : truthy (some entry.file) = true ∧ entry.ranges ≠ [] := ⟨truthy_some h.1, h.2⟩
    rw [ParseState.flush, Pending.state, if_pos hentry]
    rfl

/-- The end of the output reports what is held. -/
theorem finish_state (h : p.Held) (changes : List ChangedRanges) (staleFiles : List String) :
    (p.state changes staleFiles).finish = (changes ++ p.entries, staleFiles ++ p.paths) := by
  rw [ParseState.finish, flush_state h]
  cases p with
  | nothing => rw [Pending.paths, List.append_nil]; rfl
  | changed entry => rw [Pending.paths, List.append_nil]; rfl
  | deleted path =>
    have hpath : truthy (some path) = true := truthy_some h
    simp only [Pending.state, hpath]
    rfl

/-- A path that is written as it is stands behind its prefix. -/
theorem label_of_plain {path : String} (h : Plain path) (start : String) :
    label quoted start path = start ++ path := by
  rw [label, h.2.1, if_neg Bool.false_ne_true, if_neg h.2.2, String.append_empty]

theorem isLineBreak_of_plain {path : String} (h : Plain path) :
    ∀ c ∈ path.toList, isLineBreak c = false := by
  intro c hc
  have hquotes := List.any_eq_false.mp h.2.1 c hc
  simp only [Bool.or_eq_true, decide_eq_true_iff, not_or] at hquotes
  rw [isLineBreak, decide_eq_false_iff_not]
  simp only [List.mem_cons, List.not_mem_nil, or_false]
  omega

/-- A line behind one of the two prefixes is one line. -/
theorem isLineBreak_of_start {path word : String} (h : Plain path)
    (hword : word ∈ ["--- a/", "+++ b/"]) : ∀ c ∈ (word ++ path).toList, isLineBreak c = false := by
  have hconst : ∀ word ∈ ["--- a/", "+++ b/"], word.toList.any isLineBreak = false := by decide
  intro c hc
  rw [String.toList_append] at hc
  rcases List.mem_append.mp hc with hc | hc
  · exact isLineBreak_of_any (hconst word hword) c hc
  · exact isLineBreak_of_plain h c hc

/-- The name of a version that does not exist is passed over. -/
theorem step_null {line : String} (h : line ∈ ["--- /dev/null", "+++ /dev/null"])
    (s : ParseState) : step u s line.toList = s := by
  have hconst : ∀ line ∈ ["--- /dev/null", "+++ /dev/null"], ¬ "--- a/".toList <+: line.toList ∧
      ¬ "+++ b/".toList <+: line.toList ∧ ¬ "@@".toList <+: line.toList := by
    decide
  obtain ⟨hsrc, hdst, hhunk⟩ := hconst line h
  apply step_of_not_imitates
  rintro (hline | hline | hline)
  · exact hsrc hline
  · exact hdst hline
  · exact hhunk hline.1

/-- The lines that name the versions. -/
theorem foldl_names (hplain : ∀ path ∈ f.change.paths, Plain path) (s : ParseState) :
    (pieces (f.change.names quoted)).foldl (step u) s =
      match f.change with
      | .modified path =>
        step u (step u s ("--- a/" ++ path).toList) ("+++ b/" ++ path).toList
      | .added path => step u s ("+++ b/" ++ path).toList
      | .deleted path => step u s ("--- a/" ++ path).toList
      | .renamed old new _ =>
        step u (step u s ("--- a/" ++ old).toList) ("+++ b/" ++ new).toList := by
  have hsrc {path : String} (h : Plain path) :
      "--- " ++ label quoted "a/" path = "--- a/" ++ path := by
    rw [label_of_plain h, ← String.append_assoc]
    rfl
  have hdst {path : String} (h : Plain path) :
      "+++ " ++ label quoted "b/" path = "+++ b/" ++ path := by
    rw [label_of_plain h, ← String.append_assoc]
    rfl
  have hconst : ∀ line ∈ ["--- /dev/null", "+++ /dev/null"],
      line.toList.any isLineBreak = false := by
    decide
  have hnull {line : String} (hline : line ∈ ["--- /dev/null", "+++ /dev/null"]) :
      ∀ c ∈ line.toList, isLineBreak c = false := isLineBreak_of_any (hconst line hline)
  have htwo {first second : String} (h : ∀ c ∈ first.toList, isLineBreak c = false)
      (h' : ∀ c ∈ second.toList, isLineBreak c = false) :
      (pieces [first, second]).foldl (step u) s = step u (step u s first.toList) second.toList := by
    rw [pieces_of_forall (List.forall_mem_cons.mpr ⟨h, List.forall_mem_singleton.mpr h'⟩)]
    rfl
  cases hchange : f.change with
  | modified path =>
    rw [hchange] at hplain
    have hpath : Plain path := hplain path List.mem_cons_self
    rw [Change.names, hsrc hpath, hdst hpath]
    exact htwo (isLineBreak_of_start hpath (by decide)) (isLineBreak_of_start hpath (by decide))
  | added path =>
    rw [hchange] at hplain
    have hpath : Plain path := hplain path List.mem_cons_self
    have hfirst : "--- /dev/null" ∈ ["--- /dev/null", "+++ /dev/null"] := List.mem_cons_self
    rw [Change.names, hdst hpath, htwo (hnull hfirst) (isLineBreak_of_start hpath (by decide)),
      step_null hfirst]
  | deleted path =>
    rw [hchange] at hplain
    have hpath : Plain path := hplain path List.mem_cons_self
    have hsecond : "+++ /dev/null" ∈ ["--- /dev/null", "+++ /dev/null"] := by decide
    rw [Change.names, hsrc hpath, htwo (isLineBreak_of_start hpath (by decide)) (hnull hsecond),
      step_null hsecond]
  | renamed old new moved =>
    rw [hchange] at hplain
    have hold : Plain old := hplain old List.mem_cons_self
    have hnew : Plain new := hplain new (List.mem_cons_of_mem _ List.mem_cons_self)
    rw [Change.names, hsrc hold, hdst hnew]
    exact htwo (isLineBreak_of_start hold (by decide)) (isLineBreak_of_start hnew (by decide))

/-- The lines in front of the names are passed over. -/
theorem foldl_extended (f : FileDiff) (s : ParseState) :
    (pieces f.extended).foldl (step u) s = s := by
  rw [pieces_of_forall fun line hline ↦ (f.letters line hline).1]
  apply foldl_step_of_forall
  rintro _ hmem
  obtain ⟨line, hline, rfl⟩ := List.mem_map.mp hmem
  obtain ⟨_, c, rest, htext, hletter⟩ := f.letters line hline
  have hsigns : ['-', '+', '@'].any Char.isAlpha = false := by decide
  have hfirst : ∀ d ∈ ['-', '+', '@'], c ≠ d := by
    intro d hd heq
    rw [heq] at hletter
    exact List.any_eq_false.mp hsigns d hd hletter
  rw [htext]
  rintro (hstart | hstart | ⟨hstart, _⟩)
  · exact hfirst '-' (by decide) (List.cons_prefix_cons.mp hstart).1.symm
  · exact hfirst '+' (by decide) (List.cons_prefix_cons.mp hstart).1.symm
  · exact hfirst '@' (by decide) (List.cons_prefix_cons.mp hstart).1.symm

/-- What is held behind a file with hunks is of the right form again. -/
theorem held_next (hne : f.hunks ≠ []) (hplain : ∀ path ∈ f.change.paths, Plain path) :
    (p.next f).Held := by
  have hranges : f.hunks.map Hunk.range ≠ [] := List.map_eq_nil_iff.not.mpr hne
  unfold Pending.next
  cases hchange : f.change with
  | modified path =>
    rw [hchange] at hplain
    exact ⟨(hplain path List.mem_cons_self).1, hranges⟩
  | added path =>
    rw [hchange] at hplain
    exact ⟨(hplain path List.mem_cons_self).1, List.append_ne_nil_of_right_ne_nil _ hranges⟩
  | deleted path =>
    rw [hchange] at hplain
    exact (hplain path List.mem_cons_self).1
  | renamed old new moved =>
    rw [hchange] at hplain
    exact ⟨(hplain new (List.mem_cons_of_mem _ List.mem_cons_self)).1, hranges⟩

/-- A file with hunks, from its first line to its last. -/
theorem foldl_lines (hne : f.hunks ≠ []) (hplain : ∀ path ∈ f.change.paths, Plain path)
    (hcontents : ∀ h ∈ f.hunks, ∀ line ∈ h.contents, ¬ Imitates u line) (hp : p.Held)
    (changes : List ChangedRanges) (staleFiles : List String) :
    (pieces (f.lines quoted)).foldl (step u) (p.state changes staleFiles) =
      (p.next f).state (changes ++ p.flushed f) (staleFiles ++ p.reported f) := by
  rw [FileDiff.lines, if_neg hne, pieces_append, pieces_append, List.foldl_append,
    List.foldl_append, foldl_extended, foldl_names hplain, foldl_hunks _ _ hcontents]
  unfold Pending.next Pending.flushed Pending.reported
  cases hchange : f.change with
  | modified path =>
    rw [hchange] at hplain
    have hpath : truthy (some path) = true := truthy_some (hplain path List.mem_cons_self).1
    simp only [step_src, step_dst, flush_state hp, hpath]
    simp [Pending.state]
  | added path =>
    rw [hchange] at hplain
    have hpath : truthy (some path) = true := truthy_some (hplain path List.mem_cons_self).1
    simp only [step_dst, hpath]
    cases p with
    | nothing => simp [Pending.state, Pending.entries, Pending.paths, truthy]
    | changed entry => simp [Pending.state, Pending.entries, Pending.paths, truthy]
    | deleted old =>
      have hold : truthy (some old) = true := truthy_some hp
      by_cases hsame : old = path
      · simp [Pending.state, Pending.entries, Pending.paths, hsame]
      · simp [Pending.state, Pending.entries, Pending.paths, hold, hsame]
  | deleted path =>
    simp only [step_src, flush_state hp]
    simp [Pending.state, truthy]
  | renamed old new moved =>
    rw [hchange] at hplain
    have hold : truthy (some old) = true := truthy_some (hplain old List.mem_cons_self).1
    have hnew : truthy (some new) = true :=
      truthy_some (hplain new (List.mem_cons_of_mem _ List.mem_cons_self)).1
    simp only [step_src, step_dst, flush_state hp, hold, hnew]
    simp [Pending.state, moved]

/-- The parser reports what its files make it report one after the other. -/
theorem parse_render {files : List FileDiff} (h : Readable u files) :
    parseGitDiff u (render quoted files) = Pending.nothing.run files := by
  have hrun : ∀ (files : List FileDiff) (p : Pending) (changes : List ChangedRanges)
      (staleFiles : List String), Readable u files → p.Held →
      ((files.flatMap fun f ↦ pieces (f.lines quoted)).foldl (step u)
        (p.state changes staleFiles)).finish =
          (changes ++ (p.run files).1, staleFiles ++ (p.run files).2) := by
    intro files
    induction files with
    | nil =>
      intro p changes staleFiles _ hp
      exact finish_state hp changes staleFiles
    | cons f files ih =>
      intro p changes staleFiles hread hp
      have hrest : Readable u files :=
        ⟨fun g hg ↦ hread.plain g (List.mem_cons_of_mem f hg),
          fun g hg ↦ hread.contents g (List.mem_cons_of_mem f hg)⟩
      rw [List.flatMap_cons, List.foldl_append]
      by_cases hne : f.hunks = []
      · rw [FileDiff.lines, if_pos hne, List.append_nil, foldl_extended, Pending.run, if_pos hne]
        exact ih p changes staleFiles hrest hp
      · have hplain := hread.plain f List.mem_cons_self hne
        rw [foldl_lines hne hplain (hread.contents f List.mem_cons_self) hp, Pending.run,
          if_neg hne, ih _ _ _ hrest (held_next hne hplain)]
        simp only [List.append_assoc]
  rw [parseGitDiff, splitlines_render]
  exact hrun files .nothing [] [] h trivial

end Files

/-! ### What is reported and what is to be reported -/

section Reports

variable {p : Pending} {f g : FileDiff} {files : List FileDiff}

/-- The file may come behind what is held. -/
def Pending.Joins (p : Pending) (f : FileDiff) : Prop :=
  match p, f.change with
  | changed _, .added _ => False
  | deleted path, .added path' => path ≠ path'
  | deleted _, _ => False
  | _, _ => True

/-- All hunks of a file with a new version add lines. -/
def FileDiff.Adds (f : FileDiff) : Prop :=
  f.change.newPath ≠ none → ∀ h ∈ f.hunks, h.added ≠ []

theorem filterMap_cons_eq {A B : Type} (k : A → Option B) (a : A) (l : List A) :
    (a :: l).filterMap k = (k a).toList ++ l.filterMap k := by
  rw [List.filterMap_cons]
  cases k a <;> rfl

/-- What may come behind a file with hunks depends on that file only. -/
theorem joins_next : (p.next f).Joins g ↔ Follows f g := by
  unfold Pending.next Pending.Joins Follows
  cases f.change <;> cases g.change <;> exact Iff.rfl

/-- The hunks of a file that adds lines are its new ranges. -/
theorem newRanges_of_adds (hnew : f.change.newPath ≠ none) (h : f.Adds) :
    f.newRanges = f.hunks.map Hunk.range := by
  have hall : (f.hunks.filter fun hunk ↦ hunk.added ≠ []) = f.hunks :=
    List.filter_eq_self.mpr fun hunk hhunk ↦ decide_eq_true (h hnew hunk hhunk)
  rw [FileDiff.newRanges, hall]

theorem changed_of_adds (hne : f.hunks ≠ []) (h : f.Adds) :
    f.changed = f.change.newPath.map (⟨·, f.hunks.map Hunk.range⟩) := by
  cases hnew : f.change.newPath with
  | none =>
    rw [FileDiff.changed, hnew]
    split <;> rfl
  | some path =>
    have hranges := newRanges_of_adds (by rw [hnew]; exact Option.some_ne_none path) h
    rw [FileDiff.changed, hranges, if_neg (List.map_eq_nil_iff.not.mpr hne), hnew]

/-- Where a file fits, what it reports and leaves is what is to be reported. -/
theorem reports_of_joins (hne : f.hunks ≠ []) (hjoins : p.Joins f) (h : f.Adds) :
    p.flushed f ++ (p.next f).entries = p.entries ++ f.changed.toList ∧
      p.reported f ++ (p.next f).paths = p.paths ++ f.change.stalePath.toList := by
  rw [changed_of_adds hne h]
  unfold Pending.Joins at hjoins
  unfold Pending.flushed Pending.reported Pending.next
  cases hchange : f.change with
  | modified path =>
    cases p with
    | nothing => exact ⟨rfl, rfl⟩
    | changed entry => exact ⟨rfl, rfl⟩
    | deleted old => simp [hchange] at hjoins
  | added path =>
    cases p with
    | nothing => exact ⟨rfl, rfl⟩
    | changed entry => simp [hchange] at hjoins
    | deleted old =>
      rw [hchange] at hjoins
      have hfilter : [old].filter (· ≠ path) = [old] :=
        List.filter_cons_of_pos (decide_eq_true hjoins)
      exact ⟨rfl, congrArg (· ++ []) hfilter⟩
  | deleted path | renamed old new moved =>
    cases p with
    | nothing => exact ⟨rfl, rfl⟩
    | changed entry => exact ⟨rfl, rfl⟩
    | deleted old => simp [hchange] at hjoins

/-- No more paths are reported than there are stale ones. -/
theorem length_run_le (p : Pending) (files : List FileDiff) :
    (p.run files).2.length ≤ p.paths.length + (files.filterMap (·.change.stalePath)).length := by
  induction files generalizing p with
  | nil => exact Nat.le_add_right _ _
  | cons f files ih =>
    rw [filterMap_cons_eq, List.length_append]
    by_cases hne : f.hunks = []
    · rw [Pending.run, if_pos hne]
      exact (ih p).trans (by omega)
    · rw [Pending.run, if_neg hne, List.length_append]
      have hstep : (p.reported f).length + (p.next f).paths.length ≤
          p.paths.length + f.change.stalePath.toList.length := by
        unfold Pending.reported Pending.next
        cases f.change with
        | modified path => exact Nat.zero_le _
        | added path =>
          exact Nat.add_le_add (List.length_filter_le _ _) (Nat.zero_le _)
        | deleted path | renamed old new moved => exact Nat.le_add_left _ _
      have hrest := ih (p.next f)
      omega

/-- The entry that is held is reported, perhaps with the ranges of other files. -/
theorem exists_run_changed (entry : ChangedRanges) (files : List FileDiff) :
    ∃ file more rest, ((Pending.changed entry).run files).1 =
      ⟨file, entry.ranges ++ more⟩ :: rest := by
  induction files generalizing entry with
  | nil => exact ⟨entry.file, [], [], by rw [List.append_nil]; rfl⟩
  | cons f files ih =>
    by_cases hne : f.hunks = []
    · rw [Pending.run, if_pos hne]
      exact ih entry
    · rw [Pending.run, if_neg hne]
      unfold Pending.flushed Pending.next
      cases f.change with
      | modified path | deleted path | renamed old new moved =>
        exact ⟨entry.file, [], _, by rw [List.append_nil]; rfl⟩
      | added path =>
        obtain ⟨file, more, rest, hrun⟩ := ih ⟨path,
          (Pending.changed entry).entries.flatMap ChangedRanges.ranges ++ f.hunks.map Hunk.range⟩
        refine ⟨file, f.hunks.map Hunk.range ++ more, rest, ?_⟩
        rw [List.nil_append, hrun]
        simp [Pending.entries]

/-- What is to be reported for a list of files, behind what is held. -/
def Pending.Meets (p : Pending) (files : List FileDiff) : Prop :=
  p.run files = (p.entries ++ files.filterMap FileDiff.changed,
    p.paths ++ files.filterMap (·.change.stalePath))

/-- No range of the entry that is held is empty. -/
def Pending.Filled (p : Pending) : Prop := ∀ entry ∈ p.entries, ∀ r ∈ entry.ranges, r.1 ≤ r.2

theorem range_filled {h : Hunk} : h.range.1 ≤ h.range.2 ↔ h.added ≠ [] := by
  have hlength := List.length_pos_iff (l := h.added)
  rw [← hlength]
  unfold Hunk.range
  constructor
  · intro hle
    have hle' : (h.newStart : Int) ≤ (h.newStart : Int) + h.added.length - 1 := hle
    omega
  · intro hpos
    show (h.newStart : Int) ≤ (h.newStart : Int) + h.added.length - 1
    omega

/-- No range that is to be reported is empty. -/
theorem filled_of_mem {entry : ChangedRanges} (h : entry ∈ files.filterMap FileDiff.changed) :
    ∀ r ∈ entry.ranges, r.1 ≤ r.2 := by
  obtain ⟨f, _, hchanged⟩ := List.mem_filterMap.mp h
  unfold FileDiff.changed at hchanged
  split at hchanged
  · cases hchanged
  · obtain ⟨path, _, rfl⟩ := Option.map_eq_some_iff.mp hchanged
    intro r hr
    obtain ⟨hunk, hhunk, rfl⟩ := List.mem_map.mp hr
    exact range_filled.mpr (of_decide_eq_true (List.mem_filter.mp hhunk).2)

/-- A file whose ranges are held behind it. -/
theorem next_eq_changed (hnew : f.change.newPath ≠ none) :
    ∃ path earlier, p.next f = .changed ⟨path, earlier ++ f.hunks.map Hunk.range⟩ := by
  unfold Pending.next
  cases hchange : f.change with
  | modified path => exact ⟨path, [], rfl⟩
  | added path => exact ⟨path, _, rfl⟩
  | deleted path =>
    rw [hchange] at hnew
    exact absurd rfl hnew
  | renamed old new moved => exact ⟨new, [], rfl⟩

/-- Where all is reported, files with a new version add lines. -/
theorem adds_of_meets (hne : f.hunks ≠ []) (hp : p.Filled) (h : p.Meets (f :: files)) :
    f.Adds := by
  intro hnew hunk hhunk
  obtain ⟨path, earlier, hnext⟩ := next_eq_changed (p := p) hnew
  obtain ⟨file, more, rest, hrun⟩ := exists_run_changed
    ⟨path, earlier ++ f.hunks.map Hunk.range⟩ files
  have hentries : (p.run (f :: files)).1 =
      p.entries ++ (f :: files).filterMap FileDiff.changed := congrArg Prod.fst h
  rw [Pending.run, if_neg hne, hnext, hrun] at hentries
  have hmem : (⟨file, (earlier ++ f.hunks.map Hunk.range) ++ more⟩ : ChangedRanges) ∈
      p.entries ++ (f :: files).filterMap FileDiff.changed := by
    rw [← hentries]
    exact List.mem_append_right _ List.mem_cons_self
  have hrange : hunk.range ∈ (earlier ++ f.hunks.map Hunk.range) ++ more :=
    List.mem_append_left _ (List.mem_append_right _ (List.mem_map_of_mem hhunk))
  apply range_filled.mp
  rcases List.mem_append.mp hmem with hmem | hmem
  · exact hp _ hmem _ hrange
  · exact filled_of_mem hmem _ hrange

/-- Where all is reported, every file fits behind what is held. -/
theorem joins_of_meets (hne : f.hunks ≠ []) (h : p.Meets (f :: files)) : p.Joins f := by
  have hentries : (p.run (f :: files)).1 =
      p.entries ++ (f :: files).filterMap FileDiff.changed := congrArg Prod.fst h
  have hpaths := congrArg (List.length ∘ Prod.snd) h
  rw [Pending.run, if_neg hne] at hentries
  simp only [Function.comp_apply, Pending.run, if_neg hne, List.length_append,
    filterMap_cons_eq] at hpaths
  have hbound := length_run_le (p.next f) files
  unfold Pending.Joins
  cases p with
  | nothing => trivial
  | changed entry =>
    cases hchange : f.change with
    | modified path | deleted path | renamed old new moved => trivial
    | added path =>
      -- The entry would end with the ranges of the new file.
      obtain ⟨file, more, rest, hrun⟩ := exists_run_changed
        ⟨path, entry.ranges ++ f.hunks.map Hunk.range⟩ files
      have hnext : (Pending.changed entry).next f =
          .changed ⟨path, entry.ranges ++ f.hunks.map Hunk.range⟩ := by
        rw [Pending.next, hchange]
        simp [Pending.entries]
      have hflushed : (Pending.changed entry).flushed f = [] := by
        rw [Pending.flushed, hchange]
      rw [hnext, hflushed, hrun] at hentries
      have hranges := congrArg ChangedRanges.ranges (List.cons.inj hentries).1
      have hlength := congrArg List.length hranges
      simp only [List.length_append, List.length_map] at hlength
      have hpos := List.length_pos_iff.mpr hne
      omega
  | deleted old =>
    -- The path would not be reported.
    cases hchange : f.change with
    | modified path | deleted path | renamed old' new moved =>
      simp only [Pending.reported, Pending.next, hchange, Pending.paths, Change.stalePath,
        Option.toList_none, Option.toList_some, List.length_nil, List.length_singleton]
        at hpaths hbound
      omega
    | added path =>
      intro hsame
      have hnone : [old].filter (· ≠ path) = [] :=
        List.filter_eq_nil_iff.mpr (by simp [hsame])
      simp only [Pending.reported, Pending.next, hchange, Pending.paths, Change.stalePath, hnone,
        Option.toList_none, List.length_nil, List.length_singleton] at hpaths hbound
      omega

/-- Where a file with hunks fits, the rest decides. -/
theorem meets_cons_iff (hne : f.hunks ≠ []) (hjoins : p.Joins f) (hadds : f.Adds) :
    p.Meets (f :: files) ↔ (p.next f).Meets files := by
  obtain ⟨hentries, hpaths⟩ := reports_of_joins hne hjoins hadds
  unfold Pending.Meets
  rw [Pending.run, if_neg hne, filterMap_cons_eq, filterMap_cons_eq, ← List.append_assoc,
    ← List.append_assoc, ← hentries, ← hpaths, List.append_assoc, List.append_assoc,
    Prod.ext_iff, Prod.ext_iff]
  exact and_congr (List.append_right_inj _) (List.append_right_inj _)

/-- A file without hunks is passed over, so that it must have nothing to report. -/
theorem meets_cons_iff_of_nil (hnil : f.hunks = []) :
    p.Meets (f :: files) ↔ f.change.stalePath = none ∧ p.Meets files := by
  have hchanged : f.changed = none := by
    rw [FileDiff.changed, if_pos (by rw [FileDiff.newRanges, hnil]; rfl)]
  unfold Pending.Meets
  rw [Pending.run, if_pos hnil, filterMap_cons_eq, filterMap_cons_eq, hchanged]
  constructor
  · intro h
    have hstale : f.change.stalePath = none := by
      have hlength := congrArg (List.length ∘ Prod.snd) h
      have hbound := length_run_le p files
      cases hpath : f.change.stalePath with
      | none => rfl
      | some path =>
        simp only [hpath, Function.comp_apply, List.length_append, Option.toList_some,
          List.length_singleton] at hlength
        omega
    rw [hstale] at h
    exact ⟨hstale, h⟩
  · rintro ⟨hstale, h⟩
    rw [hstale]
    exact h

theorem filled_next (hadds : f.Adds) (hjoins : p.Joins f) : (p.next f).Filled := by
  have hranges : f.change.newPath ≠ none → ∀ r ∈ f.hunks.map Hunk.range, r.1 ≤ r.2 := by
    intro hnew r hr
    obtain ⟨hunk, hhunk, rfl⟩ := List.mem_map.mp hr
    exact range_filled.mpr (hadds hnew hunk hhunk)
  have hentry : ∀ path ranges, (∀ r ∈ ranges, r.1 ≤ r.2) →
      (Pending.changed ⟨path, ranges⟩).Filled := by
    intro path ranges hall entry hentry
    rw [List.mem_singleton.mp hentry]
    exact hall
  unfold Pending.Joins at hjoins
  unfold Pending.next
  cases hchange : f.change with
  | modified path => exact hentry _ _ (hranges (by rw [hchange]; exact Option.some_ne_none path))
  | renamed old new moved =>
    exact hentry _ _ (hranges (by rw [hchange]; exact Option.some_ne_none new))
  | deleted path => exact fun _ hmem ↦ absurd hmem List.not_mem_nil
  | added path =>
    rw [hchange] at hjoins
    have hnone : p.entries = [] := by
      cases p with
      | nothing => rfl
      | deleted old => rfl
      | changed entry => exact hjoins.elim
    rw [hnone]
    exact hentry _ _ (hranges (by rw [hchange]; exact Option.some_ne_none path))

/-- All is reported exactly when the files have the shapes and the order for it. -/
theorem meets_iff (hp : p.Filled) :
    p.Meets files ↔ (∀ f ∈ files, f.hunks = [] → f.change.stalePath = none) ∧
      (∀ f ∈ files, f.Adds) ∧ (∀ g ∈ (files.filter fun f ↦ f.hunks ≠ []).head?, p.Joins g) ∧
        (files.filter fun f ↦ f.hunks ≠ []).IsChain Follows := by
  induction files generalizing p with
  | nil =>
    have hnil : p.Meets [] := by
      rw [Pending.Meets, List.filterMap_nil, List.filterMap_nil, List.append_nil, List.append_nil]
      rfl
    refine iff_of_true hnil ⟨?_, ?_, ?_, List.isChain_nil⟩
    · exact fun f hf ↦ absurd hf List.not_mem_nil
    · exact fun f hf ↦ absurd hf List.not_mem_nil
    · exact fun g hg ↦ by cases hg
  | cons f files ih =>
    rw [List.forall_mem_cons, List.forall_mem_cons]
    by_cases hnil : f.hunks = []
    · have hadds : f.Adds := fun _ hunk hhunk ↦ by
        rw [hnil] at hhunk
        cases hhunk
      rw [meets_cons_iff_of_nil hnil, ih hp, List.filter_cons_of_neg (by simp [hnil])]
      constructor
      · rintro ⟨hstale, hstales, hall, hrest⟩
        exact ⟨⟨fun _ ↦ hstale, hstales⟩, ⟨hadds, hall⟩, hrest⟩
      · rintro ⟨⟨hstale, hstales⟩, ⟨_, hall⟩, hrest⟩
        exact ⟨hstale hnil, hstales, hall, hrest⟩
    · rw [List.filter_cons_of_pos (by simp [hnil]), List.head?_cons, List.isChain_cons]
      constructor
      · intro h
        have hadds := adds_of_meets hnil hp h
        have hjoins := joins_of_meets hnil h
        obtain ⟨hstales, hall, hhead, hchain⟩ :=
          (ih (filled_next hadds hjoins)).mp ((meets_cons_iff hnil hjoins hadds).mp h)
        refine ⟨⟨fun hempty ↦ absurd hempty hnil, hstales⟩, ⟨hadds, hall⟩, ?_, ?_, hchain⟩
        · rintro _ ⟨⟩
          exact hjoins
        · exact fun g hg ↦ joins_next.mp (hhead g hg)
      · rintro ⟨⟨_, hstales⟩, ⟨hadds, hall⟩, hfirst, hhead, hchain⟩
        have hjoins := hfirst f rfl
        apply (meets_cons_iff hnil hjoins hadds).mpr
        apply (ih (filled_next hadds hjoins)).mpr
        exact ⟨hstales, hall, fun g hg ↦ joins_next.mpr (hhead g hg), hchain⟩

/-- The parser reads a diff for what it is exactly when its files are orderly, where all lines read
as what they are. -/
theorem exact_iff {u : Digits} {quoted : String → String} (h : Readable u files) :
    Exact u quoted files ↔ Orderly files := by
  have hmeets : Exact u quoted files ↔ Pending.nothing.Meets files := by
    rw [Exact, parse_render h]
    rfl
  have hfilled : Pending.nothing.Filled := fun _ hmem ↦ absurd hmem List.not_mem_nil
  rw [hmeets, meets_iff hfilled]
  constructor
  · rintro ⟨hstale, hadds, _, hchain⟩
    exact ⟨hstale, hadds, hchain⟩
  · rintro ⟨hstale, hadds, hchain⟩
    exact ⟨hstale, hadds, fun _ _ ↦ trivial, hchain⟩

end Reports

/-- What `detect_changes_from_diff` goes on with. -/
theorem diffResult_render {u : Digits} {quoted : String → String} {files : List FileDiff}
    (h : Readable u files) (horderly : Orderly files) (stderr : String) :
    diffResult u 0 (render quoted files) stderr =
      .parsed (files.filterMap FileDiff.changed) (files.filterMap (·.change.stalePath)) := by
  have hfilled : Pending.nothing.Filled := fun _ hmem ↦ absurd hmem List.not_mem_nil
  have hmeets : Pending.nothing.Meets files := (meets_iff hfilled).mpr
    ⟨horderly.stale, horderly.added, fun _ _ ↦ trivial, horderly.chain⟩
  rw [diffResult, if_neg (fun hzero ↦ hzero rfl), parse_render h, hmeets]
  rfl

/-! ### A changed file and a new one -/

/-- The ASCII digits. -/
def asciiDigits : Digits where
  value c := if c.isDigit then some (c.toNat - '0'.toNat) else none
  ascii := fun _ _ ↦ rfl

/-- The hunk of a file with one line. -/
def oneLine : Hunk where
  oldStart := 0
  newStart := 1
  removed := []
  added := ["x = 1"]
  removedEnd := false
  addedEnd := false
  heading := ""

/-- One line is changed in `app.py`. -/
def appFile : FileDiff where
  change := .modified "app.py"
  extended := []
  letters := fun _ h ↦ absurd h List.not_mem_nil
  hunks := [oneLine]

/-- A new file `db.py`. -/
def dbFile : FileDiff where
  change := .added "db.py"
  extended := []
  letters := fun _ h ↦ absurd h List.not_mem_nil
  hunks := [oneLine]

theorem contents_oneLine : ∀ line ∈ oneLine.contents, ¬ Imitates asciiDigits line := by
  have hcontents : oneLine.contents = ["+x = 1".toList] := by
    decide
  rw [hcontents]
  rintro _ hmem
  rw [List.mem_singleton.mp hmem]
  rintro (hline | hline | hline)
  · revert hline
    decide
  · revert hline
    decide
  · have hstart := hline.1
    revert hstart
    decide

theorem readable_of_subset {files : List FileDiff} (h : files ⊆ [appFile, dbFile]) :
    Readable asciiDigits files := by
  have happ : Plain "app.py" := ⟨by decide, by decide, by decide⟩
  have hdb : Plain "db.py" := ⟨by decide, by decide, by decide⟩
  have hplain : ∀ f ∈ [appFile, dbFile], ∀ path ∈ f.change.paths, Plain path :=
    List.forall_mem_cons.mpr ⟨List.forall_mem_singleton.mpr happ,
      List.forall_mem_singleton.mpr (List.forall_mem_singleton.mpr hdb)⟩
  have hhunks : ∀ f ∈ [appFile, dbFile], f.hunks = [oneLine] :=
    List.forall_mem_cons.mpr ⟨rfl, List.forall_mem_singleton.mpr rfl⟩
  refine ⟨fun f hf _ ↦ hplain f (h hf), ?_⟩
  intro f hf hunk hhunk
  rw [hhunks f (h hf)] at hhunk
  rw [List.mem_singleton.mp hhunk]
  exact contents_oneLine

/-- The new file in front of the changed one. -/
theorem exact_dbFile_appFile : Exact asciiDigits id [dbFile, appFile] :=
  (exact_iff (readable_of_subset (by simp))).mpr
    { stale := by
        rw [List.forall_mem_cons, List.forall_mem_singleton]
        exact ⟨fun _ ↦ rfl, fun _ ↦ rfl⟩
      added := by
        rw [List.forall_mem_cons, List.forall_mem_singleton]
        exact ⟨fun _ ↦ List.forall_mem_singleton.mpr (List.cons_ne_nil _ _),
          fun _ ↦ List.forall_mem_singleton.mpr (List.cons_ne_nil _ _)⟩
      chain := List.isChain_pair.mpr trivial }

/-- Behind the changed one, the new file takes its entry over. -/
theorem not_exact : ¬ ∀ (u : Digits) (quoted : String → String) (files : List FileDiff),
    Exact u quoted files := by
  intro hall
  have hexact := hall asciiDigits id [appFile, dbFile]
  rw [Exact, parse_render (readable_of_subset (List.Subset.refl _))] at hexact
  have hlength := congrArg (List.length ∘ Prod.fst) hexact
  revert hlength
  decide

end GithubAgent.Indexing.GitDiff
