import Mathlib.Data.List.Nodup
import GithubAgent.Indexing.TextSearch

/-!
# The two search engines

When ripgrep and the fallback report the same lines of the same files, below the limit on the
results.
-/

namespace GithubAgent.Indexing

open GithubAgent.Base GithubAgent.Webhook

section Agreement

variable (tables : CharTables) (rg : Ripgrep) (repo : SearchRepo) (symbol : List Char)
  (fileType : Option String)

/-! ### Agreement -/

/-- All lines that ripgrep prints, without a limit. -/
def rgMatches : List RgMatch :=
  ((rg.order repo.files).filter (rg.Searches fileType ·)).flatMap fun f ↦
    (rgLines f).filterMap (rgMatch rg symbol f)

/-- All lines that the fallback reports, without a limit. -/
def reResults (files : List SearchFile) : List SearchResult :=
  (files.filter (ReadByFallback fileType ·)).flatMap fun f ↦
    (reLines f).filterMap (reResult tables symbol f)

/-- The limit is above the number of matches of either engine. -/
def AboveMatches (maxResults : Nat) : Prop :=
  (rgMatches rg repo symbol fileType).length < maxResults ∧
    (reResults tables symbol fileType repo.files).length < maxResults

/-- Neither search fails, and their results have the same places. -/
def SamePlaces {A : Type} (place : A → String × Nat) (found found' : Except SearchError (List A)) :
    Prop :=
  ∃ l l', found = .ok l ∧ found' = .ok l' ∧ ∀ p, p ∈ l.map place ↔ p ∈ l'.map place

/-- Below the limit the two engines report the same lines of the same files, and the references are
the same with ripgrep and without. -/
structure EnginesAgree : Prop where
  engines : ∀ maxResults, AboveMatches tables rg repo symbol fileType maxResults →
    SamePlaces SearchResult.place
      (searchWithRg tables rg repo symbol fileType
        (some (rgOutput rg repo symbol fileType maxResults)) maxResults)
      (.ok (searchWithRe tables repo symbol fileType maxResults))
  references : fileType = none → AboveMatches tables rg repo symbol fileType 50 →
    ∀ definitionLines, SamePlaces Reference.place
      (findReferences tables rg repo symbol true definitionLines)
      (findReferences tables rg repo symbol false definitionLines)

/-! ### The condition -/

/-- The line has the word as it is. -/
def PrintsLine (f : SearchFile) (line : List Char) (n : Nat) : Prop :=
  (line, n) ∈ rgLines f ∧ Occurs (· == ·) rg.isWord symbol line

/-- The line of this number has the word as it is, and its message is not cut. -/
def HasExact (f : SearchFile) (n : Nat) : Prop :=
  ∃ line, PrintsLine rg symbol f line n ∧
    isWhole (messageTexts repo.root f.path line) = true

/-- The line of this number has the word in some case. -/
def HasAnyCase (f : SearchFile) (n : Nat) : Prop :=
  ∃ line, (line, n) ∈ reLines f ∧ Occurs tables.sameCase tables.isWord symbol line

/-- No message is cut into parts that raise an error. -/
def Readable : Prop :=
  ∀ f ∈ repo.files, rg.Searches fileType f → ∀ line n, PrintsLine rg symbol f line n →
    hasValuePart rg (messageTexts repo.root f.path line) = false

/-- Each line that one engine reports of a file is reported by the other, of a file with the same
path, and no message raises an error. -/
structure SearchesAlike : Prop where
  readable : Readable rg repo symbol fileType
  printed : ∀ f ∈ repo.files, rg.Searches fileType f → ∀ n, HasExact rg repo symbol f n →
    ∃ g ∈ repo.files, g.relPath = f.relPath ∧ ReadByFallback fileType g ∧
      HasAnyCase tables symbol g n
  reported : ∀ g ∈ repo.files, ReadByFallback fileType g → ∀ n, HasAnyCase tables symbol g n →
    ∃ f ∈ repo.files, f.relPath = g.relPath ∧ rg.Searches fileType f ∧
      HasExact rg repo symbol f n

/-- Some limit is above the number of matches. -/
theorem exists_aboveMatches :
    ∃ maxResults, AboveMatches tables rg repo symbol fileType maxResults :=
  ⟨(rgMatches rg repo symbol fileType).length +
    (reResults tables symbol fileType repo.files).length + 1, by omega, by omega⟩

variable {tables rg repo symbol fileType}

/-! ### The fallback -/

/-- The loop of the fallback yields the first results of the files that it reads. -/
theorem searchFiles_eq {maxResults : Nat} (files : List SearchFile) :
    ∀ {results : List SearchResult}, results.length ≤ maxResults →
      searchFiles tables symbol fileType maxResults results files =
        (results ++ reResults tables symbol fileType files).take maxResults := by
  unfold reResults
  induction files with
  | nil =>
    intro results h
    rw [searchFiles, List.filter_nil, List.flatMap_nil, List.append_nil,
      List.take_of_length_le h]
  | cons f rest ih =>
    intro results h
    rw [searchFiles, List.filter_cons]
    by_cases hfull : maxResults ≤ results.length
    · have heq : maxResults = results.length := Nat.le_antisymm hfull h
      rw [if_pos hfull, heq, List.take_left]
    · rw [if_neg hfull]
      by_cases hread : ReadByFallback fileType f
      · rw [if_pos hread, if_pos (decide_eq_true hread), List.flatMap_cons, collect_eq _ h,
          ih (List.length_take_le _ _), take_take_append, List.append_assoc]
      · rw [if_neg hread, if_neg (by simpa using hread), ih h]

/-- Below the limit the fallback returns all its results. -/
theorem searchWithRe_eq {maxResults : Nat}
    (h : AboveMatches tables rg repo symbol fileType maxResults) :
    searchWithRe tables repo symbol fileType maxResults =
      reResults tables symbol fileType repo.files := by
  rw [searchWithRe, searchFiles_eq _ (Nat.zero_le _), List.nil_append,
    List.take_of_length_le h.2.le]

/-- A result of the fallback for each line that has the word in some case. -/
theorem mem_reResults {path : String} {n : Nat} :
    (path, n) ∈ (reResults tables symbol fileType repo.files).map SearchResult.place ↔
      ∃ f ∈ repo.files, f.relPath = path ∧ ReadByFallback fileType f ∧
        HasAnyCase tables symbol f n := by
  simp only [reResults, List.mem_map, List.mem_flatMap, List.mem_filter, decide_eq_true_eq,
    List.mem_filterMap]
  constructor
  · rintro ⟨r, ⟨f, ⟨hf, hread⟩, line, hline, hr⟩, hplace⟩
    obtain ⟨m, hm, rfl⟩ := Option.map_eq_some_iff.mp hr
    obtain ⟨rfl, rfl⟩ := Prod.mk.inj hplace
    have hoccurs := searchWord_isSome_iff.mp (Option.isSome_of_eq_some hm)
    exact ⟨f, hf, rfl, hread, line.1, hline, hoccurs⟩
  · rintro ⟨f, hf, rfl, hread, line, hline, hoccurs⟩
    obtain ⟨m, hm⟩ := Option.isSome_iff_exists.mp (searchWord_isSome_iff.mpr hoccurs)
    exact ⟨_, ⟨f, ⟨hf, hread⟩, (line, n), hline, by rw [reResult, hm, Option.map_some]⟩, rfl⟩

/-! ### ripgrep -/

/-- A message for each line of a searched file that has the word as it is. -/
theorem mem_rgMatches {m : RgMatch} :
    m ∈ rgMatches rg repo symbol fileType ↔
      ∃ f ∈ repo.files, rg.Searches fileType f ∧ ∃ line ∈ rgLines f,
        rgMatch rg symbol f line = some m := by
  simp only [rgMatches, List.mem_flatMap, List.mem_filter, decide_eq_true_eq, List.mem_filterMap,
    (rg.order_perm repo.files).mem_iff, and_assoc]

/-- Below the limit ripgrep prints all its matches. -/
theorem rgOutput_eq {maxResults : Nat}
    (h : AboveMatches tables rg repo symbol fileType maxResults) :
    rgOutput rg repo symbol fileType maxResults = rgMatches rg repo symbol fileType := by
  refine List.flatMap_congr fun f hf ↦ List.take_of_length_le ?_
  have hsub : List.Sublist ((rgLines f).filterMap (rgMatch rg symbol f))
      (rgMatches rg repo symbol fileType) :=
    List.sublist_flatten_of_mem (List.mem_map_of_mem hf)
  exact hsub.length_le.trans h.1.le

theorem rgMatch_eq_some {f : SearchFile} {line : List Char × Nat} {m : RgMatch}
    (h : rgMatch rg symbol f line = some m) :
    Occurs (· == ·) rg.isWord symbol line.1 ∧ m.path = f.path ∧ m.lineNumber = line.2 ∧
      m.lines = line.1 := by
  obtain ⟨found, hfound, rfl⟩ := Option.map_eq_some_iff.mp h
  exact ⟨searchWord_isSome_iff.mp (Option.isSome_of_eq_some hfound), rfl, rfl, rfl⟩

theorem exists_rgMatch {f : SearchFile} {line : List Char} {n : Nat}
    (h : Occurs (· == ·) rg.isWord symbol line) : ∃ m, rgMatch rg symbol f (line, n) = some m := by
  obtain ⟨found, hfound⟩ := Option.isSome_iff_exists.mp (searchWord_isSome_iff.mpr h)
  exact ⟨_, by rw [rgMatch, hfound, Option.map_some]⟩

/-- A message that is not cut gives an entry at its place. -/
theorem exists_entry {m : RgMatch} (h : isWhole (messageTexts repo.root m.path m.lines) = true) :
    ∃ r, m.entry repo = some r ∧ r.place = (relativeText m.path, m.lineNumber) :=
  ⟨_, by rw [RgMatch.entry, if_pos h], rfl⟩

theorem entry_eq_some {m : RgMatch} {r : SearchResult} (h : m.entry repo = some r) :
    isWhole (messageTexts repo.root m.path m.lines) = true ∧
      r.place = (relativeText m.path, m.lineNumber) := by
  rw [RgMatch.entry] at h
  split at h
  · next hwhole =>
    cases h
    exact ⟨hwhole, rfl⟩
  · cases h

/-- The places of the messages that are not cut. -/
theorem mem_entries {path : String} {n : Nat} :
    (path, n) ∈ ((rgMatches rg repo symbol fileType).filterMap (RgMatch.entry repo)).map
        SearchResult.place ↔
      ∃ f ∈ repo.files, f.relPath = path ∧ rg.Searches fileType f ∧
        HasExact rg repo symbol f n := by
  simp only [List.mem_map, List.mem_filterMap, mem_rgMatches]
  constructor
  · rintro ⟨r, ⟨m, ⟨f, hf, hsearched, line, hline, hm⟩, hr⟩, hplace⟩
    obtain ⟨hoccurs, hpath, hnumber, hlines⟩ := rgMatch_eq_some hm
    obtain ⟨hwhole, hentry⟩ := entry_eq_some hr
    rw [hentry, hpath, hnumber] at hplace
    rw [hpath, hlines] at hwhole
    obtain ⟨rfl, rfl⟩ := Prod.mk.inj hplace
    exact ⟨f, hf, rfl, hsearched, line.1, ⟨hline, hoccurs⟩, hwhole⟩
  · rintro ⟨f, hf, rfl, hsearched, line, ⟨hline, hoccurs⟩, hwhole⟩
    obtain ⟨m, hm⟩ := exists_rgMatch (f := f) (n := n) hoccurs
    obtain ⟨-, hpath, hnumber, hlines⟩ := rgMatch_eq_some hm
    have hmessage : isWhole (messageTexts repo.root m.path m.lines) = true := by
      rwa [hpath, hlines]
    obtain ⟨r, hr, hentry⟩ := exists_entry hmessage
    refine ⟨r, ⟨m, ⟨f, hf, hsearched, _, hline, hm⟩, hr⟩, ?_⟩
    rw [hentry, hpath, hnumber, SearchFile.relPath]

theorem searchWithRg_eq_ok {maxResults : Nat}
    (h : AboveMatches tables rg repo symbol fileType maxResults)
    (hreadable : Readable rg repo symbol fileType) :
    searchWithRg tables rg repo symbol fileType
        (some (rgOutput rg repo symbol fileType maxResults)) maxResults =
      .ok ((rgMatches rg repo symbol fileType).filterMap (RgMatch.entry repo)) := by
  have hparse (m : RgMatch) (hm : m ∈ rgMatches rg repo symbol fileType) :
      parseRgMatch rg repo m = .ok (m.entry repo) := by
    obtain ⟨f, hf, hsearched, line, hline, hm⟩ := mem_rgMatches.mp hm
    obtain ⟨hoccurs, hpath, -, hlines⟩ := rgMatch_eq_some hm
    have hvalue := hreadable f hf hsearched line.1 line.2 ⟨hline, hoccurs⟩
    rw [parseRgMatch, hpath, hlines, hvalue]
    rfl
  rw [searchWithRg, rgOutput_eq h, collectOrFail_eq_ok hparse, collect_eq _ (Nat.zero_le _),
    List.nil_append, List.take_of_length_le]
  exact (List.length_filterMap_le _ _).trans h.1.le

theorem searchWithRg_eq_error {maxResults : Nat}
    (h : AboveMatches tables rg repo symbol fileType maxResults)
    (hreadable : ¬ Readable rg repo symbol fileType) :
    ∃ e, searchWithRg tables rg repo symbol fileType
      (some (rgOutput rg repo symbol fileType maxResults)) maxResults = .error e := by
  simp only [Readable, not_forall, Bool.not_eq_false] at hreadable
  obtain ⟨f, hf, hsearched, line, n, ⟨hline, hoccurs⟩, hvalue⟩ := hreadable
  obtain ⟨m, hm⟩ := exists_rgMatch (f := f) (n := n) hoccurs
  obtain ⟨-, hpath, -, hlines⟩ := rgMatch_eq_some hm
  have hmem : m ∈ rgMatches rg repo symbol fileType :=
    mem_rgMatches.mpr ⟨f, hf, hsearched, _, hline, hm⟩
  have hfail : parseRgMatch rg repo m = .error .attributeError := by
    rw [parseRgMatch, hpath, hlines, if_pos hvalue]
  rw [searchWithRg, rgOutput_eq h]
  exact collectOrFail_eq_error hmem hfail (by simpa using h.1)

/-! ### Repositories with plain lines -/

/-- The newline is the only line break of the texts, and the paths have none that JSON does not
escape. -/
structure PlainLines (repo : SearchRepo) : Prop where
  texts : ∀ f ∈ repo.files, ∀ text, f.text = some text → ∀ c ∈ text,
    isLineBreak c = true → c = '\n'
  paths : ∀ f ∈ repo.files, ∀ c ∈ repo.root ++ '/' :: ("/".intercalate f.path).toList,
    isRawBreak c = false

theorem isLineBreak_of_isRawBreak {c : Char} (h : isRawBreak c = true) : isLineBreak c = true := by
  simp only [isRawBreak, isLineBreak, List.mem_cons, List.not_mem_nil, or_false,
    decide_eq_true_eq] at h ⊢
  omega

/-- A message that is not cut has no parts. -/
theorem hasValuePart_eq_false {texts : List (List Char)} (h : isWhole texts = true) :
    hasValuePart rg texts = false := by
  refine List.any_eq_false.mpr fun text htext ↦ ?_
  have hraw : ∀ c ∈ text, isRawBreak c = false := by
    intro c hc
    simpa using List.all_eq_true.mp (List.all_eq_true.mp h text htext) c hc
  rw [List.splitOnP_eq_singleton hraw]
  exact Bool.false_ne_true

theorem rgLines_eq {f : SearchFile} {text : List Char} (h : f.text = some text) :
    rgLines f = (text.splitOn '\n').zipIdx 1 := by
  rw [rgLines, h]

theorem reLines_eq {f : SearchFile} {text : List Char} (h : f.text = some text) :
    reLines f = (splitlines text).zipIdx 1 := by
  rw [reLines, h]

/-- A line that is read is of a text. -/
theorem exists_text {f : SearchFile} {line : List Char × Nat} (h : line ∈ rgLines f) :
    ∃ text, f.text = some text := by
  refine Option.ne_none_iff_exists'.mp fun hnone ↦ ?_
  rw [rgLines, hnone] at h
  cases h

/-- A number belongs to one line. -/
theorem rgLines_unique {f : SearchFile} {line line' : List Char} {n : Nat}
    (h : (line, n) ∈ rgLines f) (h' : (line', n) ∈ rgLines f) : line = line' := by
  obtain ⟨text, htext⟩ := exists_text h
  rw [rgLines_eq htext] at h h'
  rw [(List.mem_zipIdx h).2.2, (List.mem_zipIdx h').2.2]

/-- In plain lines that are not empty, both engines see the same. -/
theorem mem_rgLines_iff (hplain : PlainLines repo) {f : SearchFile} (hf : f ∈ repo.files)
    {line : List Char} {n : Nat} (hline : line ≠ []) :
    (line, n) ∈ rgLines f ↔ (line, n) ∈ reLines f := by
  cases htext : f.text with
  | none => rw [rgLines, reLines, htext]
  | some text =>
    rw [rgLines_eq htext, reLines_eq htext]
    obtain heq | heq := splitOn_newline_eq (hplain.texts f hf text htext)
    · rw [heq]
    · rw [heq, List.zipIdx_append, List.mem_append]
      refine or_iff_left fun hlast ↦ hline ?_
      exact congrArg Prod.fst (List.mem_singleton.mp hlast)

/-- No message about a plain line is cut. -/
theorem isWhole_messageTexts (hplain : PlainLines repo) {f : SearchFile} (hf : f ∈ repo.files)
    {line : List Char} {n : Nat} (hline : (line, n) ∈ rgLines f) :
    isWhole (messageTexts repo.root f.path line) = true := by
  obtain ⟨text, htext⟩ := exists_text hline
  rw [rgLines_eq htext] at hline
  have hmem : line ∈ text.splitOn '\n' := List.fst_mem_of_mem_zipIdx hline
  have hraw (c : Char) (hc : c ∈ line) : isRawBreak c = false := by
    rw [← Bool.not_eq_true]
    intro hbreak
    have hnewline := hplain.texts f hf text htext c (mem_of_mem_splitOn hmem hc)
      (isLineBreak_of_isRawBreak hbreak)
    rw [hnewline] at hbreak
    exact Bool.false_ne_true hbreak
  have hpath := hplain.paths f hf
  simp only [isWhole, messageTexts, List.all_cons, List.all_nil, Bool.and_true, Bool.and_eq_true,
    List.all_eq_true, Bool.not_eq_true']
  exact ⟨hpath, hraw⟩

/-! ### The agreement of the engines -/

/-- With such a limit the results have the same places exactly under the condition. -/
theorem samePlaces_iff {maxResults : Nat}
    (h : AboveMatches tables rg repo symbol fileType maxResults) :
    SamePlaces SearchResult.place
        (searchWithRg tables rg repo symbol fileType
          (some (rgOutput rg repo symbol fileType maxResults)) maxResults)
        (.ok (searchWithRe tables repo symbol fileType maxResults)) ↔
      SearchesAlike tables rg repo symbol fileType := by
  rw [searchWithRe_eq h]
  by_cases hreadable : Readable rg repo symbol fileType
  · rw [searchWithRg_eq_ok h hreadable]
    constructor
    · rintro ⟨l, l', hl, hl', hsame⟩
      cases hl
      cases hl'
      refine ⟨hreadable, fun f hf hsearched n hexact ↦ ?_, fun g hg hread n hany ↦ ?_⟩
      · exact mem_reResults.mp ((hsame _).mp (mem_entries.mpr ⟨f, hf, rfl, hsearched, hexact⟩))
      · exact mem_entries.mp ((hsame _).mpr (mem_reResults.mpr ⟨g, hg, rfl, hread, hany⟩))
    · intro halike
      refine ⟨_, _, rfl, rfl, fun (path, n) ↦ ?_⟩
      rw [mem_entries, mem_reResults]
      constructor
      · rintro ⟨f, hf, rfl, hsearched, hexact⟩
        exact halike.printed f hf hsearched n hexact
      · rintro ⟨g, hg, rfl, hread, hany⟩
        exact halike.reported g hg hread n hany
  · obtain ⟨e, he⟩ := searchWithRg_eq_error h hreadable
    rw [he]
    refine iff_of_false ?_ fun halike ↦ hreadable halike.readable
    rintro ⟨l, l', hl, -, -⟩
    cases hl

/-- The references are at the places of the results that are no definitions. -/
theorem mem_referencesIn {definitionLines : List (String × Nat)} {results : List SearchResult}
    {p : String × Nat} : ∀ {seen : List (String × Nat)},
    p ∈ (referencesIn definitionLines seen results).map Reference.place ↔
      p ∈ results.map SearchResult.place ∧ p ∉ definitionLines ∧ p ∉ seen := by
  induction results with
  | nil => simp [referencesIn]
  | cons r rest ih =>
    intro seen
    rw [referencesIn, List.map_cons, List.mem_cons]
    split
    · next hdefinition =>
      rw [List.contains_iff_mem] at hdefinition
      rw [ih]
      grind
    · next hother =>
      rw [List.contains_iff_mem] at hother
      split
      · next hseen =>
        rw [List.contains_iff_mem] at hseen
        rw [ih]
        grind
      · next hnew =>
        rw [List.contains_iff_mem] at hnew
        have hplace : Reference.place ⟨r.file, r.line, r.context⟩ = r.place := rfl
        rw [List.map_cons, List.mem_cons, ih, hplace]
        grind

/-- Searches with the same places give references with the same places. -/
theorem SamePlaces.references {found found' : Except SearchError (List SearchResult)}
    (h : SamePlaces SearchResult.place found found') (definitionLines : List (String × Nat)) :
    SamePlaces Reference.place (found.map (referencesIn definitionLines []))
      (found'.map (referencesIn definitionLines [])) := by
  obtain ⟨l, l', rfl, rfl, hsame⟩ := h
  refine ⟨_, _, rfl, rfl, fun p ↦ ?_⟩
  rw [mem_referencesIn, mem_referencesIn, hsame]

/-- The two engines agree exactly when each line that one of them reports is reported by the
other and no message raises an error. -/
theorem enginesAgree_iff :
    EnginesAgree tables rg repo symbol fileType ↔ SearchesAlike tables rg repo symbol fileType := by
  constructor
  · intro hagree
    obtain ⟨maxResults, habove⟩ := exists_aboveMatches tables rg repo symbol fileType
    exact (samePlaces_iff habove).mp (hagree.engines maxResults habove)
  · intro halike
    refine ⟨fun maxResults habove ↦ (samePlaces_iff habove).mpr halike, ?_⟩
    rintro rfl habove definitionLines
    exact ((samePlaces_iff habove).mpr halike).references definitionLines

/-- ASCII letters, digits and `_`, and the case of ASCII letters. -/
def asciiTables : CharTables where
  isWord c := c.isAlphanum || c == '_'
  sameCase c d := c.toLower == d.toLower
  sameCase_refl _ := beq_self_eq_true _

/-- ripgrep with the type of Python files only. -/
def pythonRipgrep : Ripgrep where
  isWord := asciiTables.isWord
  hasType type name := type == "py" && ".py".toList.isSuffixOf name.toList
  order files := files
  order_perm _ := List.Perm.refl _
  readsAsValue _ := false

/-- A function `run` that calls a class `Run`. -/
def runFile : SearchFile where
  directory := []
  name := "app.py"
  text := some "def run():\n    return Run()\n".toList

def runRepo : SearchRepo where
  root := "/workspace".toList
  files := [runFile]
  visible := by
    intro f hf part hpart
    obtain rfl := List.mem_singleton.mp hf
    obtain rfl := List.mem_singleton.mp hpart
    decide

/-- Only the fallback takes `Run` for a reference to `run`. -/
theorem not_enginesAgree_runRepo :
    ¬ EnginesAgree asciiTables pythonRipgrep runRepo "run".toList none := by
  intro hagree
  obtain ⟨maxResults, habove⟩ :=
    exists_aboveMatches asciiTables pythonRipgrep runRepo "run".toList none
  have halike := (samePlaces_iff habove).mp (hagree.engines maxResults habove)
  have hany : HasAnyCase asciiTables "run".toList runFile 2 :=
    ⟨"    return Run()".toList, by decide, searchWord_isSome_iff.mp (by decide)⟩
  obtain ⟨f, hf, -, -, line, ⟨hline, hoccurs⟩, -⟩ :=
    halike.reported runFile List.mem_cons_self (by decide) 2 hany
  obtain rfl := List.mem_singleton.mp hf
  have hreturn : line = "    return Run()".toList := rgLines_unique hline (by decide)
  rw [hreturn, Occurs, ← searchWord_isSome_iff] at hoccurs
  revert hoccurs
  decide

/-! ### What the condition amounts to -/

/-- Where no two files have the same path: files that one engine reads alone have no line that it
reports, and in a file that both read, the lines with the word in some case are those with the word
as it is. -/
theorem searchesAlike_iff_of_distinct (hdistinct : (repo.files.map SearchFile.relPath).Nodup) :
    SearchesAlike tables rg repo symbol fileType ↔
      Readable rg repo symbol fileType ∧
      (∀ f ∈ repo.files, rg.Searches fileType f → ¬ ReadByFallback fileType f →
        ∀ n, ¬ HasExact rg repo symbol f n) ∧
      (∀ f ∈ repo.files, ReadByFallback fileType f → ¬ rg.Searches fileType f →
        ∀ n, ¬ HasAnyCase tables symbol f n) ∧
      ∀ f ∈ repo.files, rg.Searches fileType f → ReadByFallback fileType f →
        ∀ n, HasExact rg repo symbol f n ↔ HasAnyCase tables symbol f n := by
  have hinj {f g : SearchFile} (hf : f ∈ repo.files) (hg : g ∈ repo.files)
      (h : f.relPath = g.relPath) : f = g := List.inj_on_of_nodup_map hdistinct hf hg h
  constructor
  · intro halike
    have hprinted (f : SearchFile) (hf : f ∈ repo.files) (hsearched : rg.Searches fileType f)
        (n : Nat) (hexact : HasExact rg repo symbol f n) :
        ReadByFallback fileType f ∧ HasAnyCase tables symbol f n := by
      obtain ⟨g, hg, hpath, hread, hany⟩ := halike.printed f hf hsearched n hexact
      obtain rfl := hinj hg hf hpath
      exact ⟨hread, hany⟩
    have hreported (g : SearchFile) (hg : g ∈ repo.files) (hread : ReadByFallback fileType g)
        (n : Nat) (hany : HasAnyCase tables symbol g n) :
        rg.Searches fileType g ∧ HasExact rg repo symbol g n := by
      obtain ⟨f, hf, hpath, hsearched, hexact⟩ := halike.reported g hg hread n hany
      obtain rfl := hinj hf hg hpath
      exact ⟨hsearched, hexact⟩
    refine ⟨halike.readable, ?_, ?_, ?_⟩
    · exact fun f hf hsearched hunread n hexact ↦ hunread (hprinted f hf hsearched n hexact).1
    · exact fun g hg hread hunsearched n hany ↦ hunsearched (hreported g hg hread n hany).1
    · exact fun f hf hsearched hread n ↦
        ⟨fun hexact ↦ (hprinted f hf hsearched n hexact).2,
          fun hany ↦ (hreported f hf hread n hany).2⟩
  · rintro ⟨hreadable, honlyRg, honlyRe, hboth⟩
    refine ⟨hreadable, fun f hf hsearched n hexact ↦ ?_, fun g hg hread n hany ↦ ?_⟩
    · by_cases hread : ReadByFallback fileType f
      · exact ⟨f, hf, rfl, hread, (hboth f hf hsearched hread n).mp hexact⟩
      · exact absurd hexact (honlyRg f hf hsearched hread n)
    · by_cases hsearched : rg.Searches fileType g
      · exact ⟨g, hg, rfl, hsearched, (hboth g hg hsearched hread n).mpr hany⟩
      · exact absurd hany (honlyRe g hg hread hsearched n)

/-- Where lines are plain and both engines read the same files, only the case of letters makes a
difference. -/
theorem searchesAlike_iff_of_plain (hdistinct : (repo.files.map SearchFile.relPath).Nodup)
    (hplain : PlainLines repo) (hword : rg.isWord = tables.isWord)
    (hfiles : ∀ f ∈ repo.files, rg.Searches fileType f ↔ ReadByFallback fileType f) :
    SearchesAlike tables rg repo symbol fileType ↔
      ∀ f ∈ repo.files, rg.Searches fileType f → ∀ line n, (line, n) ∈ rgLines f →
        Occurs tables.sameCase tables.isWord symbol line →
        Occurs (· == ·) tables.isWord symbol line := by
  have hexact {f : SearchFile} (hf : f ∈ repo.files) (n : Nat) :
      HasExact rg repo symbol f n ↔
        ∃ line, (line, n) ∈ rgLines f ∧ Occurs (· == ·) tables.isWord symbol line := by
    refine exists_congr fun line ↦ ?_
    rw [PrintsLine, hword, and_iff_left_of_imp]
    exact fun hline ↦ isWhole_messageTexts hplain hf hline.1
  have hany {f : SearchFile} (hf : f ∈ repo.files) (n : Nat) :
      HasAnyCase tables symbol f n ↔
        ∃ line, (line, n) ∈ rgLines f ∧ Occurs tables.sameCase tables.isWord symbol line :=
    exists_congr fun line ↦
      and_congr_left fun hoccurs ↦ (mem_rgLines_iff hplain hf hoccurs.ne_nil).symm
  rw [searchesAlike_iff_of_distinct hdistinct]
  constructor
  · rintro ⟨-, -, -, hboth⟩ f hf hsearched line n hline hoccurs
    have hfound := (hboth f hf hsearched ((hfiles f hf).mp hsearched) n).mpr
      ((hany hf n).mpr ⟨line, hline, hoccurs⟩)
    obtain ⟨line', hline', hoccurs'⟩ := (hexact hf n).mp hfound
    rwa [rgLines_unique hline hline']
  · intro hcase
    refine ⟨fun f hf hsearched line n hline ↦ ?_, fun f hf hsearched hunread ↦ ?_,
      fun f hf hread hunsearched ↦ ?_, fun f hf hsearched hread n ↦ ?_⟩
    · exact hasValuePart_eq_false (isWhole_messageTexts hplain hf hline.1)
    · exact absurd ((hfiles f hf).mp hsearched) hunread
    · exact absurd ((hfiles f hf).mpr hread) hunsearched
    · rw [hexact hf, hany hf]
      refine exists_congr fun line ↦ and_congr_right fun hline ↦ ?_
      refine ⟨fun hoccurs ↦ hoccurs.mono fun c d hsame ↦ ?_, hcase f hf hsearched line n hline⟩
      rw [← eq_of_beq hsame]
      exact tables.sameCase_refl c

end Agreement

end GithubAgent.Indexing
