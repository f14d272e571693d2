import GithubAgent.Indexing.Queries
import Mathlib.Tactic.ByContra

/-!
# The definitions in a range of lines

`get_impact` takes the definitions that lie within the lines it is asked about, and
`detect_changes_from_diff` those that overlap a changed range. Both are compared with the
definitions that share a line with the range.
-/

namespace GithubAgent.Indexing.SymbolIndex

open GithubAgent.Base

/-- All definitions of a file. -/
def fileSymbols (t : Tables) (filePath repo : String) : List SymbolInfo :=
  (fileDefinitions t filePath none none repo).map symbolInfo

/-- The definition and the range have a line in common; a range without an end is open. -/
def SymbolInfo.Shares (d : SymbolInfo) (startLine : Int) (endLine : Option Int) : Prop :=
  ∃ n : Int, d.line ≤ n ∧ n ≤ d.endLine ∧ startLine ≤ n ∧ ∀ e ∈ endLine, n ≤ e

/-- The definition lies within the range. -/
def SymbolInfo.Within (d : SymbolInfo) (startLine : Int) (endLine : Option Int) : Prop :=
  startLine ≤ d.line ∧ ∀ e ∈ endLine, (d.endLine : Int) ≤ e

/-- `get_impact` for a range, and `detect_changes_from_diff` for a changed one, start from the
definitions of the file that share a line with the range. -/
structure SelectsShared (t : Tables) (filePath repo : String) (startLine : Int)
    (endLine : Option Int) : Prop where
  impact : ∀ iterate maxDepth direction caches answer,
    (getImpact t iterate ⟨filePath, some startLine, endLine, maxDepth, direction⟩ repo caches).1 =
      some answer →
    ∀ d, d ∈ answer.symbolsInRange ↔
      d ∈ fileSymbols t filePath repo ∧ d.Shares startLine endLine
  changes : ∀ e ∈ endLine, ∀ d, d ∈ getSymbolsInRange t filePath (startLine, e) repo ↔
    d ∈ fileSymbols t filePath repo ∧ d.Shares startLine endLine

/-- No definition reaches over an end of the range, none within it is without lines, and none lies
around a range without lines. -/
structure Separated (t : Tables) (filePath repo : String) (startLine : Int)
    (endLine : Option Int) : Prop where
  within : ∀ d ∈ fileSymbols t filePath repo, d.Shares startLine endLine →
    d.Within startLine endLine
  lines : ∀ d ∈ fileSymbols t filePath repo, d.Within startLine endLine → d.line ≤ d.endLine
  around : ∀ d ∈ fileSymbols t filePath repo, ∀ e ∈ endLine, e < startLine →
    ¬ (d.line ≤ e ∧ startLine ≤ d.endLine)

/-! ### The two selections -/

section Selections

variable {t : Tables} {filePath repo : String} {startLine : Int} {endLine : Option Int}
  {d : SymbolInfo}

/-- What a query adds to another is looked for in its answer. -/
theorem mem_select_iff {p base : Row → Bool} {Q : SymbolInfo → Prop}
    (h : ∀ row, p row = true ↔ base row = true ∧ Q (symbolInfo (tagOfRow row))) :
    d ∈ (t.select p).map symbolInfo ↔ d ∈ (t.select base).map symbolInfo ∧ Q d := by
  simp only [Tables.select, List.mem_map, List.mem_filter]
  constructor
  · rintro ⟨_, ⟨row, ⟨hrow, hp⟩, rfl⟩, rfl⟩
    obtain ⟨hbase, hQ⟩ := (h row).mp hp
    exact ⟨⟨_, ⟨row, ⟨hrow, hbase⟩, rfl⟩, rfl⟩, hQ⟩
  · rintro ⟨⟨_, ⟨row, ⟨hrow, hbase⟩, rfl⟩, rfl⟩, hQ⟩
    exact ⟨_, ⟨row, ⟨hrow, (h row).mpr ⟨hbase, hQ⟩⟩, rfl⟩, rfl⟩

/-- The query of `get_impact` selects the definitions within the range. -/
theorem mem_fileDefinitions_iff :
    d ∈ (fileDefinitions t filePath (some startLine) endLine repo).map symbolInfo ↔
      d ∈ fileSymbols t filePath repo ∧ d.Within startLine endLine := by
  apply mem_select_iff
  intro row
  have hwithin : withinLines (some startLine) endLine row = true ↔
      (symbolInfo (tagOfRow row)).Within startLine endLine := by
    cases endLine with
    | none => simp [withinLines, SymbolInfo.Within, symbolInfo, tagOfRow]
    | some e => simp [withinLines, SymbolInfo.Within, symbolInfo, tagOfRow]
  have hall : withinLines none none row = true := rfl
  simp only [decide_eq_true_iff, hwithin, hall, and_true, and_assoc]

/-- The query for a changed range selects those that overlap it. -/
theorem mem_getSymbolsInRange_iff {e : Int} :
    d ∈ getSymbolsInRange t filePath (startLine, e) repo ↔
      d ∈ fileSymbols t filePath repo ∧ (d.line : Int) ≤ e ∧ startLine ≤ d.endLine := by
  apply mem_select_iff
  intro row
  simp only [decide_eq_true_iff, withinLines, and_true, symbolInfo, tagOfRow]
  tauto

/-- `get_impact` always returns, with what its query selects and the importers in the cache. -/
theorem exists_getImpact (t : Tables) (iterate : Finset String → List String) (args : ImpactArgs)
    (repo : String) (caches : Caches) :
    ∃ answer, (getImpact t iterate args repo caches).1 = some answer ∧
      answer.symbolsInRange =
        (fileDefinitions t args.filePath args.startLine args.endLine repo).map symbolInfo ∧
      answer.importedBy = sorted
        (sources ((loadOnce t.loadEdges repo caches.edges).value .imports) args.filePath) := by
  unfold getImpact
  by_cases hup : args.direction ∈ ["upstream", "both"]
  · by_cases hdown : args.direction ∈ ["downstream", "both"]
    · simp only [if_pos hup, if_pos hdown]
      exact ⟨_, rfl, rfl, rfl⟩
    · simp only [if_pos hup, if_neg hdown]
      exact ⟨_, rfl, rfl, rfl⟩
  · by_cases hdown : args.direction ∈ ["downstream", "both"]
    · simp only [if_neg hup, if_pos hdown]
      exact ⟨_, rfl, rfl, rfl⟩
    · simp only [if_neg hup, if_neg hdown]
      exact ⟨_, rfl, rfl, rfl⟩

/-- A line in common, by the ends of both. -/
theorem shares_iff :
    d.Shares startLine endLine ↔ (d.line : Int) ≤ d.endLine ∧ startLine ≤ d.endLine ∧
      ∀ e ∈ endLine, (d.line : Int) ≤ e ∧ startLine ≤ e := by
  constructor
  · rintro ⟨n, hline, hend, hstart, hrange⟩
    refine ⟨by omega, by omega, fun e he ↦ ?_⟩
    have hle := hrange e he
    constructor <;> omega
  · rintro ⟨hlines, hstart, hrange⟩
    refine ⟨max d.line startLine, le_max_left _ _, max_le hlines hstart, le_max_right _ _, ?_⟩
    intro e he
    exact max_le (hrange e he).1 (hrange e he).2

/-- What `get_impact` starts from. -/
theorem impact_iff :
    (∀ iterate maxDepth direction caches answer,
      (getImpact t iterate ⟨filePath, some startLine, endLine, maxDepth, direction⟩ repo caches).1 =
        some answer →
      ∀ d, d ∈ answer.symbolsInRange ↔
        d ∈ fileSymbols t filePath repo ∧ d.Shares startLine endLine) ↔
      ∀ d ∈ fileSymbols t filePath repo,
        d.Within startLine endLine ↔ d.Shares startLine endLine := by
  constructor
  · intro hall d hd
    obtain ⟨answer, hanswer, hsymbols, -⟩ := exists_getImpact t (fun names ↦ sorted names)
      ⟨filePath, some startLine, endLine, 3, "both"⟩ repo .empty
    have hmem := hall _ _ _ _ answer hanswer d
    rw [hsymbols, mem_fileDefinitions_iff, and_congr_right_iff] at hmem
    exact hmem hd
  · intro hall iterate maxDepth direction caches answer hanswer d
    obtain ⟨answer', hanswer', hsymbols, -⟩ := exists_getImpact t iterate
      ⟨filePath, some startLine, endLine, maxDepth, direction⟩ repo caches
    rw [hanswer] at hanswer'
    rw [Option.some.inj hanswer', hsymbols, mem_fileDefinitions_iff]
    exact and_congr_right (hall d)

/-- Both select the definitions that share a line with the range exactly when the range separates
them. -/
theorem selectsShared_iff (t : Tables) (filePath repo : String) (startLine : Int)
    (endLine : Option Int) :
    SelectsShared t filePath repo startLine endLine ↔
      Separated t filePath repo startLine endLine := by
  constructor
  · rintro ⟨himpact, hchanges⟩
    rw [impact_iff] at himpact
    refine ⟨fun d hd ↦ (himpact d hd).mpr, ?_, ?_⟩
    · intro d hd hwithin
      have hshares := shares_iff.mp ((himpact d hd).mp hwithin)
      exact_mod_cast hshares.1
    · intro d hd e he hempty haround
      have hmem := (hchanges e he d).mp (mem_getSymbolsInRange_iff.mpr ⟨hd, haround⟩)
      have hrange := ((shares_iff.mp hmem.2).2.2 e he).2
      omega
  · rintro ⟨hwithin, hlines, haround⟩
    constructor
    · rw [impact_iff]
      intro d hd
      refine ⟨fun hin ↦ ?_, hwithin d hd⟩
      have hle := hlines d hd hin
      obtain ⟨hstart, hend⟩ := hin
      refine shares_iff.mpr ⟨by omega, by omega, fun e he ↦ ?_⟩
      have hend' := hend e he
      constructor <;> omega
    · rintro e he d
      rw [mem_getSymbolsInRange_iff]
      refine and_congr_right fun hd ↦ ⟨fun hoverlap ↦ ?_, fun hshares ↦ ?_⟩
      · rcases Option.mem_def.mp he with rfl
        have hrange : startLine ≤ e := by
          by_contra hempty
          exact haround d hd e rfl (by omega) hoverlap
        have hline : d.line ≤ d.endLine := by
          by_contra hnone
          apply hnone
          refine hlines d hd ⟨by omega, ?_⟩
          rintro _ ⟨⟩
          omega
        refine shares_iff.mpr ⟨by omega, hoverlap.2, ?_⟩
        rintro _ ⟨⟩
        exact ⟨hoverlap.1, hrange⟩
      · have hboth := shares_iff.mp hshares
        exact ⟨(hboth.2.2 e he).1, hboth.2.1⟩

/-- A changed line is in the range of every definition around it, and `get_impact` for the line
selects only the definitions that consist of it. -/
theorem mem_line_iff {n : Nat} (hd : d ∈ fileSymbols t filePath repo)
    (hlines : d.line ≤ d.endLine) :
    (d ∈ getSymbolsInRange t filePath (n, n) repo ↔ d.line ≤ n ∧ n ≤ d.endLine) ∧
      (d ∈ (fileDefinitions t filePath (some n) (some n) repo).map symbolInfo ↔
        d.line = n ∧ d.endLine = n) := by
  rw [mem_getSymbolsInRange_iff, mem_fileDefinitions_iff, and_iff_right hd, and_iff_right hd]
  refine ⟨by omega, ?_⟩
  constructor
  · rintro ⟨hstart, hend⟩
    have hend' := hend n rfl
    omega
  · rintro ⟨hline, hend⟩
    refine ⟨by omega, ?_⟩
    rintro _ ⟨⟩
    omega

end Selections

/-! ### A line of a function -/

/-- A function on the lines 1 to 10 of `app.py`. -/
def functionRow : Row where
  name := "handle"
  kind := "definition"
  category := "function"
  filepath := "app.py"
  line := 1
  endLine := 10
  language := "python"
  repo := "o/r"
  embedding := none
  content := ""

/-- The index of the repository. -/
def functionTables : Tables where
  db := Database.empty.insertSymbols [("id", functionRow)]
  containsEdges := []

/-- A change of line 5 is a change of the function, of which `get_impact` does not know. -/
theorem not_selectsShared : ¬ ∀ (t : Tables) (filePath repo : String) (startLine : Int)
    (endLine : Option Int), SelectsShared t filePath repo startLine endLine := by
  intro hall
  have hdefinition : symbolInfo (tagOfRow functionRow) ∈
      fileSymbols functionTables "app.py" "o/r" := by
    decide
  have hshares : (symbolInfo (tagOfRow functionRow)).Shares 5 (some 5) := by
    refine ⟨5, by decide, by decide, le_rfl, ?_⟩
    rintro _ ⟨⟩
    exact le_rfl
  have hwithin := (impact_iff.mp (hall functionTables "app.py" "o/r" 5 (some 5)).impact _
    hdefinition).mpr hshares
  revert hwithin
  rintro ⟨hstart, _⟩
  revert hstart
  decide

end GithubAgent.Indexing.SymbolIndex
