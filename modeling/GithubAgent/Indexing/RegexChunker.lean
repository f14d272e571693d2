import GithubAgent.Base.TextLines
import GithubAgent.Indexing.Embedding
import GithubAgent.Indexing.ImportResolver

/-!
# The regex chunker

`_chunk_with_regex` of `src/shared/chunker.py`, which cuts a text before each line that a pattern
matches. What a pattern matches is given.
-/

namespace GithubAgent.Indexing

open GithubAgent.Base GithubAgent.Webhook

/-- A pattern with its kind. `matchLine` says of a line whether it matches, with the text of the
last group that took part, if there is one. -/
structure LinePattern where
  kind : ChunkKind
  matchLine : List Char → Option (Option String)

/-! ### The chunks -/

/-- `Path(rel_path).stem`. -/
def fileStem (relPath : String) : String :=
  nameStem (String.ofList ((relPath.toList.splitOn '/').getLastD []))

/-- `not line.strip()`. -/
def isBlank (line : List Char) : Bool := line.all isSpace

/-- The kind and the name from the first pattern that matches (`chunker.py:489-494`). -/
def definitionStart (patterns : List LinePattern) (line : List Char) :
    Option (ChunkKind × String) :=
  patterns.findSome? fun p ↦ (p.matchLine line).map fun group ↦ (p.kind, group.getD "unknown")

/-- `def_starts`: the lines that match, counted from 0 (`chunker.py:486-494`). -/
def defStarts (patterns : List LinePattern) (lines : List (List Char)) :
    List (Nat × ChunkKind × String) :=
  lines.zipIdx.filterMap fun line ↦ (definitionStart patterns line.1).map (line.2, ·)

/-- The `while` loop that leaves out blank lines at the end (`chunker.py:518-519`). -/
def trimBlank (lines : List (List Char)) (startIdx : Nat) : (endIdx : Nat) → Nat
  | 0 => 0
  | endIdx + 1 =>
    if startIdx < endIdx + 1 ∧ isBlank (lines.getD (endIdx + 1) []) then
      trimBlank lines startIdx endIdx
    else endIdx + 1

/-- The last line before the next start, or the last one of all (`chunker.py:512-515`). -/
def endBefore (lines : List (List Char)) : List (Nat × ChunkKind × String) → Nat
  | (next, _) :: _ => next - 1
  | [] => lines.length - 1

/-- `"\n".join(lines[start : end])`. -/
def joinSlice (lines : List (List Char)) (start stop : Nat) : String :=
  String.ofList (['\n'].intercalate ((lines.take stop).drop start))

/-- The loop over the starts (`chunker.py:510-533`). -/
def chunksFrom (relPath language : String) (lines : List (List Char)) :
    List (Nat × ChunkKind × String) → List Chunk
  | [] => []
  | (startIdx, kind, name) :: rest =>
    let endIdx := trimBlank lines startIdx (endBefore lines rest)
    { filepath := relPath
      name := name
      kind := kind
      language := language
      startLine := startIdx + 1
      endLine := endIdx + 1
      content := joinSlice lines startIdx (endIdx + 1) } :: chunksFrom relPath language lines rest

/-- `_chunk_with_regex` (`chunker.py:475-534`). -/
def chunkWithRegex (source : String) (relPath language : String) (patterns : List LinePattern) :
    List Chunk :=
  let lines := splitlines source.toList
  if lines = [] then []
  else
    match defStarts patterns lines with
    | [] =>
      [{ filepath := relPath
         name := fileStem relPath
         kind := .module
         language := language
         startLine := 1
         endLine := lines.length
         content := source }]
    | starts => chunksFrom relPath language lines starts

/-! ### A partition of the file -/

/-- Some pattern matches the line. -/
def isStart (patterns : List LinePattern) (line : List Char) : Bool :=
  patterns.any fun p ↦ (p.matchLine line).isSome

/-- The numbers of the lines that a pattern matches, counted from 1, in their order. -/
def startNumbers (patterns : List LinePattern) (lines : List (List Char)) : List Nat :=
  ((lines.zipIdx 1).filter fun line ↦ isStart patterns line.1).map Prod.snd

/-- The chunks of a text with these lines: their ranges are not empty, lie in the file and follow
one another. Where a pattern matches, a chunk begins at each line that is matched, has the lines of
its range, and each line from the first match on that is not blank is in one; else the whole text is
one chunk. -/
structure PartitionsFile (source : String) (lines : List (List Char)) (patterns : List LinePattern)
    (chunks : List Chunk) : Prop where
  ranges : ∀ c ∈ chunks, 1 ≤ c.startLine ∧ c.startLine ≤ c.endLine ∧ c.endLine ≤ lines.length
  increasing : chunks.Pairwise fun c d ↦ c.endLine < d.startLine
  starts : startNumbers patterns lines ≠ [] →
    chunks.map Chunk.startLine = startNumbers patterns lines
  contents : startNumbers patterns lines ≠ [] →
    ∀ c ∈ chunks, c.content = joinSlice lines (c.startLine - 1) c.endLine
  covered : ∀ start ∈ startNumbers patterns lines, ∀ line n, (line, n) ∈ lines.zipIdx 1 →
    start ≤ n → isBlank line = false → ∃ c ∈ chunks, c.startLine ≤ n ∧ n ≤ c.endLine
  whole : startNumbers patterns lines = [] → lines ≠ [] → ∃ c, chunks = [c] ∧ c.startLine = 1 ∧
    c.endLine = lines.length ∧ c.content = source

section Ranges

variable (relPath language : String) {lines : List (List Char)}

/-- What is left out at the end is blank, and the start is kept. -/
theorem trimBlank_spec (lines : List (List Char)) {startIdx endIdx : Nat}
    (h : startIdx ≤ endIdx) :
    startIdx ≤ trimBlank lines startIdx endIdx ∧ trimBlank lines startIdx endIdx ≤ endIdx ∧
      ∀ i, trimBlank lines startIdx endIdx < i → i ≤ endIdx → isBlank (lines.getD i []) = true := by
  induction endIdx with
  | zero => exact ⟨h, le_rfl, fun i hlow hhigh ↦ absurd hlow (Nat.not_lt.mpr hhigh)⟩
  | succ endIdx ih =>
    rw [trimBlank]
    split
    · next hblank =>
      obtain ⟨hstart, hend, hrest⟩ := ih (Nat.lt_succ_iff.mp hblank.1)
      refine ⟨hstart, Nat.le_succ_of_le hend, fun i hlow hhigh ↦ ?_⟩
      rcases Nat.le_succ_iff.mp hhigh with hhigh | rfl
      · exact hrest i hlow hhigh
      · exact hblank.2
    · exact ⟨h, le_rfl, fun i hlow hhigh ↦ absurd hlow (Nat.not_lt.mpr hhigh)⟩

/-- The chunks begin at the starts. -/
theorem startLine_chunksFrom (lines : List (List Char))
    (starts : List (Nat × ChunkKind × String)) :
    (chunksFrom relPath language lines starts).map Chunk.startLine = starts.map (·.1 + 1) := by
  induction starts with
  | nil => rfl
  | cons start rest ih => exact congrArg (List.cons (start.1 + 1)) ih

/-- Each chunk has the lines of its range. -/
theorem content_chunksFrom {starts : List (Nat × ChunkKind × String)} {c : Chunk}
    (hc : c ∈ chunksFrom relPath language lines starts) :
    c.content = joinSlice lines (c.startLine - 1) c.endLine := by
  induction starts with
  | nil => cases hc
  | cons start rest ih =>
    rcases List.mem_cons.mp hc with rfl | hc
    · rfl
    · exact ih hc

/-- Starts in their order, all in the file. -/
structure AreStarts (lines : List (List Char)) (starts : List (Nat × ChunkKind × String)) :
    Prop where
  increasing : starts.Pairwise (·.1 < ·.1)
  inFile : ∀ start ∈ starts, start.1 < lines.length

/-- A chunk ends before the starts behind it. -/
theorem AreStarts.endBefore {start : Nat × ChunkKind × String}
    {rest : List (Nat × ChunkKind × String)} (h : AreStarts lines (start :: rest)) :
    start.1 ≤ endBefore lines rest ∧ endBefore lines rest < lines.length ∧
      ∀ next ∈ rest, Indexing.endBefore lines rest < next.1 := by
  obtain ⟨hfirst, hrest⟩ := List.pairwise_cons.mp h.increasing
  have hstart := h.inFile start List.mem_cons_self
  cases rest with
  | nil =>
    rw [Indexing.endBefore]
    refine ⟨by omega, by omega, List.forall_mem_nil _⟩
  | cons next rest =>
    have hnext := hfirst next List.mem_cons_self
    have hfile := h.inFile next (List.mem_cons_of_mem _ List.mem_cons_self)
    rw [Indexing.endBefore]
    refine ⟨by omega, by omega, List.forall_mem_cons.mpr ⟨by omega, fun other hother ↦ ?_⟩⟩
    have hlater := (List.pairwise_cons.mp hrest).1 other hother
    omega

theorem AreStarts.tail {start : Nat × ChunkKind × String}
    {rest : List (Nat × ChunkKind × String)} (h : AreStarts lines (start :: rest)) :
    AreStarts lines rest :=
  ⟨(List.pairwise_cons.mp h.increasing).2, fun next hnext ↦
    h.inFile next (List.mem_cons_of_mem start hnext)⟩

/-- The ranges are not empty and lie in the file. -/
theorem ranges_chunksFrom {starts : List (Nat × ChunkKind × String)} (h : AreStarts lines starts) :
    ∀ c ∈ chunksFrom relPath language lines starts, 1 ≤ c.startLine ∧ c.startLine ≤ c.endLine ∧
      c.endLine ≤ lines.length := by
  induction starts with
  | nil => exact List.forall_mem_nil _
  | cons start rest ih =>
    obtain ⟨hstart, hfile, -⟩ := h.endBefore
    obtain ⟨hlow, hhigh, -⟩ := trimBlank_spec lines hstart
    refine List.forall_mem_cons.mpr ⟨⟨Nat.le_add_left 1 _, Nat.succ_le_succ hlow, ?_⟩, ih h.tail⟩
    exact Nat.lt_of_le_of_lt hhigh hfile

/-- The ranges follow one another. -/
theorem increasing_chunksFrom {starts : List (Nat × ChunkKind × String)}
    (h : AreStarts lines starts) :
    (chunksFrom relPath language lines starts).Pairwise fun c d ↦ c.endLine < d.startLine := by
  induction starts with
  | nil => exact List.Pairwise.nil
  | cons start rest ih =>
    obtain ⟨hstart, -, hbehind⟩ := h.endBefore
    obtain ⟨-, hhigh, -⟩ := trimBlank_spec lines hstart
    refine List.pairwise_cons.mpr ⟨fun d hd ↦ ?_, ih h.tail⟩
    have hnumber : d.startLine ∈ rest.map (·.1 + 1) := by
      rw [← startLine_chunksFrom relPath language]
      exact List.mem_map_of_mem hd
    obtain ⟨next, hnext, hnumber⟩ := List.mem_map.mp hnumber
    rw [← hnumber]
    exact Nat.succ_lt_succ (Nat.lt_of_le_of_lt hhigh (hbehind next hnext))

/-- A line before the next start that is not blank is not left out. -/
theorem le_trimBlank {startIdx endIdx i : Nat} (h : startIdx ≤ endIdx) (hi : i ≤ endIdx)
    (hline : isBlank (lines.getD i []) = false) : i ≤ trimBlank lines startIdx endIdx := by
  obtain ⟨-, -, hblank⟩ := trimBlank_spec lines h
  by_contra hout
  rw [hblank i (Nat.lt_of_not_le hout) hi] at hline
  cases hline

/-- Each line from the first start on that is not blank is in a chunk. -/
theorem covered_chunksFrom {start : Nat × ChunkKind × String}
    {rest : List (Nat × ChunkKind × String)} (h : AreStarts lines (start :: rest)) {i : Nat}
    (hlow : start.1 ≤ i) (hhigh : i < lines.length) (hline : isBlank (lines.getD i []) = false) :
    ∃ c ∈ chunksFrom relPath language lines (start :: rest),
      c.startLine ≤ i + 1 ∧ i + 1 ≤ c.endLine := by
  induction rest generalizing start with
  | nil =>
    have hi : i ≤ endBefore lines [] := Nat.le_sub_one_of_lt hhigh
    exact ⟨_, List.mem_cons_self, Nat.succ_le_succ hlow,
      Nat.succ_le_succ (le_trimBlank h.endBefore.1 hi hline)⟩
  | cons next rest ih =>
    by_cases hnext : next.1 ≤ i
    · obtain ⟨c, hc, hcovers⟩ := ih h.tail hnext
      exact ⟨c, List.mem_cons_of_mem _ hc, hcovers⟩
    · have hi : i ≤ endBefore lines (next :: rest) := Nat.le_sub_one_of_lt (Nat.lt_of_not_le hnext)
      exact ⟨_, List.mem_cons_self, Nat.succ_le_succ hlow,
        Nat.succ_le_succ (le_trimBlank h.endBefore.1 hi hline)⟩

/-! ### The starts -/

theorem isSome_definitionStart (patterns : List LinePattern) (line : List Char) :
    (definitionStart patterns line).isSome = isStart patterns line := by
  induction patterns with
  | nil => rfl
  | cons p rest ih =>
    rw [definitionStart, List.findSome?_cons, isStart, List.any_cons]
    cases p.matchLine line with
    | none => exact ih
    | some group => rfl

/-- The numbers of the starts are those of the lines that are matched. -/
theorem numbers_defStarts (patterns : List LinePattern) (lines : List (List Char)) (k : Nat) :
    ((lines.zipIdx k).filterMap fun line ↦
        (definitionStart patterns line.1).map (line.2, ·)).map (·.1 + 1) =
      ((lines.zipIdx (k + 1)).filter fun line ↦ isStart patterns line.1).map Prod.snd := by
  induction lines generalizing k with
  | nil => rfl
  | cons line rest ih =>
    rw [List.zipIdx_cons, List.zipIdx_cons, List.filterMap_cons, List.filter_cons,
      ← isSome_definitionStart]
    cases definitionStart patterns line with
    | none => exact ih (k + 1)
    | some start => exact congrArg (List.cons (k + 1)) (ih (k + 1))

theorem areStarts_defStarts (patterns : List LinePattern) (lines : List (List Char)) :
    AreStarts lines (defStarts patterns lines) := by
  constructor
  · refine List.Pairwise.filterMap _ (fun line line' hlt start hstart start' hstart' ↦ ?_)
      (List.pairwise_map.mp ?_ : lines.zipIdx.Pairwise (·.2 < ·.2))
    · obtain ⟨-, -, rfl⟩ := Option.map_eq_some_iff.mp hstart
      obtain ⟨-, -, rfl⟩ := Option.map_eq_some_iff.mp hstart'
      exact hlt
    · rw [List.zipIdx_map_snd]
      exact List.pairwise_lt_range'
  · intro start hstart
    obtain ⟨line, hline, hstart⟩ := List.mem_filterMap.mp hstart
    obtain ⟨-, -, rfl⟩ := Option.map_eq_some_iff.mp hstart
    simpa using (List.mem_zipIdx hline).2.1

end Ranges

/-! ### The partition -/

theorem startNumbers_eq (patterns : List LinePattern) (lines : List (List Char)) :
    startNumbers patterns lines = (defStarts patterns lines).map (·.1 + 1) :=
  (numbers_defStarts patterns lines 0).symm

/-- Where no pattern matches, the text is one chunk. -/
theorem partitionsFile_whole {source relPath language : String} {lines : List (List Char)}
    {patterns : List LinePattern} (hlines : lines ≠ []) (hnone : startNumbers patterns lines = []) :
    PartitionsFile source lines patterns
      [⟨relPath, fileStem relPath, .module, language, 1, lines.length, source, none⟩] where
  ranges := by
    have hlength : 1 ≤ lines.length := List.length_pos_iff.mpr hlines
    exact List.forall_mem_singleton.mpr ⟨le_rfl, hlength, le_rfl⟩
  increasing := List.pairwise_singleton _ _
  starts h := absurd hnone h
  contents h := absurd hnone h
  covered start hstart := by
    rw [hnone] at hstart
    cases hstart
  whole _ _ := ⟨_, rfl, rfl, rfl, rfl⟩

/-- Where patterns match, the chunks are those of the starts. -/
theorem partitionsFile_starts {source relPath language : String} {lines : List (List Char)}
    {patterns : List LinePattern} {start : Nat × ChunkKind × String}
    {rest : List (Nat × ChunkKind × String)} (hstarts : defStarts patterns lines = start :: rest) :
    PartitionsFile source lines patterns
      (chunksFrom relPath language lines (start :: rest)) := by
  have hare : AreStarts lines (start :: rest) := hstarts ▸ areStarts_defStarts patterns lines
  have hnumbers : startNumbers patterns lines = (start :: rest).map (·.1 + 1) :=
    hstarts ▸ startNumbers_eq patterns lines
  refine ⟨ranges_chunksFrom _ _ hare, increasing_chunksFrom _ _ hare, fun _ ↦ ?_, fun _ c hc ↦ ?_,
    fun number hnumber line n hline hle hblank ↦ ?_, fun hnone ↦ ?_⟩
  · rw [startLine_chunksFrom, hnumbers]
  · exact content_chunksFrom _ _ hc
  · obtain ⟨hpos, hlength, hline⟩ := List.mem_zipIdx hline
    have hfirst : start.1 + 1 ≤ number := by
      rw [hnumbers] at hnumber
      rcases List.mem_cons.mp hnumber with rfl | hnumber
      · exact le_rfl
      · obtain ⟨next, hnext, rfl⟩ := List.mem_map.mp hnumber
        exact Nat.succ_le_succ ((List.pairwise_cons.mp hare.increasing).1 next hnext).le
    have hget : isBlank (lines.getD (n - 1) []) = false := by
      rw [← List.getElem_eq_getD (h := by omega), ← hline]
      exact hblank
    obtain ⟨c, hc, hcovers⟩ := covered_chunksFrom relPath language hare (i := n - 1) (by omega)
      (by omega) hget
    rw [Nat.sub_add_cancel hpos] at hcovers
    exact ⟨c, hc, hcovers⟩
  · rw [hnumbers] at hnone
    cases hnone

/-- The regex chunker partitions every text, with any patterns. -/
theorem chunkWithRegex_partitionsFile (source relPath language : String)
    (patterns : List LinePattern) :
    PartitionsFile source (splitlines source.toList) patterns
      (chunkWithRegex source relPath language patterns) := by
  unfold chunkWithRegex
  dsimp only
  split
  · next hempty =>
    rw [hempty]
    exact ⟨List.forall_mem_nil _, .nil, absurd rfl, absurd rfl, List.forall_mem_nil _,
      fun _ hlines ↦ absurd rfl hlines⟩
  · next hlines =>
    split
    · next hnone => exact partitionsFile_whole hlines (by rw [startNumbers_eq, hnone, List.map_nil])
    · next hsome =>
      obtain ⟨start, rest, hstarts⟩ := List.exists_cons_of_ne_nil hsome
      rw [hstarts]
      exact partitionsFile_starts hstarts

end GithubAgent.Indexing
