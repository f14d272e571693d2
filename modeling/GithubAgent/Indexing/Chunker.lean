import GithubAgent.Base.Utf8
import GithubAgent.Indexing.Embedding

/-!
# The chunks of a source file

`_chunk_with_treesitter` of `src/shared/chunker.py` with what it calls: the definitions at the top
of the syntax tree, a class split into a header and its methods, and a function split at its block
statements. The syntax tree is given, and so are the chunks of the regex fallback.
-/

namespace GithubAgent.Indexing

open GithubAgent.Base

/-! ### The syntax tree -/

/-- A node: its type, the field of its parent that it stands in, its bytes and its first and last
row, counted from 0. -/
structure NodeInfo where
  type : String
  field : Option String := none
  startByte : Nat
  endByte : Nat
  startRow : Nat
  endRow : Nat

inductive TreeNode where
  | node (info : NodeInfo) (children : List TreeNode)

namespace TreeNode

def info : TreeNode → NodeInfo
  | .node info _ => info

def children : TreeNode → List TreeNode
  | .node _ children => children

def type (n : TreeNode) : String := n.info.type

/-- `node.start_point[0]` and `node.end_point[0]`. -/
def startRow (n : TreeNode) : Nat := n.info.startRow

def endRow (n : TreeNode) : Nat := n.info.endRow

end TreeNode

/-- The node types of a language that the chunker reads (`ts_languages.py:49-54`). -/
structure LanguageConfig where
  name : String
  functionTypes : List String
  classTypes : List String
  methodTypes : List String
  decoratorTypes : List String

/-- `LANGUAGES["python"]` (`ts_languages.py:73-80`). -/
def python : LanguageConfig where
  name := "python"
  functionTypes := ["function_definition"]
  classTypes := ["class_definition"]
  methodTypes := ["function_definition"]
  decoratorTypes := ["decorated_definition"]

/-- `DEFAULT_MAX_LINES`. -/
def defaultMaxLines : Nat := 150

/-- `MAX_FUNCTION_LINES`. -/
def maxFunctionLines : Nat := 200

/-- `_SPLIT_BLOCK_TYPES` (`chunker.py:359-368`). -/
def splitBlockTypes : List String :=
  ["try_statement", "if_statement", "for_statement", "while_statement", "with_statement",
    "match_statement"]

/-! ### Texts -/

section Texts

variable (source : List UInt8)

def decodeReplace (bytes : List UInt8) : String := String.ofList (Utf8.decode bytes)

/-- `_node_text` (`chunker.py:543-545`). -/
def nodeText (n : TreeNode) : String :=
  decodeReplace ((source.take n.info.endByte).drop n.info.startByte)

/-- `_extract_name` (`chunker.py:548-566`). -/
def extractName (n : TreeNode) : String :=
  match n.children.find? fun child ↦ child.type ∈
      ["identifier", "property_identifier", "type_identifier", "field_identifier",
        "constant"] with
  | some child => nodeText source child
  | none => "unknown"

/-- `b"\n".join(lines[first - 1 : last])`, for lines counted from 1. -/
def linesText (first last : Nat) : String :=
  decodeReplace ([10].intercalate (((source.splitOn 10).take last).drop (first - 1)))

end Texts

/-! ### The chunks of a definition -/

/-- `_find_header_end` (`chunker.py:456-467`). -/
def findHeaderEnd (methodTypes : List String) (n : TreeNode) : Nat :=
  match n.children.find? (·.type ∈ methodTypes) with
  | some child => child.startRow + 1
  | none => min ((n.startRow + n.endRow) / 2 + 1) (n.endRow + 1)

/-- The boundaries behind the last one: the starts that are greater (`chunker.py:417-420`). -/
def boundariesAfter : (last : Nat) → (starts : List Nat) → List Nat
  | _, [] => []
  | last, start :: rest =>
    if last < start then start :: boundariesAfter start rest else boundariesAfter last rest

/-- The lines from each boundary up to the next one. -/
def partsBetween : List Nat → List (Nat × Nat)
  | first :: next :: rest => (first, next - 1) :: partsBetween (next :: rest)
  | _ => []

/-- The wrapper, or else the node (`start_node`). -/
def startNode (wrapper : Option TreeNode) (n : TreeNode) : TreeNode := wrapper.getD n

/-- The number of lines of a definition, its wrapper included (`span`). -/
def lineSpan (wrapper : Option TreeNode) (n : TreeNode) : Int :=
  (n.endRow + 1 : Int) - ((startNode wrapper n).startRow + 1) + 1

section Definitions

variable (source : List UInt8) (relPath : String) (config : LanguageConfig)

/-- `_make_chunk`, and the single chunk of a class (`chunker.py:221-240, 312-335`). -/
def makeChunk (kind : ChunkKind) (wrapper : Option TreeNode) (n : TreeNode) : Chunk where
  filepath := relPath
  name := extractName source n
  kind
  language := config.name
  startLine := (startNode wrapper n).startRow + 1
  endLine := n.endRow + 1
  content := nodeText source (startNode wrapper n)

/-- The header of a large class (`chunker.py:243-261`). -/
def headerChunk (wrapper : Option TreeNode) (n : TreeNode) : Chunk where
  filepath := relPath
  name := extractName source n
  kind := .class
  language := config.name
  startLine := (startNode wrapper n).startRow + 1
  endLine := findHeaderEnd config.methodTypes n
  content := linesText source ((startNode wrapper n).startRow + 1)
    (findHeaderEnd config.methodTypes n)

/-- The chunk of a method (`chunker.py:264-279`). -/
def methodChunk (className : String) (n : TreeNode) : Chunk where
  filepath := relPath
  name := extractName source n
  kind := .method
  language := config.name
  startLine := n.startRow + 1
  endLine := n.endRow + 1
  content := nodeText source n
  parent := some className

/-- `_make_class_chunks` (`chunker.py:241-309`). -/
def makeClassChunks (wrapper : Option TreeNode) (n : TreeNode) : List Chunk :=
  let startLine := (startNode wrapper n).startRow + 1
  if lineSpan wrapper n ≤ defaultMaxLines then [makeChunk source relPath config .class wrapper n]
  else
    (if startLine < findHeaderEnd config.methodTypes n then
      [headerChunk source relPath config wrapper n] else []) ++
      (n.children.filter (·.type ∈ config.methodTypes)).map
        (methodChunk source relPath config (extractName source n))

/-- The first line of the body of a function, or else the first line of the definition
(`chunker.py:408-414`). -/
def findBodyStart (wrapper : Option TreeNode) (n : TreeNode) : Nat :=
  match n.children.find? (·.type ∈ ["block", "function_body", "statement_block"]) with
  | some child => child.startRow + 1
  | none => (startNode wrapper n).startRow + 1

/-- The direct children of a function that are block statements. -/
def splitBlocks (n : TreeNode) : List TreeNode :=
  n.children.filter (·.type ∈ splitBlockTypes)

/-- `boundaries` (`chunker.py:416-421`). -/
def splitBoundaries (wrapper : Option TreeNode) (n : TreeNode) : List Nat :=
  let bodyStart := findBodyStart wrapper n
  bodyStart :: (boundariesAfter bodyStart ((splitBlocks n).map (·.startRow + 1)) ++
    [n.endRow + 2])

/-- A part of a function, with its number, behind the signature (`chunker.py:423-452`). -/
def partChunk (wrapper : Option TreeNode) (n : TreeNode) (part : (Nat × Nat) × Nat) :
    Option Chunk :=
  if part.1.2 < part.1.1 then none
  else some
    { filepath := relPath
      name := extractName source n ++ " (part " ++ toString part.2 ++ ")"
      kind := .function
      language := config.name
      startLine := part.1.1
      endLine := part.1.2
      content :=
        linesText source ((startNode wrapper n).startRow + 1) (findBodyStart wrapper n - 1) ++
          "\n" ++ linesText source part.1.1 part.1.2 }

/-- `_split_oversized_function` (`chunker.py:370-453`). -/
def splitOversizedFunction (wrapper : Option TreeNode) (n : TreeNode) : List Chunk :=
  let parts := ((partsBetween (splitBoundaries wrapper n)).zipIdx 1).filterMap
    (partChunk source relPath config wrapper n)
  if (splitBlocks n).length < 2 ∨ parts = [] then
    [makeChunk source relPath config .function wrapper n]
  else parts

/-- `_make_function_chunks` (`chunker.py:338-355`). -/
def makeFunctionChunks (wrapper : Option TreeNode) (n : TreeNode) : List Chunk :=
  if lineSpan wrapper n ≤ maxFunctionLines then
    [makeChunk source relPath config .function wrapper n]
  else splitOversizedFunction source relPath config wrapper n

/-- The chunks of a node below the root or below a wrapper. -/
def definitionChunks (wrapper : Option TreeNode) (n : TreeNode) : List Chunk :=
  if n.type ∈ config.functionTypes then makeFunctionChunks source relPath config wrapper n
  else if n.type ∈ config.classTypes then makeClassChunks source relPath config wrapper n
  else []

/-- `_extract_chunks` (`chunker.py:204-238`). -/
def extractChunks (root : TreeNode) : List Chunk :=
  root.children.flatMap fun child ↦
    if child.type ∈ config.decoratorTypes then
      child.children.flatMap (definitionChunks source relPath config (some child))
    else definitionChunks source relPath config none child

/-- `_chunk_with_treesitter` on a file that was parsed (`chunker.py:173-201`). -/
def chunkWithTreesitter (root : TreeNode) : Option (List Chunk) :=
  let chunks := extractChunks source relPath config root
  if chunks = [] then none else some chunks

end Definitions

/-- The line is in the range of the chunk. -/
def Chunk.Covers (c : Chunk) (line : Nat) : Prop := c.startLine ≤ line ∧ line ≤ c.endLine

instance (c : Chunk) (line : Nat) : Decidable (c.Covers line) :=
  inferInstanceAs (Decidable (_ ∧ _))

/-! ### The parts of a function -/

theorem boundariesAfter_pairwise (starts : List Nat) : ∀ last : Nat,
    (last :: boundariesAfter last starts).Pairwise (· < ·) := by
  induction starts with
  | nil => exact fun last ↦ List.pairwise_singleton _ last
  | cons start rest ih =>
    intro last
    rw [boundariesAfter]
    split
    · next hlt =>
      refine List.pairwise_cons.mpr ⟨fun b hb ↦ ?_, ih start⟩
      rcases List.mem_cons.mp hb with rfl | hb
      · exact hlt
      · exact hlt.trans (List.rel_of_pairwise_cons (ih start) hb)
    · exact ih last

theorem mem_boundariesAfter {starts : List Nat} {b : Nat} : ∀ {last : Nat},
    b ∈ boundariesAfter last starts → b ∈ starts := by
  induction starts with
  | nil => nofun
  | cons start rest ih =>
    intro last hb
    rw [boundariesAfter] at hb
    split at hb
    · exact (List.mem_cons.mp hb).elim (· ▸ List.mem_cons_self)
        fun hb ↦ List.mem_cons_of_mem _ (ih hb)
    · exact List.mem_cons_of_mem _ (ih hb)

/-- Between increasing boundaries, each line up to the last one is in one part. -/
theorem countP_partsBetween (first last line : Nat) (rest : List Nat)
    (h : (first :: (rest ++ [last])).Pairwise (· < ·)) :
    (partsBetween (first :: (rest ++ [last]))).countP (fun p ↦ p.1 ≤ line ∧ line ≤ p.2) =
      if first ≤ line ∧ line < last then 1 else 0 := by
  induction rest generalizing first with
  | nil =>
    have hlt : first < last := List.rel_of_pairwise_cons h (List.mem_singleton_self last)
    simp only [List.nil_append, partsBetween, List.countP_cons, List.countP_nil]
    have hiff : (first ≤ line ∧ line ≤ last - 1) ↔ (first ≤ line ∧ line < last) := by omega
    simp [hiff]
  | cons next rest ih =>
    have hlt : first < next := List.rel_of_pairwise_cons h List.mem_cons_self
    have hrest := (List.pairwise_cons.mp h).2
    have hlast : next < last := List.rel_of_pairwise_cons hrest (by simp)
    simp only [List.cons_append, partsBetween, List.countP_cons, ih next hrest]
    by_cases hnext : next ≤ line
    · have hnot : ¬ line ≤ next - 1 := by omega
      have hfirst : first ≤ line := hlt.le.trans hnext
      simp [hnext, hnot, hfirst]
    · have hle : line ≤ next - 1 := by omega
      have hlast' : line < last := by omega
      simp [hnext, hle, hlast']

section Parts

variable {source : List UInt8} {relPath : String} {config : LanguageConfig}
  {wrapper : Option TreeNode} {n : TreeNode}

/-- The parts of the lines that cover a line are those whose ranges have it. -/
theorem countP_partChunk (line : Nat) (parts : List (Nat × Nat)) : ∀ k : Nat,
    ((parts.zipIdx k).filterMap (partChunk source relPath config wrapper n)).countP
        (fun c ↦ c.Covers line) =
      parts.countP (fun p ↦ p.1 ≤ line ∧ line ≤ p.2) := by
  induction parts with
  | nil => exact fun _ ↦ rfl
  | cons part rest ih =>
    intro k
    rw [List.zipIdx_cons, List.filterMap_cons, List.countP_cons, partChunk]
    split
    · next hempty =>
      split at hempty
      · next hlt =>
        have hnot : ¬ (part.1 ≤ line ∧ line ≤ part.2) := fun h ↦
          absurd (h.1.trans h.2) hlt.not_ge
        simp [ih, hnot]
      · cases hempty
    · next c hc =>
      split at hc
      · cases hc
      · obtain rfl := Option.some.inj hc
        rw [List.countP_cons, ih]
        rfl

/-- A function of which two direct children are block statements is split into parts: each line from
the start of the body to the last one is in one of them. -/
theorem countP_splitOversizedFunction (hblocks : 2 ≤ (splitBlocks n).length)
    (hbody : findBodyStart wrapper n ≤ n.endRow + 1)
    (hstarts : ∀ b ∈ splitBlocks n, b.startRow ≤ n.endRow) (line : Nat) :
    (splitOversizedFunction source relPath config wrapper n).countP (fun c ↦ c.Covers line) =
      if findBodyStart wrapper n ≤ line ∧ line ≤ n.endRow + 1 then 1 else 0 := by
  have hincreasing : (splitBoundaries wrapper n).Pairwise (· < ·) := by
    refine List.pairwise_append.mpr ⟨boundariesAfter_pairwise _ _, List.pairwise_singleton _ _,
      fun b hb last hlast ↦ ?_⟩
    obtain rfl := List.mem_singleton.mp hlast
    rcases List.mem_cons.mp hb with rfl | hb
    · omega
    · obtain ⟨block, hblock, rfl⟩ := List.mem_map.mp (mem_boundariesAfter hb)
      have hle := hstarts block hblock
      omega
  have hcount (line : Nat) :
      (((partsBetween (splitBoundaries wrapper n)).zipIdx 1).filterMap
        (partChunk source relPath config wrapper n)).countP (fun c ↦ c.Covers line) = _ :=
    (countP_partChunk line _ 1).trans (countP_partsBetween _ _ line _ hincreasing)
  have hparts : ((partsBetween (splitBoundaries wrapper n)).zipIdx 1).filterMap
      (partChunk source relPath config wrapper n) ≠ [] := by
    intro hnil
    have hzero := hcount (findBodyStart wrapper n)
    rw [hnil, if_pos ⟨le_rfl, by omega⟩] at hzero
    cases hzero
  have hsplit : ¬ ((splitBlocks n).length < 2 ∨ ((partsBetween (splitBoundaries wrapper n)).zipIdx
      1).filterMap (partChunk source relPath config wrapper n) = []) :=
    not_or_intro hblocks.not_gt hparts
  rw [splitOversizedFunction, if_neg hsplit, hcount]
  simp only [Nat.lt_succ_iff]

end Parts

end GithubAgent.Indexing
