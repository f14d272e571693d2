import GithubAgent.Indexing.Chunker

/-!
# What the chunks cover

The definitions at the top of a source file, and the lines of them that the chunks of
`src/shared/chunker.py` cover. The grammars put the methods of a class and the statements of a
function into the node of its field `body`.
-/

namespace GithubAgent.Indexing

open GithubAgent.Base

/-! ### Definitions at the top of a file -/

/-- Each node ends where it begins or later, and has its children within it, one after the
other. -/
inductive TreeNode.Ordered : TreeNode → Prop where
  | node {info : NodeInfo} {children : List TreeNode} (rows : info.startRow ≤ info.endRow)
      (within : ∀ c ∈ children, info.startRow ≤ c.startRow ∧ c.endRow ≤ info.endRow)
      (successive : children.Pairwise fun c c' ↦ c.endRow ≤ c'.startRow)
      (below : ∀ c ∈ children, c.Ordered) : TreeNode.Ordered (.node info children)

namespace TreeNode.Ordered

variable {n : TreeNode} (h : n.Ordered)

include h

theorem rows : n.startRow ≤ n.endRow := by
  cases h with
  | node rows _ _ _ => exact rows

theorem within : ∀ c ∈ n.children, n.startRow ≤ c.startRow ∧ c.endRow ≤ n.endRow := by
  cases h with
  | node _ within _ _ => exact within

theorem successive : n.children.Pairwise fun c c' ↦ c.endRow ≤ c'.startRow := by
  cases h with
  | node _ _ successive _ => exact successive

theorem of_mem : ∀ c ∈ n.children, c.Ordered := by
  cases h with
  | node _ _ _ below => exact below

end TreeNode.Ordered

/-- A function or a class, and the decorated definition that it stands in. -/
structure TopDefinition where
  wrapper : Option TreeNode
  node : TreeNode

namespace TopDefinition

/-- The first line, with the decorators. -/
def startLine (d : TopDefinition) : Nat := (startNode d.wrapper d.node).startRow + 1

def endLine (d : TopDefinition) : Nat := d.node.endRow + 1

def span (d : TopDefinition) : Int := lineSpan d.wrapper d.node

end TopDefinition

namespace LanguageConfig

variable (config : LanguageConfig)

/-- The node is a function, or else a class. -/
def IsFunction (n : TreeNode) : Prop := n.type ∈ config.functionTypes

def IsClass (n : TreeNode) : Prop := n.type ∉ config.functionTypes ∧ n.type ∈ config.classTypes

instance (n : TreeNode) : Decidable (config.IsFunction n) := inferInstanceAs (Decidable (_ ∈ _))

instance (n : TreeNode) : Decidable (config.IsClass n) := inferInstanceAs (Decidable (_ ∧ _))

/-- The definitions of a child of the root: those that it wraps, or itself. -/
def definitionsOf (child : TreeNode) : List TopDefinition :=
  if child.type ∈ config.decoratorTypes then
    (child.children.filter fun n ↦ config.IsFunction n ∨ config.IsClass n).map
      fun n ↦ ⟨some child, n⟩
  else if config.IsFunction child ∨ config.IsClass child then [⟨none, child⟩]
  else []

def definitions (root : TreeNode) : List TopDefinition := root.children.flatMap config.definitionsOf

end LanguageConfig

/-- The nodes in the field `body`. -/
def TreeNode.bodies (n : TreeNode) : List TreeNode := n.children.filter (·.info.field = some "body")

/-- The methods of the body of a class, also decorated ones. -/
def LanguageConfig.bodyMethods (config : LanguageConfig) (n : TreeNode) : List TreeNode :=
  (n.bodies.flatMap TreeNode.children).flatMap fun child ↦
    if child.type ∈ config.decoratorTypes then
      child.children.filter (·.type ∈ config.methodTypes)
    else [child].filter (·.type ∈ config.methodTypes)

/-- A file that was parsed. A decorated definition has one definition, a class has its methods and a
function its block statements in the body; the body may itself be a block statement. -/
structure SourceFile where
  source : List UInt8
  relPath : String
  config : LanguageConfig
  root : TreeNode
  ordered : root.Ordered
  oneWrapped : ∀ child ∈ root.children, (config.definitionsOf child).length ≤ 1
  methodsInBody : ∀ d ∈ config.definitions root, config.IsClass d.node →
    ∀ child ∈ d.node.children, child.type ∉ config.methodTypes
  statementsInBody : ∀ d ∈ config.definitions root, config.IsFunction d.node →
    (splitBlocks d.node).length ≤ 1

namespace SourceFile

variable (f : SourceFile) (fallback : List Chunk)

def definitions : List TopDefinition := f.config.definitions f.root

/-- `chunk_file` on a file that was parsed, with the chunks of the regex fallback
(`chunker.py:118-129`). -/
def chunkFile : List Chunk :=
  (chunkWithTreesitter f.source f.relPath f.config f.root).getD fallback

/-- What a definition yields. -/
def chunksOf (d : TopDefinition) : List Chunk :=
  definitionChunks f.source f.relPath f.config d.wrapper d.node

/-! ### What the chunks are to be -/

/-- A large class yields one chunk for each method of its body, disjoint from its header. -/
def SplitsMethods (d : TopDefinition) : Prop :=
  (((f.chunksOf d).filter (·.kind = .method)).map fun c ↦ (c.name, c.endLine)).Perm
      ((f.config.bodyMethods d.node).map fun m ↦ (extractName f.source m, m.endRow + 1)) ∧
    ∀ header ∈ f.chunksOf d, header.kind = .class → ∀ method ∈ f.chunksOf d,
      method.kind = .method → ∀ line, ¬ (header.Covers line ∧ method.Covers line)

/-- The chunks of a function are parts, and each line of its body is in one of them. -/
def PartitionsBody (d : TopDefinition) (body : TreeNode) : Prop :=
  2 ≤ (f.chunksOf d).length ∧
    ∀ line, (f.chunksOf d).countP (fun c ↦ c.Covers line) =
      if body.startRow + 1 ≤ line ∧ line ≤ body.endRow + 1 then 1 else 0

/-- Every line of a definition is in the range of a chunk, large classes are split into a header and
their methods, and large functions with block statements into parts of their bodies. -/
structure CoversCode : Prop where
  covered : ∀ d ∈ f.definitions, ∀ line, d.startLine ≤ line → line ≤ d.endLine →
    ∃ c ∈ f.chunkFile fallback, c.Covers line
  methods : ∀ d ∈ f.definitions, f.config.IsClass d.node → defaultMaxLines < d.span →
    f.SplitsMethods d
  parts : ∀ d ∈ f.definitions, f.config.IsFunction d.node → maxFunctionLines < d.span →
    ∀ body ∈ d.node.bodies, 2 ≤ (splitBlocks body).length → f.PartitionsBody d body

/-! ### What they are -/

variable {f fallback}

theorem mem_definitionsOf {child : TreeNode} {d : TopDefinition}
    (h : d ∈ f.config.definitionsOf child) :
    (f.config.IsFunction d.node ∨ f.config.IsClass d.node) ∧ startNode d.wrapper d.node = child ∧
      (d.node = child ∨ d.node ∈ child.children) := by
  unfold LanguageConfig.definitionsOf at h
  split at h
  · obtain ⟨n, hn, rfl⟩ := List.mem_map.mp h
    obtain ⟨hmem, hkind⟩ := List.mem_filter.mp hn
    exact ⟨of_decide_eq_true hkind, rfl, .inr hmem⟩
  · split at h
    · next hkind =>
      obtain rfl := List.mem_singleton.mp h
      exact ⟨hkind, rfl, .inl rfl⟩
    · cases h

/-- The chunks of a file are those of its definitions. -/
theorem extractChunks_eq :
    extractChunks f.source f.relPath f.config f.root = f.definitions.flatMap f.chunksOf := by
  unfold extractChunks definitions LanguageConfig.definitions
  rw [List.flatMap_assoc]
  refine List.flatMap_congr fun child _ ↦ ?_
  have hnone (wrapper : Option TreeNode) (n : TreeNode)
      (hn : ¬ (f.config.IsFunction n ∨ f.config.IsClass n)) :
      definitionChunks f.source f.relPath f.config wrapper n = [] := by
    have hfunction : n.type ∉ f.config.functionTypes := fun h ↦ hn (.inl h)
    have hclass : n.type ∉ f.config.classTypes := fun h ↦ hn (.inr ⟨hfunction, h⟩)
    rw [definitionChunks, if_neg hfunction, if_neg hclass]
  unfold LanguageConfig.definitionsOf
  split
  · induction child.children with
    | nil => rfl
    | cons n rest ih =>
      rw [List.flatMap_cons, ih, List.filter_cons]
      split
      · rfl
      · next hn =>
        rw [hnone _ n (by simpa using hn), List.nil_append]
  · split
    · simp [chunksOf]
    · next hn => exact hnone none child hn

/-- A definition has its node within the lines of a child of the root. -/
theorem rows_of_mem {child : TreeNode} (hchild : child ∈ f.root.children) {d : TopDefinition}
    (hd : d ∈ f.config.definitionsOf child) :
    d.startLine = child.startRow + 1 ∧ child.startRow ≤ d.node.startRow ∧
      d.node.startRow ≤ d.node.endRow ∧ d.node.endRow ≤ child.endRow := by
  have hordered : child.Ordered := f.ordered.of_mem child hchild
  obtain ⟨-, hstart, hnode⟩ := mem_definitionsOf hd
  refine ⟨congrArg (·.startRow + 1) hstart, ?_⟩
  rcases hnode with hnode | hnode
  · rw [hnode]
    exact ⟨le_rfl, hordered.rows, le_rfl⟩
  · obtain ⟨hlower, hupper⟩ := hordered.within d.node hnode
    exact ⟨hlower, (hordered.of_mem d.node hnode).rows, hupper⟩

/-- The rows of a definition. -/
theorem rows_of_definition {d : TopDefinition} (hd : d ∈ f.definitions) :
    d.startLine ≤ d.node.startRow + 1 ∧ d.node.startRow ≤ d.node.endRow := by
  obtain ⟨child, hchild, hd⟩ := List.mem_flatMap.mp hd
  obtain ⟨hstart, hle, hrows, -⟩ := rows_of_mem hchild hd
  exact ⟨by omega, hrows⟩

/-- The definitions stand one after the other. -/
theorem definitions_successive :
    f.definitions.Pairwise fun d d' ↦ d.endLine ≤ d'.startLine := by
  refine List.pairwise_flatMap.mpr ⟨fun child hchild ↦ ?_, ?_⟩
  · have hone := f.oneWrapped child hchild
    generalize f.config.definitionsOf child = defs at hone
    match defs, hone with
    | [], _ => exact .nil
    | [d], _ => exact List.pairwise_singleton _ d
  · refine f.ordered.successive.imp_of_mem fun hchild hchild' hle d hd d' hd' ↦ ?_
    obtain ⟨-, -, -, hend⟩ := rows_of_mem hchild hd
    obtain ⟨hstart, -, -, -⟩ := rows_of_mem hchild' hd'
    unfold TopDefinition.endLine
    omega

/-- The last line that the chunk of a definition covers: for a large class the middle of its
node. -/
def coveredTo (d : TopDefinition) : Nat :=
  if f.config.IsClass d.node ∧ defaultMaxLines < d.span then
    (d.node.startRow + d.node.endRow) / 2 + 1
  else d.endLine

/-- The header of a class without methods among its direct children. -/
theorem findHeaderEnd_eq {n : TreeNode} (hrows : n.startRow ≤ n.endRow)
    (hmethods : ∀ child ∈ n.children, child.type ∉ f.config.methodTypes) :
    findHeaderEnd f.config.methodTypes n = (n.startRow + n.endRow) / 2 + 1 := by
  have hnone : n.children.find? (·.type ∈ f.config.methodTypes) = none :=
    List.find?_eq_none.mpr fun child hchild h ↦ hmethods child hchild (of_decide_eq_true h)
  simp only [findHeaderEnd, hnone]
  omega

/-- A definition yields one chunk, which begins where it begins. -/
theorem chunksOf_eq {d : TopDefinition} (hd : d ∈ f.definitions) :
    ∃ c, f.chunksOf d = [c] ∧ c.startLine = d.startLine ∧ c.endLine = f.coveredTo d ∧
      c.kind ≠ .method := by
  have hkinds : ChunkKind.function ≠ .method ∧ ChunkKind.class ≠ .method := by decide
  obtain ⟨hstart, hrows⟩ := rows_of_definition hd
  obtain ⟨child, hchild, hmem⟩ := List.mem_flatMap.mp hd
  rcases (mem_definitionsOf hmem).1 with hfunction | hclass
  · have hcovered : f.coveredTo d = d.endLine := if_neg fun h ↦ h.1.1 hfunction
    have hblocks : (splitBlocks d.node).length < 2 := Nat.lt_succ_of_le
      (f.statementsInBody d hd hfunction)
    refine ⟨makeChunk f.source f.relPath f.config .function d.wrapper d.node, ?_, rfl,
      hcovered.symm, hkinds.1⟩
    have htype : d.node.type ∈ f.config.functionTypes := hfunction
    rw [chunksOf, definitionChunks, if_pos htype, makeFunctionChunks, splitOversizedFunction,
      if_pos (Or.inl hblocks), ite_self]
  · rw [chunksOf, definitionChunks, if_neg hclass.1, if_pos hclass.2, makeClassChunks]
    by_cases hspan : lineSpan d.wrapper d.node ≤ defaultMaxLines
    · have hcovered : f.coveredTo d = d.endLine := if_neg fun h ↦ h.2.not_ge hspan
      exact ⟨_, if_pos hspan, rfl, hcovered.symm, hkinds.2⟩
    · have hmethods := f.methodsInBody d hd hclass
      have hheader := findHeaderEnd_eq hrows hmethods
      have hnone : d.node.children.filter (·.type ∈ f.config.methodTypes) = [] :=
        List.filter_eq_nil_iff.mpr fun child hchild h ↦
          hmethods child hchild (of_decide_eq_true h)
      have hcovered : f.coveredTo d = (d.node.startRow + d.node.endRow) / 2 + 1 :=
        if_pos ⟨hclass, lt_of_not_ge hspan⟩
      have hemitted : (startNode d.wrapper d.node).startRow + 1 <
          findHeaderEnd f.config.methodTypes d.node := by
        unfold TopDefinition.startLine at hstart
        simp only [lineSpan, defaultMaxLines] at hspan
        omega
      refine ⟨headerChunk f.source f.relPath f.config d.wrapper d.node, ?_, rfl,
        hheader.trans hcovered.symm, hkinds.2⟩
      rw [if_neg hspan, if_pos hemitted, hnone, List.map_nil, List.append_nil]

/-- A line is covered when a definition begins there or before it and its chunk goes so far. -/
theorem covered_iff {d : TopDefinition} (hd : d ∈ f.definitions) (line : Nat) :
    (∃ c ∈ f.chunkFile fallback, c.Covers line) ↔
      ∃ d' ∈ f.definitions, d'.startLine ≤ line ∧ line ≤ f.coveredTo d' := by
  obtain ⟨c, hc, -⟩ := chunksOf_eq hd
  have hne : extractChunks f.source f.relPath f.config f.root ≠ [] := by
    rw [extractChunks_eq]
    refine List.ne_nil_of_mem (a := c) (List.mem_flatMap.mpr ⟨d, hd, ?_⟩)
    rw [hc]
    exact List.mem_cons_self
  have hchunks : f.chunkFile fallback = f.definitions.flatMap f.chunksOf := by
    rw [chunkFile, chunkWithTreesitter, if_neg hne, Option.getD_some, extractChunks_eq]
  simp only [hchunks, List.mem_flatMap]
  constructor
  · rintro ⟨c', ⟨d', hd', hc'⟩, hcovers⟩
    obtain ⟨chunk, hchunk, hstart, hend, -⟩ := chunksOf_eq hd'
    rw [hchunk, List.mem_singleton] at hc'
    subst hc'
    exact ⟨d', hd', hstart ▸ hcovers.1, hend ▸ hcovers.2⟩
  · rintro ⟨d', hd', hfrom, hto⟩
    obtain ⟨chunk, hchunk, hstart, hend, -⟩ := chunksOf_eq hd'
    exact ⟨chunk, ⟨d', hd', hchunk ▸ List.mem_cons_self⟩, hstart ▸ hfrom, hend ▸ hto⟩

theorem startLine_le_coveredTo {d : TopDefinition} (hd : d ∈ f.definitions) :
    d.startLine ≤ f.coveredTo d ∧ f.coveredTo d ≤ d.endLine := by
  obtain ⟨hstart, hrows⟩ := rows_of_definition hd
  unfold coveredTo TopDefinition.endLine
  split
  · next h =>
    have hspan := h.2
    simp only [TopDefinition.span, lineSpan, defaultMaxLines] at hspan
    unfold TopDefinition.startLine at hstart ⊢
    omega
  · omega

variable (f) in
/-- A class is on one line, or on up to three of which the last one begins another definition:
only its decorators are long. -/
def NoLongerThanHeader (d : TopDefinition) : Prop :=
  d.node.startRow = d.node.endRow ∨
    d.node.endRow ≤ d.node.startRow + 2 ∧ ∃ d' ∈ f.definitions, d'.startLine = d.endLine

/-- Of two definitions, one ends before the other one begins, or on that line. -/
theorem successive_of_ne {d d' : TopDefinition} (hd : d ∈ f.definitions) (hd' : d' ∈ f.definitions)
    (hne : d ≠ d') : d.endLine ≤ d'.startLine ∨ d'.endLine ≤ d.startLine := by
  have hsymm : Std.Symm fun d d' : TopDefinition ↦
      d.endLine ≤ d'.startLine ∨ d'.endLine ≤ d.startLine := ⟨fun _ _ ↦ Or.symm⟩
  have hpairwise : f.definitions.Pairwise fun d d' ↦
      d.endLine ≤ d'.startLine ∨ d'.endLine ≤ d.startLine :=
    definitions_successive.imp Or.inl
  exact hpairwise.forall hd hd' hne

/-- A line of a definition that its chunk does not cover is covered only if it is the last one and
another definition begins there. -/
theorem covered_behind {d d' : TopDefinition} (hd : d ∈ f.definitions) (hd' : d' ∈ f.definitions)
    {line : Nat} (hbehind : f.coveredTo d < line) (hle : line ≤ d.endLine)
    (hfrom : d'.startLine ≤ line) (hto : line ≤ f.coveredTo d') :
    line = d.endLine ∧ d'.startLine = d.endLine := by
  have hne : d ≠ d' := by
    rintro rfl
    omega
  obtain ⟨hstart, -⟩ := startLine_le_coveredTo hd
  obtain ⟨-, hend⟩ := startLine_le_coveredTo hd'
  rcases successive_of_ne hd hd' hne with h | h <;> omega

/-- The lines of a large class are covered when its node is no longer than a header: what lies
behind the middle is in no chunk of it. -/
theorem covered_largeClass_iff {d : TopDefinition} (hd : d ∈ f.definitions)
    (hclass : f.config.IsClass d.node) (hspan : defaultMaxLines < d.span) :
    (∀ line, d.startLine ≤ line → line ≤ d.endLine →
        ∃ c ∈ f.chunkFile fallback, c.Covers line) ↔ f.NoLongerThanHeader d := by
  have hcoveredTo : f.coveredTo d = (d.node.startRow + d.node.endRow) / 2 + 1 :=
    if_pos ⟨hclass, hspan⟩
  have hendLine : d.endLine = d.node.endRow + 1 := rfl
  obtain ⟨hstart, hrows⟩ := rows_of_definition hd
  obtain ⟨hfrom, -⟩ := startLine_le_coveredTo hd
  simp only [covered_iff hd]
  constructor
  · intro h
    by_cases hone : d.node.startRow = d.node.endRow
    · exact .inl hone
    · obtain ⟨d', hd', hfrom', hto'⟩ := h d.endLine (by omega) le_rfl
      obtain ⟨-, hbegins⟩ := covered_behind hd hd' (by omega) le_rfl hfrom' hto'
      refine .inr ⟨?_, d', hd', hbegins⟩
      -- the last line but one is behind the middle of a longer class
      by_contra hlong
      obtain ⟨d'', hd'', hfrom'', hto''⟩ := h d.node.endRow (by omega) (by omega)
      obtain ⟨hline, -⟩ := covered_behind hd hd'' (by omega) (by omega) hfrom'' hto''
      omega
  · rintro (hone | ⟨hshort, d', hd', hbegins⟩) line hge hle
    · exact ⟨d, hd, hge, by omega⟩
    · by_cases hlast : line = d.endLine
      · obtain ⟨hle', -⟩ := startLine_le_coveredTo hd'
        exact ⟨d', hd', by omega, by omega⟩
      · exact ⟨d, hd, hge, by omega⟩

/-- A class, as large as it is, yields a chunk for each method when its body has none. -/
theorem splitsMethods_iff {d : TopDefinition} (hd : d ∈ f.definitions) :
    f.SplitsMethods d ↔ f.config.bodyMethods d.node = [] := by
  obtain ⟨c, hc, -, -, hkind⟩ := chunksOf_eq hd
  have hnone : (f.chunksOf d).filter (·.kind = .method) = [] := by
    simp [hc, hkind]
  unfold SplitsMethods
  rw [hnone, List.map_nil, List.nil_perm, List.map_eq_nil_iff, hc]
  simp [hkind]

/-- The chunks cover the code when no class is large but by its decorators and without methods, and
no large function has two block statements at the top level of its body. -/
theorem coversCode_iff :
    f.CoversCode fallback ↔
      (∀ d ∈ f.definitions, f.config.IsClass d.node → defaultMaxLines < d.span →
        f.config.bodyMethods d.node = [] ∧ f.NoLongerThanHeader d) ∧
      ∀ d ∈ f.definitions, f.config.IsFunction d.node → maxFunctionLines < d.span →
        ∀ body ∈ d.node.bodies, (splitBlocks body).length < 2 := by
  constructor
  · intro h
    refine ⟨fun d hd hclass hspan ↦ ?_, fun d hd hfunction hspan body hbody ↦ ?_⟩
    · exact ⟨(splitsMethods_iff hd).mp (h.methods d hd hclass hspan),
        (covered_largeClass_iff hd hclass hspan).mp (h.covered d hd)⟩
    · by_contra hblocks
      obtain ⟨c, hc, -⟩ := chunksOf_eq hd
      have htwo := (h.parts d hd hfunction hspan body hbody (by omega)).1
      rw [hc] at htwo
      exact absurd htwo (by simp)
  · rintro ⟨hclasses, hfunctions⟩
    refine ⟨fun d hd ↦ ?_, fun d hd hclass hspan ↦ ?_, fun d hd hfunction hspan body hbody ↦ ?_⟩
    · by_cases hlarge : f.config.IsClass d.node ∧ defaultMaxLines < d.span
      · exact (covered_largeClass_iff hd hlarge.1 hlarge.2).mpr (hclasses d hd hlarge.1 hlarge.2).2
      · have hcoveredTo : f.coveredTo d = d.endLine := if_neg hlarge
        intro line hge hle
        exact (covered_iff hd line).mpr ⟨d, hd, hge, hcoveredTo ▸ hle⟩
    · exact (splitsMethods_iff hd).mpr (hclasses d hd hclass hspan).1
    · intro htwo
      have hfew := hfunctions d hd hfunction hspan body hbody
      omega

end SourceFile

/-! ### A class with a long docstring -/

section Documented

private def sourceText : String :=
  "class A:\n    \"\"\"Notes.\n" ++ String.ofList (List.replicate 149 '\n') ++
    "    \"\"\"\n    def f(self): pass\n"

private def leaf (type : String) (startByte endByte row : Nat) (field : Option String := none) :
    TreeNode :=
  .node ⟨type, field, startByte, endByte, row, row⟩ []

private def parametersNode : TreeNode :=
  .node ⟨"parameters", some "parameters", 189, 195, 152, 152⟩
    [leaf "(" 189 190 152, leaf "identifier" 190 194 152, leaf ")" 194 195 152]

private def bodyNode : TreeNode :=
  .node ⟨"block", some "body", 197, 201, 152, 152⟩
    [.node ⟨"pass_statement", none, 197, 201, 152, 152⟩ [leaf "pass" 197 201 152]]

private def methodNode : TreeNode :=
  .node ⟨"function_definition", none, 184, 201, 152, 152⟩
    [leaf "def" 184 187 152, leaf "identifier" 188 189 152 (some "name"), parametersNode,
      leaf ":" 195 196 152, bodyNode]

private def docstringNode : TreeNode :=
  .node ⟨"expression_statement", none, 13, 179, 1, 151⟩
    [.node ⟨"string", none, 13, 179, 1, 151⟩
      [leaf "string_start" 13 16 1, .node ⟨"string_content", none, 16, 176, 1, 151⟩ [],
        leaf "string_end" 176 179 151]]

private def classNode : TreeNode :=
  .node ⟨"class_definition", none, 0, 201, 0, 152⟩
    [leaf "class" 0 5 0, leaf "identifier" 6 7 0 (some "name"), leaf ":" 7 8 0,
      .node ⟨"block", some "body", 13, 201, 1, 152⟩ [docstringNode, methodNode]]

private def moduleNode : TreeNode := .node ⟨"module", none, 0, 202, 0, 153⟩ [classNode]

/-- The rows are checked node by node. -/
private theorem moduleNode_ordered : moduleNode.Ordered := by
  unfold moduleNode classNode docstringNode methodNode bodyNode parametersNode leaf
  repeat' first
    | refine .node (by decide) (by decide) (by decide) ?_
    | refine List.forall_mem_cons.mpr ⟨?_, ?_⟩
    | nofun

private theorem definitions_moduleNode :
    python.definitions moduleNode = [⟨none, classNode⟩] := by
  rfl

private def documentedFile : SourceFile where
  source := Utf8.encode sourceText.toList
  relPath := "notes.py"
  config := python
  root := moduleNode
  ordered := moduleNode_ordered
  oneWrapped := by decide
  methodsInBody := by
    rw [definitions_moduleNode]
    decide
  statementsInBody := by
    rw [definitions_moduleNode]
    decide

/-- The method and what stands before it, behind the middle of the class, are in no chunk. -/
theorem not_coversCode_documentedFile : ¬ documentedFile.CoversCode [] := by
  intro h
  have hmem : (⟨none, classNode⟩ : TopDefinition) ∈ documentedFile.definitions := by
    show _ ∈ python.definitions moduleNode
    rw [definitions_moduleNode]
    exact List.mem_singleton_self _
  rcases (SourceFile.covered_largeClass_iff hmem (by decide) (by decide)).mp (h.covered _ hmem)
    with hone | ⟨hshort, -⟩
  · exact absurd hone (by decide)
  · exact absurd hshort (by decide)

end Documented

end GithubAgent.Indexing
