import GithubAgent.Base.TextLines
import GithubAgent.Base.Utf8
import GithubAgent.Indexing.RegexChunker
import Mathlib.Tactic

/-!
# The summary of a source file

What `read_file_summary` of `src/mcp_servers/codebase_tools/tools.py` shows of a file: the
docstring, the imports and the signatures at the top level, from the syntax tree of a Python file,
or by patterns. The syntax tree and what the patterns match are given.
-/

namespace GithubAgent.Mcp.FileSummary

open GithubAgent.Base GithubAgent.Base.Utf8 GithubAgent.Webhook

/-! ### The summary of a syntax tree -/

/-- A node of a tree-sitter tree: its type, whether it is a named node, its bytes and its rows. -/
inductive SourceNode where
  | node (type : String) (named : Bool) (startByte endByte startRow endRow : Nat)
    (children : List SourceNode)

namespace SourceNode

def type : SourceNode → String
  | node type _ _ _ _ _ _ => type

def named : SourceNode → Bool
  | node _ named _ _ _ _ _ => named

def startRow : SourceNode → Nat
  | node _ _ _ _ startRow _ _ => startRow

def endRow : SourceNode → Nat
  | node _ _ _ _ _ endRow _ => endRow

def children : SourceNode → List SourceNode
  | node _ _ _ _ _ _ children => children

/-- `source[node.start_byte : node.end_byte].decode("utf-8", errors="replace")`. -/
def text (source : List UInt8) : SourceNode → List Char
  | node _ _ startByte endByte _ _ _ =>
    decode ((source.take endByte).drop startByte)

def isDefinition (n : SourceNode) : Bool :=
  n.type ∈ ["function_definition", "class_definition"]

end SourceNode

structure Signature where
  name : List Char
  kind : String
  line : Nat
  signature : List Char
  endLine : Nat
  deriving DecidableEq

/-- The three results of a summary. -/
structure Extracted where
  docstring : Option (List Char)
  imports : List (List Char)
  signatures : List Signature
  deriving DecidableEq

/-- `_extract_def_name` (`tools.py:966-973`). -/
def extractDefName (n : SourceNode) (source : List UInt8) : List Char :=
  ((n.children.find? (·.type = "identifier")).map (·.text source)).getD []

/-- `_read_bytes_line` (`tools.py:976-981`). -/
def readBytesLine (source : List UInt8) (lineIndex : Nat) : List Char :=
  (((source.splitOn 10)[lineIndex]?).map decode).getD []

/-- `text.strip("\"' \n")`. -/
def stripQuotes (text : List Char) : List Char :=
  let isQuote (c : Char) : Bool := c ∈ ['"', '\'', ' ', '\n']
  ((text.dropWhile isQuote).reverse.dropWhile isQuote).reverse

/-- The docstring that an expression gives, if its first string is long enough
(`tools.py:884-896`). -/
def docstringOf (source : List UInt8) (child : SourceNode) : Option (List Char) :=
  (child.children.find? (·.type = "string")).bind fun sub ↦
    let text := if 6 < (sub.text source).length then stripQuotes (sub.text source)
      else sub.text source
    if 2 < text.length then some (text.take 500) else none

/-- The entry of a definition whose lines are `lines` (`tools.py:928-936, 951-963`). -/
def signatureOf (source : List UInt8) (line : Nat) (definition : SourceNode)
    (lines : List (List Char)) : Signature where
  name := extractDefName definition source
  kind := if definition.type = "class_definition" then "class" else "function"
  line := line
  signature := (['\n'].intercalate (lines.map strip)).take 200
  endLine := definition.endRow + 1

/-- A function or a class, with the decorator that stands before it (`tools.py:910-936`). -/
def plainSignature (source : List UInt8) (prevNamed : Option SourceNode) (child : SourceNode) :
    Signature :=
  let sigLine := readBytesLine source child.startRow
  signatureOf source (child.startRow + 1) child
    (match prevNamed with
      | some decorator =>
        if decorator.type = "decorator" then [readBytesLine source decorator.startRow, sigLine]
        else [sigLine]
      | none => [sigLine])

/-- A definition that is decorated (`tools.py:938-963`). -/
def decoratedSignature (source : List UInt8) (child sub : SourceNode) : Signature :=
  signatureOf source (child.startRow + 1) sub
    [readBytesLine source child.startRow, readBytesLine source sub.startRow]

/-- The definitions in a decorated one, up to the limit. -/
def addDecorated (source : List UInt8) (maxLines : Nat) (child : SourceNode) :
    List Signature → List SourceNode → List Signature
  | signatures, [] => signatures
  | signatures, sub :: rest =>
    if sub.isDefinition then
      if maxLines ≤ signatures.length then signatures
      else addDecorated source maxLines child (signatures ++ [decoratedSignature source child sub])
        rest
    else addDecorated source maxLines child signatures rest

/-- A child that is no plain definition. -/
def visit (source : List UInt8) (maxLines : Nat) (found : Extracted) (child : SourceNode) :
    Extracted :=
  if child.type = "expression_statement" ∧ found.docstring.isNone then
    { found with docstring := docstringOf source child }
  else if child.type ∈ ["import_statement", "import_from_statement"] then
    { found with imports := found.imports ++ [strip (child.text source)] }
  else if child.type = "decorated_definition" then
    { found with
      signatures := addDecorated source maxLines child found.signatures child.children }
  else found

/-- The loop over the children; a plain definition beyond the limit ends it. `prevNamed` is the last
named node before the next child. -/
def extractFrom (source : List UInt8) (maxLines : Nat) :
    Option SourceNode → Extracted → List SourceNode → Extracted
  | _, found, [] => found
  | prevNamed, found, child :: rest =>
    let next := if child.named then some child else prevNamed
    if child.isDefinition then
      if maxLines ≤ found.signatures.length then found
      else extractFrom source maxLines next
        { found with signatures := found.signatures ++ [plainSignature source prevNamed child] }
        rest
    else extractFrom source maxLines next (visit source maxLines found child) rest

/-- `_extract_python_summary` (`tools.py:869-963`). -/
def extractPythonSummary (root : SourceNode) (source : List UInt8) (maxLines : Nat) : Extracted :=
  extractFrom source maxLines none ⟨none, [], []⟩ root.children

/-! ### The summary by patterns -/

/-- The first docstring among the lines (`tools.py:999-1010`). -/
def regexDocstring : Option (List Char) → List (List Char) → Option (List Char)
  | docstring, [] => docstring
  | docstring, line :: rest =>
    let stripped := strip line
    let quote := stripped.take 3
    if quote = ['"', '"', '"'] ∨ quote = ['\'', '\'', '\''] then
      let tail := stripped.drop 3
      let text := if quote <:+ tail ∧ 3 < tail.length then strip (tail.take (tail.length - 3))
        else strip tail
      if text = [] then regexDocstring (some text) rest else some text
    else regexDocstring docstring rest

/-- A line that a pattern matches, with the first group of the match. -/
structure SummaryPattern where
  kind : String
  matchLine : List Char → Option (List Char)

/-- The signature of a line (`tools.py:1014-1028`). -/
def regexSignature (patterns : List SummaryPattern) (line : List Char × Nat) : Option Signature :=
  patterns.findSome? fun p ↦ (p.matchLine line.1).map fun name ↦
    ⟨name, p.kind, line.2, (strip line.1).take 200, line.2⟩

/-- The loop over the lines, up to the limit (`tools.py:1013-1028`). -/
def regexSignatures (patterns : List SummaryPattern) (maxLines : Nat) :
    List Signature → List (List Char × Nat) → List Signature
  | signatures, [] => signatures
  | signatures, line :: rest =>
    if maxLines ≤ signatures.length then signatures
    else
      regexSignatures patterns maxLines (signatures ++ (regexSignature patterns line).toList) rest

/-- How an import begins (`tools.py:1034`). -/
def importStarts : List (List Char) :=
  ["import ".toList, "from ".toList, "require(".toList, "use ".toList]

def isImportLine (stripped : List Char) : Bool := importStarts.any (·.isPrefixOf stripped)

/-- `_read_summary_regex`, for the patterns of the language (`tools.py:984-1045`). -/
def readSummaryRegex (patterns : List SummaryPattern) (sourceText : List Char) (maxLines : Nat) :
    Extracted :=
  let lines := splitlines sourceText
  { docstring := regexDocstring none (lines.take 5)
    imports := (((lines.take 30).map strip).filter isImportLine).take 20
    signatures := regexSignatures patterns maxLines [] (lines.zipIdx 1) }

/-! ### What a summary shows -/

section Extract

variable {source : List UInt8} {maxLines : Nat}

/-- The definitions among the children of a decorated one. -/
def decoratedSignatures (source : List UInt8) (child : SourceNode) : List Signature :=
  (child.children.filter SourceNode.isDefinition).map (decoratedSignature source child)

/-- All definitions at the top level, in the order of the source. -/
def definitionsFrom (source : List UInt8) : Option SourceNode → List SourceNode → List Signature
  | _, [] => []
  | prevNamed, child :: rest =>
    let next := if child.named then some child else prevNamed
    (if child.isDefinition then [plainSignature source prevNamed child]
      else if child.type = "decorated_definition" then decoratedSignatures source child
      else []) ++ definitionsFrom source next rest

theorem addDecorated_eq (child : SourceNode) (signatures : List Signature)
    (h : signatures.length ≤ maxLines) (subs : List SourceNode) :
    addDecorated source maxLines child signatures subs =
      (signatures ++ (subs.filter SourceNode.isDefinition).map
        (decoratedSignature source child)).take maxLines := by
  induction subs generalizing signatures with
  | nil =>
    rw [addDecorated, List.filter_nil, List.map_nil, List.append_nil, List.take_of_length_le h]
  | cons sub rest ih =>
    rw [addDecorated]
    split
    · next hsub =>
      split
      · next hfull =>
        rw [List.take_append_of_le_length hfull, List.take_of_length_le h]
      · next hroom =>
        rw [ih _ (by rw [List.length_append, List.length_singleton]; omega),
          List.filter_cons_of_pos hsub, List.map_cons, List.append_assoc, List.singleton_append]
    · next hsub =>
      rw [ih _ h, List.filter_cons_of_neg hsub]

/-- The imports among the children. -/
def importsIn (source : List UInt8) (nodes : List SourceNode) : List (List Char) :=
  (nodes.filter (·.type ∈ ["import_statement", "import_from_statement"])).map
    fun n ↦ strip (n.text source)

/-- The first docstring among the children. -/
def docstringIn (source : List UInt8) (nodes : List SourceNode) : Option (List Char) :=
  (nodes.filter (·.type = "expression_statement")).findSome? (docstringOf source)

theorem docstring_visit (found : Extracted) (child : SourceNode) :
    (visit source maxLines found child).docstring =
      found.docstring.or (docstringIn source [child]) := by
  unfold visit docstringIn
  by_cases hexpression : child.type = "expression_statement"
  · cases hdocstring : found.docstring with
    | none => simp [hexpression]
    | some text => simp [hexpression, hdocstring]
  · rw [List.filter_cons_of_neg (by simpa using hexpression), if_neg fun h ↦ hexpression h.1]
    simp only [List.filter_nil, List.findSome?_nil, Option.or_none]
    split
    · rfl
    · split
      · rfl
      · rfl

theorem imports_visit (found : Extracted) (child : SourceNode) :
    (visit source maxLines found child).imports = found.imports ++ importsIn source [child] := by
  unfold visit importsIn
  by_cases himport : child.type ∈ ["import_statement", "import_from_statement"]
  · have hexpression : child.type ≠ "expression_statement" := by
      intro h
      rw [h] at himport
      revert himport
      decide
    rw [if_neg fun h ↦ hexpression h.1, if_pos himport,
      List.filter_cons_of_pos (by exact decide_eq_true himport)]
    rfl
  · rw [List.filter_cons_of_neg (by simpa using himport), if_neg himport, List.filter_nil,
      List.map_nil, List.append_nil]
    split
    · rfl
    · split
      · rfl
      · rfl

theorem signatures_visit {found : Extracted} (child : SourceNode)
    (h : found.signatures.length ≤ maxLines) :
    (visit source maxLines found child).signatures =
      (found.signatures ++ if child.type = "decorated_definition" then
        decoratedSignatures source child else []).take maxLines := by
  unfold visit
  by_cases hdecorated : child.type = "decorated_definition"
  · have hother : child.type ≠ "expression_statement" ∧
        child.type ∉ ["import_statement", "import_from_statement"] := by
      rw [hdecorated]
      decide
    rw [if_neg fun h ↦ hother.1 h.1, if_neg hother.2, if_pos hdecorated, if_pos hdecorated]
    exact addDecorated_eq child found.signatures h child.children
  · rw [if_neg hdecorated, if_neg hdecorated, List.append_nil, List.take_of_length_le h]
    split
    · rfl
    · split
      · rfl
      · rfl

theorem take_take_append {A : Type} (n : Nat) (l m : List A) :
    (l.take n ++ m).take n = (l ++ m).take n := by
  have hlength : n - (l.take n).length = n - l.length := by
    rw [List.length_take]
    omega
  rw [List.take_append, List.take_append, List.take_take, Nat.min_self, hlength]

theorem regexSignatures_eq (patterns : List SummaryPattern) {signatures : List Signature}
    (h : signatures.length ≤ maxLines) (lines : List (List Char × Nat)) :
    regexSignatures patterns maxLines signatures lines =
      (signatures ++ lines.filterMap (regexSignature patterns)).take maxLines := by
  induction lines generalizing signatures with
  | nil =>
    rw [regexSignatures, List.filterMap_nil, List.append_nil, List.take_of_length_le h]
  | cons line rest ih =>
    rw [regexSignatures]
    split
    · next hfull => rw [List.take_append_of_le_length hfull, List.take_of_length_le h]
    · next hroom =>
      cases hline : regexSignature patterns line with
      | none =>
        rw [List.filterMap_cons_none hline]
        rw [Option.toList_none, List.append_nil]
        exact ih h
      | some signature =>
        rw [List.filterMap_cons_some hline, Option.toList_some,
          ih (by rw [List.length_append, List.length_singleton]; omega), List.append_assoc,
          List.singleton_append]

/-- What the loop finds: the definitions up to the limit, and the docstring and the imports of the
children before the one that ends it. -/
structure Extracted.Shows (found : Extracted) (source : List UInt8) (maxLines : Nat)
    (prevNamed : Option SourceNode) (before : Extracted) (nodes : List SourceNode) : Prop where
  signatures : found.signatures =
    (before.signatures ++ definitionsFrom source prevNamed nodes).take maxLines
  others : ∃ visited rest, nodes = visited ++ rest ∧
    (rest = [] ∨ found.signatures.length = maxLines) ∧
    found.docstring = before.docstring.or (docstringIn source visited) ∧
    found.imports = before.imports ++ importsIn source visited

theorem docstringIn_cons (child : SourceNode) (nodes : List SourceNode) :
    docstringIn source (child :: nodes) =
      (docstringIn source [child]).or (docstringIn source nodes) := by
  show (([child] ++ nodes).filter _).findSome? _ = _
  rw [List.filter_append, List.findSome?_append]
  rfl

theorem importsIn_cons (child : SourceNode) (nodes : List SourceNode) :
    importsIn source (child :: nodes) = importsIn source [child] ++ importsIn source nodes := by
  show (([child] ++ nodes).filter _).map _ = _
  rw [List.filter_append, List.map_append]
  rfl

/-- A definition is neither a docstring nor an import. -/
theorem others_of_isDefinition {child : SourceNode} (h : child.isDefinition = true) :
    docstringIn source [child] = none ∧ importsIn source [child] = [] := by
  have htype : child.type = "function_definition" ∨ child.type = "class_definition" := by
    simpa [SourceNode.isDefinition] using h
  rcases htype with htype | htype
  · simp [docstringIn, importsIn, htype]
  · simp [docstringIn, importsIn, htype]

theorem shows_extractFrom (nodes : List SourceNode) (prevNamed : Option SourceNode)
    {before : Extracted} (h : before.signatures.length ≤ maxLines) :
    (extractFrom source maxLines prevNamed before nodes).Shows source maxLines prevNamed before
      nodes := by
  induction nodes generalizing prevNamed before with
  | nil =>
    refine ⟨?_, [], [], rfl, .inl rfl, ?_, ?_⟩
    · rw [extractFrom, definitionsFrom, List.append_nil, List.take_of_length_le h]
    · exact (Option.or_none).symm
    · exact (List.append_nil _).symm
  | cons child rest ih =>
    rw [extractFrom]
    split
    · next hdefinition =>
      split
      · next hfull =>
        -- the limit is reached: nothing behind this child is looked at
        have hlength : before.signatures.length = maxLines := Nat.le_antisymm h hfull
        refine ⟨?_, [], child :: rest, rfl, .inr hlength, ?_, ?_⟩
        · rw [List.take_append_of_le_length hfull, List.take_of_length_le h]
        · exact (Option.or_none).symm
        · exact (List.append_nil _).symm
      · next hroom =>
        have hlength : (before.signatures ++
            [plainSignature source prevNamed child]).length ≤ maxLines := by
          rw [List.length_append, List.length_singleton]
          omega
        have hnext := @ih (if child.named then some child else prevNamed)
          { before with signatures := before.signatures ++ [plainSignature source prevNamed child] }
          hlength
        obtain ⟨hnone, hnil⟩ :
            docstringIn source [child] = none ∧ importsIn source [child] = [] :=
          others_of_isDefinition hdefinition
        obtain ⟨visited, left, hnodes, hend, hdocstring, himports⟩ := hnext.others
        refine ⟨?_, child :: visited, left, ?_, hend, ?_, ?_⟩
        · rw [hnext.signatures, definitionsFrom, if_pos hdefinition, List.append_assoc]
        · rw [hnodes, List.cons_append]
        · rw [hdocstring, docstringIn_cons, hnone, Option.none_or]
        · rw [himports, importsIn_cons, hnil, List.nil_append]
    · next hplain =>
      have hsignatures := @signatures_visit source _ _ child h
      have hnext := @ih (if child.named then some child else prevNamed)
        (visit source maxLines before child)
        (by rw [hsignatures]; exact List.length_take_le _ _)
      obtain ⟨visited, left, hnodes, hend, hdocstring, himports⟩ := hnext.others
      refine ⟨?_, child :: visited, left, ?_, hend, ?_, ?_⟩
      · rw [hnext.signatures, definitionsFrom, if_neg hplain, hsignatures, take_take_append,
          List.append_assoc]
      · rw [hnodes, List.cons_append]
      · rw [hdocstring, docstring_visit, docstringIn_cons child visited, Option.or_assoc]
      · rw [himports, imports_visit, importsIn_cons child visited, List.append_assoc]

end Extract

/-- `_extract_python_summary` as a whole. -/
theorem shows_extractPythonSummary (root : SourceNode) (source : List UInt8) (maxLines : Nat) :
    (extractPythonSummary root source maxLines).Shows source maxLines none ⟨none, [], []⟩
      root.children :=
  shows_extractFrom root.children none (Nat.zero_le _)

end GithubAgent.Mcp.FileSummary
