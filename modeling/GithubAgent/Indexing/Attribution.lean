import GithubAgent.Base.Scan
import GithubAgent.Indexing.Extractor

/-!
# Attribution to the innermost definition

Which definition `_extract_relationships` of `src/shared/code_graph.py` attributes a call, an import
or a parent to: the names that `_build_definition_map` records, each for the range of a node, and
the one of them that `_find_enclosing_def` finds.
-/

namespace GithubAgent.Indexing

open GithubAgent.Base

/-! ### The definitions of a file -/

/-- A definition that a query captures: its name, and the node that it names. -/
structure Definition where
  name : Span
  node : Span
  contains : node.Contains name

/-- The captures list the names and the nodes of the definitions, in any order. -/
structure Captures.Reports (c : Captures) (definitions : List Definition) : Prop where
  targets : ∀ s, s ∈ c.targets ↔ ∃ d ∈ definitions, d.name = s
  nodes : ∀ s, s ∈ c.nodes ↔ ∃ d ∈ definitions, d.node = s

/-- A file with the definitions that each of the definition queries reports. -/
structure DefinedFile extends ParsedFile where
  definitions : List (List Definition)
  reports : List.Forall₂ Captures.Reports definitionQueries definitions

/-- The calls, imports and parents that are looked up. -/
def ParsedFile.clauses (file : ParsedFile) : List Span :=
  ((file.callQueries ++ file.importQueries.map Prod.snd ++ file.inheritanceQueries).flatMap
    runRelQuery).map Prod.snd

/-- The definition that a node is attributed to: an empty name is none. -/
def ParsedFile.attributedTo (file : ParsedFile) (node : Span) : Option String :=
  (findEnclosingDef (buildDefinitionMap file) node).filter (· ≠ "")

/-- The calls and parents are those attributed to a definition. -/
theorem mem_enclosedRelationships {kind : RelationshipKind} {path : String} {file : ParsedFile}
    {queries : List Captures} {r : Relationship} :
    r ∈ enclosedRelationships kind path (buildDefinitionMap file) queries ↔
      ∃ clause ∈ queries.flatMap runRelQuery, ∃ name, file.attributedTo clause.2 = some name ∧
        r = { sourceFile := path, sourceLine := clause.2.line, sourceName := name,
              targetName := clause.1, kind } := by
  simp only [enclosedRelationships, List.mem_filterMap, Option.map_eq_some_iff,
    ParsedFile.attributedTo, eq_comm (a := r)]

/-- The source of an import is the definition that it is attributed to, or what it names. -/
theorem sourceName_importMatches {path : String} {file : ParsedFile} {m : ImportMatch}
    (hm : m ∈ importMatches (buildDefinitionMap file) file.importQueries)
    (targetFile : Option String) :
    ∃ clause ∈ (file.importQueries.map Prod.snd).flatMap runRelQuery,
      (m.relationship path targetFile).sourceName =
        (file.attributedTo clause.2).getD clause.1 := by
  obtain ⟨⟨category, c⟩, hc, hm⟩ := List.mem_flatMap.mp hm
  obtain ⟨⟨target, node⟩, hclause, rfl⟩ := List.mem_map.mp hm
  refine ⟨(target, node), List.mem_flatMap.mpr ⟨c, List.mem_map.mpr ⟨_, hc, rfl⟩, hclause⟩, ?_⟩
  rw [ImportMatch.relationship, ParsedFile.attributedTo]

namespace DefinedFile

variable (f : DefinedFile)

/-- The definition is a smallest one around the clause. -/
def Smallest (clause : Span) (d : Definition) : Prop :=
  d ∈ f.definitions.flatten ∧ d.node.Contains clause ∧
    ∀ d' ∈ f.definitions.flatten, d'.node.Contains clause → d.node.size ≤ d'.node.size

/-- Every clause inside of a definition is attributed to the own name of a smallest one. -/
def AttributesToInnermost : Prop :=
  ∀ clause ∈ f.clauses, (∃ d ∈ f.definitions.flatten, d.node.Contains clause) →
    ∃ d, f.Smallest clause d ∧ f.attributedTo clause = some d.name.text

end DefinedFile

/-! ### What is recorded -/

namespace DefEntry

def Encloses (d : DefEntry) (node : Span) : Prop :=
  d.startByte ≤ node.startByte ∧ node.endByte ≤ d.endByte

instance (d : DefEntry) (node : Span) : Decidable (d.Encloses node) :=
  inferInstanceAs (Decidable (_ ∧ _))

/-- Among what was recorded, the entry gives way to another one: to a smaller one, to one of its
size that starts later, and to one of its range whose name was first recorded for it later. -/
def YieldsTo (recorded : List DefEntry) (d other : DefEntry) : Prop :=
  other.size < d.size ∨ other.size = d.size ∧ (d.startByte < other.startByte ∨
    d.startByte = other.startByte ∧ recorded.idxOf d < recorded.idxOf other)

end DefEntry

/-- What `_build_definition_map` records before it sorts: each captured name with the first captured
node around it, then the named nodes of the walk. -/
def ParsedFile.recordings (file : ParsedFile) : List DefEntry :=
  file.definitionQueries.flatMap (fun c ↦ c.targets.map (capturedEntry c.nodes)) ++
    walkDefNodes file.definableTypes 200 file.root

theorem mem_buildDefinitionMap {file : ParsedFile} {d : DefEntry} :
    d ∈ buildDefinitionMap file ↔ d ∈ file.recordings :=
  mem_dedupBy_id.trans (List.mem_insertionSort _)

theorem pairwise_buildDefinitionMap (file : ParsedFile) :
    (buildDefinitionMap file).Pairwise fun d d' ↦ d.startByte < d'.startByte ∨
      d.startByte = d'.startByte ∧ file.recordings.idxOf d < file.recordings.idxOf d' :=
  pairwise_dedupBy_insertionSort DefEntry.startByte file.recordings

theorem sorted_buildDefinitionMap (file : ParsedFile) :
    (buildDefinitionMap file).Pairwise fun d d' ↦ d.startByte ≤ d'.startByte :=
  (pairwise_buildDefinitionMap file).imp fun h ↦
    h.elim Nat.le_of_lt fun h ↦ Nat.le_of_eq h.1

theorem tighter_eq_lesser (node : Span) :
    tighter node = lesser (·.Encloses node) DefEntry.size := by
  funext best d
  simp only [tighter, lesser, DefEntry.Encloses, and_assoc]

/-- On a table that is sorted by the first bytes, the bisection finds what a scan of the whole table
from its end finds. -/
theorem findEnclosingDef_eq_scan {defMap : List DefEntry}
    (hsorted : defMap.Pairwise fun d d' ↦ d.startByte ≤ d'.startByte) (node : Span) :
    findEnclosingDef defMap node =
      (defMap.reverse.foldl (lesser (·.Encloses node) DefEntry.size) none).map DefEntry.name := by
  unfold findEnclosingDef
  dsimp only
  rw [take_bisectRight DefEntry.startByte hsorted, tighter_eq_lesser, ← List.filter_reverse,
    foldl_lesser_filter fun d hd ↦ hd.1]

/-- What is found is the name of a smallest entry around the node, and nothing is found exactly when
no entry is around it. -/
structure FindsTightest (defMap : List DefEntry) (node : Span) : Prop where
  none_iff : findEnclosingDef defMap node = none ↔ ∀ d ∈ defMap, ¬ d.Encloses node
  smallest : ∀ name, findEnclosingDef defMap node = some name → ∃ d ∈ defMap, d.Encloses node ∧
    d.name = name ∧ ∀ d' ∈ defMap, d'.Encloses node → d.size ≤ d'.size

/-- `_find_enclosing_def` on any sorted table, with entries of one first byte or one range, nested
and overlapping ones. -/
theorem findsTightest_of_sorted {defMap : List DefEntry}
    (hsorted : defMap.Pairwise fun d d' ↦ d.startByte ≤ d'.startByte) (node : Span) :
    FindsTightest defMap node := by
  have hscan := findEnclosingDef_eq_scan hsorted node
  constructor
  · rw [hscan, Option.map_eq_none_iff]
    exact foldl_lesser_eq_none
  · intro name hname
    rw [hscan] at hname
    obtain ⟨d, hfound, rfl⟩ := Option.map_eq_some_iff.mp hname
    obtain ⟨hmem, hencloses, hleast⟩ := of_foldl_lesser hsorted hfound
    refine ⟨d, hmem, hencloses, rfl, fun d' hd' hencloses' ↦ ?_⟩
    by_cases heq : d' = d
    · exact heq ▸ le_rfl
    · exact (hleast d' hd' hencloses' heq).elim le_of_lt fun hsame ↦ hsame.1.le

/-- A function and a second entry of its range, with a method inside. -/
theorem findsTightest_method :
    FindsTightest [⟨0, 90, "App"⟩, ⟨0, 90, "Base"⟩, ⟨10, 40, "run"⟩] ⟨20, 25, 2, "call"⟩ :=
  findsTightest_of_sorted (by decide) _

/-- `_find_enclosing_def` finds the entry around the node that all others around it give way to. -/
theorem findEnclosingDef_eq_some_iff {file : ParsedFile} {node : Span} {name : String} :
    findEnclosingDef (buildDefinitionMap file) node = some name ↔
      ∃ d ∈ file.recordings, d.Encloses node ∧ d.name = name ∧
        ∀ d' ∈ file.recordings, d'.Encloses node → d' ≠ d → d'.YieldsTo file.recordings d := by
  rw [findEnclosingDef_eq_scan (sorted_buildDefinitionMap file), Option.map_eq_some_iff]
  refine exists_congr fun d ↦ ?_
  rw [foldl_lesser_eq_some_iff (pairwise_buildDefinitionMap file) (by omega)]
  simp only [mem_buildDefinitionMap, and_assoc]
  constructor
  · rintro ⟨hd, hencloses, hleast, hname⟩
    exact ⟨hd, hencloses, hname, hleast⟩
  · rintro ⟨hd, hencloses, hname, hleast⟩
    exact ⟨hd, hencloses, hleast, hname⟩

theorem exists_findEnclosingDef {file : ParsedFile} {node : Span} {d : DefEntry}
    (hd : d ∈ file.recordings) (hencloses : d.Encloses node) :
    ∃ name, findEnclosingDef (buildDefinitionMap file) node = some name := by
  rw [← Option.ne_none_iff_exists', findEnclosingDef_eq_scan (sorted_buildDefinitionMap file), Ne,
    Option.map_eq_none_iff, foldl_lesser_eq_none]
  intro hnone
  exact hnone d (mem_buildDefinitionMap.mpr hd) hencloses

/-! ### When the innermost definition is found -/

/-- The entry of a definition under its own name. -/
def Definition.entry (d : Definition) : DefEntry := ⟨d.node.startByte, d.node.endByte, d.name.text⟩

namespace DefinedFile

/-- Of all that is recorded around the clause, what the rest gives way to carries the own name of a
smallest definition. -/
def RecordsOwnName (f : DefinedFile) (clause : Span) : Prop :=
  ∃ d, f.Smallest clause d ∧ d.name.text ≠ "" ∧
    ∃ e ∈ f.recordings, e.Encloses clause ∧ e.name = d.name.text ∧
      ∀ e' ∈ f.recordings, e'.Encloses clause → e' ≠ e → e'.YieldsTo f.recordings e

/-- The clauses are attributed to the innermost definitions when the names that are recorded for
the ranges around them are the own ones. -/
theorem attributesToInnermost_iff (f : DefinedFile) :
    f.AttributesToInnermost ↔
      ∀ clause ∈ f.clauses, (∃ d ∈ f.definitions.flatten, d.node.Contains clause) →
        f.RecordsOwnName clause := by
  refine forall₃_congr fun clause _ _ ↦ exists_congr fun d ↦ and_congr_right fun _ ↦ ?_
  rw [ParsedFile.attributedTo, Option.filter_eq_some_iff, findEnclosingDef_eq_some_iff, and_comm,
    decide_eq_true_iff]

end DefinedFile

/-! ### A nested function -/

section Nested

private def outerDef : Definition := ⟨⟨4, 9, 1, "outer"⟩, ⟨0, 55, 1, "def outer(): …"⟩, by decide⟩

private def innerDef : Definition :=
  ⟨⟨21, 26, 2, "inner"⟩, ⟨17, 42, 2, "def inner(): pass"⟩, by decide⟩

private def helperCall : Span := ⟨47, 53, 4, "helper"⟩

/-- `def outer():`, in it `def inner(): pass`, and after that a call `helper()`, with the functions
that are captured listed in the order of the file. -/
def nestedFile : DefinedFile where
  root :=
    .node "module" ⟨0, 56, 1, ""⟩ none
      [.node "function_definition" outerDef.node (some outerDef.name.text)
        [.node "identifier" outerDef.name none [],
          .node "block" ⟨17, 55, 2, ""⟩ none
            [.node "function_definition" innerDef.node (some innerDef.name.text)
              [.node "identifier" innerDef.name none []],
              .node "call" ⟨47, 55, 4, "helper()"⟩ none
                [.node "identifier" helperCall none []]]]]
  definableTypes := ["function_definition", "class_definition"]
  definitionQueries := [⟨[outerDef.name, innerDef.name], [outerDef.node, innerDef.node]⟩]
  callQueries := [⟨[helperCall], [⟨47, 55, 4, "helper()"⟩]⟩]
  importQueries := []
  inheritanceQueries := []
  definitions := [[outerDef, innerDef]]
  reports := .cons ⟨by simp [eq_comm], by simp [eq_comm]⟩ .nil

theorem attributedTo_nestedFile : nestedFile.attributedTo helperCall = some "inner" := by decide

/-- Both names are recorded for the outer function, the nested one last. -/
theorem not_attributesToInnermost_nestedFile : ¬ nestedFile.AttributesToInnermost := by
  intro h
  obtain ⟨d, ⟨hd, hcontains, -⟩, hname⟩ :=
    h helperCall (List.mem_singleton.mpr rfl) ⟨outerDef, List.mem_cons_self, by decide⟩
  have hd : d = outerDef ∨ d = innerDef := by
    simpa [nestedFile] using hd
  rcases hd with rfl | rfl
  · exact absurd (attributedTo_nestedFile.symm.trans hname) (by decide)
  · exact absurd hcontains (by decide)

end Nested

/-! ### When names are recorded for their own nodes -/

/-- The own node of each name is the first that is listed of those around it. -/
def Captures.ListsOwnFirst (c : Captures) (definitions : List Definition) : Prop :=
  ∀ d ∈ definitions, c.nodes.find? (fun node ↦ node.Contains d.name) = some d.node

theorem mem_capturedEntries_of_listsOwnFirst {queries : List Captures}
    {definitions : List (List Definition)}
    (hreports : List.Forall₂ Captures.Reports queries definitions)
    (hfirst : List.Forall₂ Captures.ListsOwnFirst queries definitions) {e : DefEntry} :
    e ∈ queries.flatMap (fun c ↦ c.targets.map (capturedEntry c.nodes)) ↔
      ∃ d ∈ definitions.flatten, d.entry = e := by
  induction hreports with
  | nil => simp
  | @cons c definitions queries rest hc _ ih =>
    obtain ⟨hown, hfirst⟩ := List.forall₂_cons.mp hfirst
    have hentry : ∀ d ∈ definitions, capturedEntry c.nodes d.name = d.entry := by
      intro d hd
      rw [capturedEntry, hown d hd, Option.getD_some, Definition.entry]
    rw [List.flatMap_cons, List.mem_append, ih hfirst, List.flatten_cons]
    simp only [List.mem_append, List.mem_map, hc.targets, or_and_right, exists_or]
    refine or_congr_left ⟨?_, ?_⟩
    · rintro ⟨_, ⟨d, hd, rfl⟩, rfl⟩
      exact ⟨d, hd, (hentry d hd).symm⟩
    · rintro ⟨d, hd, rfl⟩
      exact ⟨_, ⟨d, hd, rfl⟩, hentry d hd⟩

/-- It is enough that each name is recorded for its own node, and that the walk comes to no other
definitions than those that the queries capture. -/
theorem DefinedFile.attributesToInnermost_of_listsOwnFirst {f : DefinedFile}
    (hfirst : List.Forall₂ Captures.ListsOwnFirst f.definitionQueries f.definitions)
    (hwalk : ∀ e ∈ walkDefNodes f.definableTypes 200 f.root,
      ∃ d ∈ f.definitions.flatten, d.entry = e)
    (hname : ∀ d ∈ f.definitions.flatten, d.name.text ≠ "") : f.AttributesToInnermost := by
  have hrecordings {e : DefEntry} :
      e ∈ f.recordings ↔ ∃ d ∈ f.definitions.flatten, d.entry = e := by
    rw [ParsedFile.recordings, List.mem_append,
      mem_capturedEntries_of_listsOwnFirst f.reports hfirst]
    exact or_iff_left_of_imp (hwalk e)
  intro clause _ ⟨d₀, hd₀, hcontains⟩
  obtain ⟨name, hfound⟩ := exists_findEnclosingDef (hrecordings.mpr ⟨d₀, hd₀, rfl⟩) hcontains
  obtain ⟨e, he, hencloses, rfl, hyields⟩ := findEnclosingDef_eq_some_iff.mp hfound
  obtain ⟨d, hd, rfl⟩ := hrecordings.mp he
  refine ⟨d, ⟨hd, hencloses, fun d' hd' hcontains' ↦ ?_⟩, ?_⟩
  · by_cases heq : d'.entry = d.entry
    · exact (congrArg DefEntry.size heq).ge
    · rcases hyields _ (hrecordings.mpr ⟨d', hd', rfl⟩) hcontains' heq with hlt | ⟨hsize, -⟩
      · exact hlt.le
      · exact hsize.le
  · rw [ParsedFile.attributedTo, hfound]
    exact Option.filter_eq_some_iff.mpr ⟨rfl, decide_eq_true (hname d hd)⟩

end GithubAgent.Indexing
