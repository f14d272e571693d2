import GithubAgent.Base.FirstFit
import Mathlib.Data.List.Nodup

/-!
# Names and the nodes that they name

`RepoMap._run_ts_query` of `src/shared/repomap.py`, which pairs the captured names of a query with
its captured nodes.
-/

namespace GithubAgent.Indexing

open GithubAgent.Base

/-! ### A query -/

/-- The bytes of a node of the syntax tree, and its first and last line, counted from 1. -/
structure TsNode where
  startByte : Nat
  endByte : Nat
  startLine : Nat
  endLine : Nat
  deriving DecidableEq

/-- A node whose text is read. -/
structure TextNode extends TsNode where
  text : String
  deriving DecidableEq

namespace TsNode

/-- The bytes of the other node are among those of this one. -/
def Contains (node other : TsNode) : Prop :=
  node.startByte ≤ other.startByte ∧ other.endByte ≤ node.endByte

instance (node other : TsNode) : Decidable (node.Contains other) :=
  inferInstanceAs (Decidable (_ ∧ _))

def size (node : TsNode) : Int := node.endByte - node.startByte

end TsNode

/-- What `cursor.captures` lists of a query: `@name`, `@node` and `@target`. -/
structure QueryCaptures where
  names : List TextNode
  nodes : List TsNode
  targets : List TextNode

/-- The lines of a match: those of its node, or else that of its name. -/
inductive MatchPlace where
  | node (startLine endLine : Nat)
  | line (line : Nat)
  deriving DecidableEq

/-- An entry of the results. -/
structure TsMatch where
  name : String
  place : MatchPlace
  target : Option String
  deriving DecidableEq

def matchPlace (name : TextNode) : Option TsNode → MatchPlace
  | some node => .node node.startLine node.endLine
  | none => .line name.startLine

/-- The loop over the names, with the nodes and the targets that are left
(`repomap.py:321-378`). -/
def matchNames : List TextNode → List TsNode → List TextNode → List TsMatch
  | [], _, _ => []
  | name :: rest, nodePool, targetPool =>
    let encloses : TsNode → Bool := fun cand ↦ cand.Contains name.toTsNode
    let matchedNode := nodePool.find? encloses
    let within : TextNode → Bool := fun tcand ↦
      (matchedNode.getD name.toTsNode).Contains tcand.toTsNode
    { name := name.text
      place := matchPlace name matchedNode
      target := (targetPool.find? within).map TextNode.text } ::
      matchNames rest (nodePool.eraseP encloses) (targetPool.eraseP within)

/-- `_run_ts_query`; a query that raises captures nothing (`repomap.py:283-384`). -/
def runTsQuery (c : QueryCaptures) : List TsMatch := matchNames c.names c.nodes c.targets

/-- The nodes that the names are paired with. -/
def pairedNodes (c : QueryCaptures) : List (Option TsNode) :=
  firstFit (fun name node ↦ node.Contains name.toTsNode) c.names c.nodes

theorem map_matchNames (names : List TextNode) (nodePool : List TsNode)
    (targetPool : List TextNode) :
    (matchNames names nodePool targetPool).map (fun m ↦ (m.name, m.place)) =
      List.zipWith (fun name node ↦ (name.text, matchPlace name node)) names
        (firstFit (fun name node ↦ node.Contains name.toTsNode) names nodePool) := by
  induction names generalizing nodePool targetPool with
  | nil => rfl
  | cons name rest ih =>
    rw [matchNames, List.map_cons, ih, firstFit, List.zipWith_cons_cons]

/-- The matches are the names, in their order, at the nodes that they are paired with. -/
theorem map_runTsQuery (c : QueryCaptures) :
    (runTsQuery c).map (fun m ↦ (m.name, m.place)) =
      List.zipWith (fun name node ↦ (name.text, matchPlace name node)) c.names (pairedNodes c) :=
  map_matchNames c.names c.nodes c.targets

/-! ### Definitions -/

/-- A definition: a name, and the node that it names. -/
structure NamedNode where
  name : TextNode
  node : TsNode
  deriving DecidableEq

/-- The definitions that a query captures, in the order in which their names are listed, and their
nodes in some order. A node has its name within it, and no captured node lies between the two. -/
structure QueryDefinitions where
  definitions : List NamedNode
  nodes : List TsNode
  targets : List TextNode
  nodup : definitions.Nodup
  perm : nodes.Perm (definitions.map NamedNode.node)
  contains : ∀ d ∈ definitions, d.node.Contains d.name.toTsNode
  innermost : ∀ d ∈ definitions, ∀ d' ∈ definitions, d'.node.Contains d.name.toTsNode →
    d'.node.Contains d.node

namespace QueryDefinitions

variable (q : QueryDefinitions)

def captures : QueryCaptures := ⟨q.definitions.map NamedNode.name, q.nodes, q.targets⟩

/-- Each name is returned with the lines of the node that it names, and no node is used twice. -/
def PairsOwnNodes : Prop :=
  (runTsQuery q.captures).map (fun m ↦ (m.name, m.place)) =
      q.definitions.map (fun d ↦ (d.name.text, .node d.node.startLine d.node.endLine)) ∧
    (pairedNodes q.captures).reduceOption.Subperm q.nodes

/-- The nodes are listed, equal ones in a suitable order, such that a node around the name of one
listed after it has its own name listed before that name. -/
def ListsOuterNamesFirst : Prop :=
  ∃ order : List NamedNode, order.Perm q.definitions ∧ order.map NamedNode.node = q.nodes ∧
    order.Pairwise fun d' d ↦ d'.node.Contains d.name.toTsNode →
      q.definitions.idxOf d' < q.definitions.idxOf d

/-- From the lines that are returned: every name has a node, with the lines of its own one. -/
theorem exists_nodes_of_lines {definitions : List NamedNode} {found : List (Option TsNode)}
    (hlength : found.length = definitions.length)
    (h : List.zipWith (fun name node ↦ (name.text, matchPlace name node))
        (definitions.map NamedNode.name) found =
      definitions.map (fun d ↦ (d.name.text, .node d.node.startLine d.node.endLine))) :
    ∃ nodes : List TsNode, found = nodes.map some ∧
      List.Forall₂ (fun d node ↦ node.startLine = d.node.startLine ∧
        node.endLine = d.node.endLine) definitions nodes := by
  induction definitions generalizing found with
  | nil =>
    obtain rfl := List.length_eq_zero_iff.mp hlength
    exact ⟨[], rfl, .nil⟩
  | cons d rest ih =>
    cases found with
    | nil => cases hlength
    | cons first found =>
      obtain ⟨hfirst, htail⟩ := List.cons.inj h
      obtain ⟨nodes, rfl, hnodes⟩ := ih (Nat.succ.inj hlength) htail
      have hplace : matchPlace d.name first = .node d.node.startLine d.node.endLine :=
        congrArg Prod.snd hfirst
      cases first with
      | none => cases hplace
      | some node =>
        obtain ⟨hstart, hend⟩ := MatchPlace.node.inj hplace
        exact ⟨node :: nodes, rfl, .cons ⟨hstart, hend⟩ hnodes⟩

/-- A node around a name is around the node that it names. -/
theorem contains_of_fits {d : NamedNode} (hd : d ∈ q.definitions) {node : TsNode}
    (hnode : node ∈ q.nodes) (hfit : decide (node.Contains d.name.toTsNode) = true) :
    node.Contains d.node := by
  obtain ⟨d', hd', rfl⟩ := List.mem_map.mp (q.perm.mem_iff.mp hnode)
  exact q.innermost d hd d' hd' (of_decide_eq_true hfit)

/-- With lines that are those of the own nodes, the nodes are the own ones: all together they would
be larger otherwise. -/
theorem pairedNodes_of_lines
    (h : (runTsQuery q.captures).map (fun m ↦ (m.name, m.place)) =
      q.definitions.map fun d ↦ (d.name.text, .node d.node.startLine d.node.endLine)) :
    pairedNodes q.captures = q.definitions.map fun d ↦ some d.node := by
  rw [map_runTsQuery] at h
  have hlength : (pairedNodes q.captures).length = q.definitions.length :=
    (length_firstFit _ _).trans (List.length_map _)
  obtain ⟨nodes, hnodes, hlines⟩ := exists_nodes_of_lines hlength h
  have hsize := forall₂_size_of_firstFit TsNode.size q.perm (fun d hd node hnode hfit ↦ by
    obtain ⟨hstart, hend⟩ := q.contains_of_fits hd hnode hfit
    unfold TsNode.size
    omega) hnodes
  have hcontains : List.Forall₂ (fun d node ↦ node.Contains d.node) q.definitions nodes :=
    ((List.forall₂_and_left _ _).mpr ⟨fun d (hd : d ∈ q.definitions) ↦ hd,
      List.forall₂_map_left_iff.mp (forall₂_of_firstFit hnodes)⟩).imp
        fun d node ⟨hd, hfit, hnode⟩ ↦ q.contains_of_fits hd hnode hfit
  have hbytes : List.Forall₂ (fun d node ↦ node.startByte = d.node.startByte ∧
      node.endByte = d.node.endByte) q.definitions nodes := by
    refine hcontains.mp (fun d node ⟨hstart, hend⟩ hsize ↦ ?_) hsize
    unfold TsNode.size at hsize
    omega
  have hown : List.Forall₂ (fun d node ↦ some d.node = some node) q.definitions nodes := by
    refine hbytes.mp (fun d node ⟨hstart, hend⟩ ⟨hstart', hend'⟩ ↦ ?_) hlines
    congr 1
    cases node
    cases hd : d.node
    simp_all
  rw [hnodes, eq_comm, ← List.forall₂_eq_eq_eq, List.forall₂_map_left_iff,
    List.forall₂_map_right_iff]
  exact hown

/-- `_run_ts_query` pairs each name with its own node when the outer names come first where it
matters. -/
theorem pairsOwnNodes_iff : q.PairsOwnNodes ↔ q.ListsOuterNamesFirst := by
  constructor
  · rintro ⟨hlines, -⟩
    obtain ⟨order, hperm, hmap, hpairwise⟩ := exists_order_of_firstFit q.nodup
      (q.perm.length_eq.trans (List.length_map _)) (q.pairedNodes_of_lines hlines)
    exact ⟨order, hperm, hmap, hpairwise.imp fun h hfit ↦ h (decide_eq_true hfit)⟩
  · rintro ⟨order, hperm, hmap, hpairwise⟩
    refine ⟨?_, reduceOption_firstFit_subperm _ _ _⟩
    have hpaired : pairedNodes q.captures = q.definitions.map fun d ↦ some d.node := by
      rw [pairedNodes, captures, ← hmap]
      exact firstFit_of_order (fun d hd ↦ decide_eq_true (q.contains d hd)) q.nodup hperm
        (hpairwise.imp fun h hfit ↦ h (of_decide_eq_true hfit))
    rw [map_runTsQuery, hpaired, captures, List.zipWith_map, List.zipWith_self]
    rfl

end QueryDefinitions

/-! ### A nested function -/

private def outerFunction : NamedNode := ⟨⟨⟨4, 9, 1, 1⟩, "outer"⟩, ⟨0, 42, 1, 3⟩⟩

private def innerFunction : NamedNode := ⟨⟨⟨21, 26, 2, 2⟩, "inner"⟩, ⟨17, 42, 2, 3⟩⟩

/-- `def outer():`, and in it `def inner(): pass`: the name of the inner function is listed first,
the node of the outer one. -/
def nestedFunctions : QueryDefinitions where
  definitions := [innerFunction, outerFunction]
  nodes := [outerFunction.node, innerFunction.node]
  targets := []
  nodup := by decide
  perm := .swap _ _ _
  contains := by decide
  innermost := by decide

/-- The inner name gets the lines of the outer function, and the outer name no node. -/
theorem not_pairsOwnNodes_nestedFunctions : ¬ nestedFunctions.PairsOwnNodes := by
  intro h
  exact absurd h.1 (by decide)

end GithubAgent.Indexing
