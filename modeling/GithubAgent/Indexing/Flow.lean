import GithubAgent.Indexing.Impact
import GithubAgent.Indexing.Ranges

/-!
# The flow from an entry point

`trace_flow` of `src/shared/code_graph.py`: its list of steps, which a queue fills breadth-first,
and its call chain, which `_build_call_chain` descends into, against the distances from the entry
point.
-/

namespace GithubAgent.Indexing.SymbolIndex

open GithubAgent.Base

/-! ### The steps -/

section Steps

variable {calls : String → Finset String} {defs : DefCache} {entryPoint : String} {maxDepth : Nat}

/-- What holds all along the `while` of `trace_flow`. The queue is in the order of the distances,
which are those of one level and of the next; a visited name that is not in the queue any more has
been expanded, unless it is at the maximal depth. -/
structure Tracing (calls : String → Finset String) (entryPoint : String) (maxDepth : Nat)
    (trace : Trace) : Prop where
  visited : ∀ v, v ∈ trace.visited ↔ v = entryPoint ∨ v ∈ trace.steps.map FlowStep.name
  nodup : (entryPoint :: trace.steps.map FlowStep.name).Nodup
  steps : ∀ s ∈ trace.steps, ∃ d < maxDepth, s.depth = d + 1 ∧
    At calls {entryPoint} (d + 1) s.name ∧ At calls {entryPoint} d s.caller ∧
    s.name ∈ calls s.caller
  queued : ∀ x ∈ trace.frontier, At calls {entryPoint} x.2 x.1
  ordered : trace.frontier.Pairwise fun x y ↦ x.2 ≤ y.2
  spread : ∀ x ∈ trace.frontier, ∀ y ∈ trace.frontier, y.2 ≤ x.2 + 1
  expanded : ∀ d u, u ∈ trace.visited → At calls {entryPoint} d u → d < maxDepth →
    (u, d) ∉ trace.frontier → calls u ⊆ trace.visited

/-- The names that are at most as far as all of the queue are visited. -/
theorem Tracing.mem_visited {trace : Trace} (h : Tracing calls entryPoint maxDepth trace)
    {bound : Nat} (hbound : ∀ x ∈ trace.frontier, bound ≤ x.2) (hmax : bound ≤ maxDepth)
    {d : Nat} {v : String} (hd : d ≤ bound) (hv : At calls {entryPoint} d v) :
    v ∈ trace.visited := by
  induction d generalizing v with
  | zero =>
    have hentry : v ∈ ({entryPoint} : Set String) := by simpa using distance_zero_iff.mp hv
    exact (h.visited v).mpr (.inl hentry)
  | succ d ih =>
    obtain ⟨⟨u, hu, hcall⟩, -⟩ := distance_succ_iff.mp hv
    have hqueue : (u, d) ∉ trace.frontier := fun hmem ↦ absurd (hbound _ hmem) (by omega)
    exact h.expanded d u (ih (by omega) hu) hu (by omega) hqueue hcall

/-- The step to a callee (`code_graph.py:904-925`). -/
def flowStep (defs : DefCache) (caller : String) (depth : Nat) (callee : String) : FlowStep :=
  match definitionsOf defs callee with
  | d :: _ => ⟨callee, caller, some d.filepath, some d.line, d.category, depth + 1⟩
  | [] => ⟨callee, caller, none, none, "unknown", depth + 1⟩

theorem flowStep_fields (defs : DefCache) (caller : String) (depth : Nat) (callee : String) :
    (flowStep defs caller depth callee).name = callee ∧
      (flowStep defs caller depth callee).caller = caller ∧
      (flowStep defs caller depth callee).depth = depth + 1 := by
  unfold flowStep
  split
  · exact ⟨rfl, rfl, rfl⟩
  · exact ⟨rfl, rfl, rfl⟩

/-- The callees of a name: those not visited before are each listed, and queued. -/
theorem foldl_traceCallee (caller : String) (depth : Nat) {callees : List String}
    (hnodup : callees.Nodup) (trace : Trace) :
    callees.foldl (traceCallee defs caller depth) trace =
      { visited := trace.visited ∪ callees.toFinset
        steps := trace.steps ++
          (callees.filter (· ∉ trace.visited)).map (flowStep defs caller depth)
        frontier := trace.frontier ++
          (callees.filter (· ∉ trace.visited)).map fun callee ↦ (callee, depth + 1) } := by
  induction callees generalizing trace with
  | nil => simp
  | cons callee rest ih =>
    obtain ⟨hnot, hrest⟩ := List.nodup_cons.mp hnodup
    rw [List.foldl_cons, ih hrest, List.toFinset_cons, Finset.union_insert]
    unfold traceCallee
    split
    · next hseen =>
      rw [List.filter_cons_of_neg (by simpa using hseen),
        Finset.insert_eq_of_mem (Finset.mem_union_left _ hseen)]
    · next hnew =>
      have hfilter : rest.filter (· ∉ insert callee trace.visited) =
          rest.filter (· ∉ trace.visited) := by
        apply List.filter_congr
        intro c hc
        have hne : c ≠ callee := fun heq ↦ hnot (heq ▸ hc)
        simp [hne]
      rw [List.filter_cons_of_pos (by simpa using hnew)]
      simp only [hfilter, Finset.insert_union, List.map_cons, List.append_assoc,
        List.singleton_append]
      rfl

/-- A name at the maximal depth is taken from the queue. -/
theorem Tracing.skip {trace : Trace} (h : Tracing calls entryPoint maxDepth trace)
    {name : String} {depth : Nat} {rest : List (String × Nat)}
    (hfrontier : trace.frontier = (name, depth) :: rest) (hmax : maxDepth ≤ depth) :
    Tracing calls entryPoint maxDepth { trace with frontier := rest } where
  visited := h.visited
  nodup := h.nodup
  steps := h.steps
  queued x hx := h.queued x (hfrontier ▸ List.mem_cons_of_mem _ hx)
  ordered := (List.pairwise_cons.mp (hfrontier ▸ h.ordered)).2
  spread x hx y hy := h.spread x (hfrontier ▸ List.mem_cons_of_mem _ hx) y
    (hfrontier ▸ List.mem_cons_of_mem _ hy)
  expanded d u hu hdistance hd hnot := by
    refine h.expanded d u hu hdistance hd fun hmem ↦ ?_
    rw [hfrontier] at hmem
    rcases List.mem_cons.mp hmem with heq | hmem
    · obtain ⟨-, rfl⟩ := Prod.mk.inj heq
      omega
    · exact hnot hmem

/-- The steps to some callees have their names. -/
theorem names_flowStep (name : String) (depth : Nat) (callees : List String) :
    (callees.map (flowStep defs name depth)).map FlowStep.name = callees := by
  rw [List.map_map]
  exact (List.map_congr_left fun v _ ↦ (flowStep_fields defs name depth v).1).trans
    (List.map_id callees)

/-- The callees of a name that are not visited, in their order. -/
def newCallees (calls : String → Finset String) (trace : Trace) (name : String) : List String :=
  (sorted (calls name)).filter (· ∉ trace.visited)

theorem mem_newCallees {trace : Trace} {name v : String} :
    v ∈ newCallees calls trace name ↔ v ∈ calls name ∧ v ∉ trace.visited := by
  rw [newCallees, List.mem_filter, mem_sorted, decide_eq_true_iff]

/-- What is behind the head of the queue is as deep, or one deeper. -/
theorem Tracing.rest_depth {trace : Trace} (h : Tracing calls entryPoint maxDepth trace)
    {name : String} {depth : Nat} {rest : List (String × Nat)}
    (hfrontier : trace.frontier = (name, depth) :: rest) {x : String × Nat} (hx : x ∈ rest) :
    depth ≤ x.2 ∧ x.2 ≤ depth + 1 :=
  ⟨(List.pairwise_cons.mp (hfrontier ▸ h.ordered)).1 x hx,
    h.spread _ (hfrontier ▸ List.mem_cons_self) x (hfrontier ▸ List.mem_cons_of_mem _ hx)⟩

/-- A callee of the head of the queue that is not visited is one step farther. -/
theorem Tracing.at_newCallees {trace : Trace} (h : Tracing calls entryPoint maxDepth trace)
    {name : String} {depth : Nat} {rest : List (String × Nat)}
    (hfrontier : trace.frontier = (name, depth) :: rest) (hmax : depth < maxDepth) {v : String}
    (hv : v ∈ newCallees calls trace name) : At calls {entryPoint} (depth + 1) v := by
  have hhead : At calls {entryPoint} depth name := h.queued _ (hfrontier ▸ List.mem_cons_self)
  have hbound : ∀ x ∈ trace.frontier, depth ≤ x.2 := by
    rw [hfrontier]
    exact List.forall_mem_cons.mpr ⟨le_rfl, fun x hx ↦ (h.rest_depth hfrontier hx).1⟩
  obtain ⟨hcall, hnot⟩ := mem_newCallees.mp hv
  exact distance_succ_iff.mpr ⟨⟨name, hhead, hcall⟩, fun k hk hv ↦
    hnot (h.mem_visited hbound hmax.le hk hv)⟩

/-- Names that are one deeper are added to the end of a queue. -/
theorem forall_mem_queue {rest : List (String × Nat)} {depth : Nat} {P : String × Nat → Prop}
    {callees : List String} (hrest : ∀ x ∈ rest, P x)
    (hnew : ∀ callee ∈ callees, P (callee, depth + 1)) :
    ∀ x ∈ rest ++ callees.map fun callee ↦ (callee, depth + 1), P x :=
  List.forall_mem_append.mpr ⟨hrest, List.forall_mem_map.mpr hnew⟩

/-- After the expansion of the head, a name that was visited before, is not queued behind it and is
not at the maximal depth has its callees visited. -/
theorem Tracing.expanded_head {trace : Trace} (h : Tracing calls entryPoint maxDepth trace)
    {name : String} {depth : Nat} {rest : List (String × Nat)}
    (hfrontier : trace.frontier = (name, depth) :: rest) {d : Nat} {u : String}
    (hu : u ∈ trace.visited) (hdistance : At calls {entryPoint} d u) (hd : d < maxDepth)
    (hnot : (u, d) ∉ rest) : calls u ⊆ trace.visited ∪ (sorted (calls name)).toFinset := by
  intro v hv
  by_cases hname : u = name
  · subst hname
    exact Finset.mem_union_right _ (List.mem_toFinset.mpr (mem_sorted.mpr hv))
  · refine Finset.mem_union_left _ (h.expanded d u hu hdistance hd (fun hmem ↦ ?_) hv)
    rw [hfrontier] at hmem
    rcases List.mem_cons.mp hmem with heq | hmem
    · exact hname (Prod.mk.inj heq).1
    · exact hnot hmem

/-- A name is taken from the queue and expanded. -/
theorem Tracing.expand {trace : Trace} (h : Tracing calls entryPoint maxDepth trace)
    {name : String} {depth : Nat} {rest : List (String × Nat)}
    (hfrontier : trace.frontier = (name, depth) :: rest) (hmax : depth < maxDepth) :
    Tracing calls entryPoint maxDepth
      ((sorted (calls name)).foldl (traceCallee defs name depth)
        { trace with frontier := rest }) := by
  have hhead : At calls {entryPoint} depth name := h.queued _ (hfrontier ▸ List.mem_cons_self)
  have hnew : ∀ v ∈ newCallees calls trace name, At calls {entryPoint} (depth + 1) v :=
    fun _ ↦ h.at_newCallees hfrontier hmax
  have hdepth : ∀ x ∈ rest ++ (newCallees calls trace name).map fun callee ↦ (callee, depth + 1),
      depth ≤ x.2 ∧ x.2 ≤ depth + 1 :=
    forall_mem_queue (fun x hx ↦ h.rest_depth hfrontier hx) fun _ _ ↦ ⟨Nat.le_succ depth, le_rfl⟩
  have hsteps : ((trace.steps ++ (newCallees calls trace name).map (flowStep defs name depth)).map
      FlowStep.name) = trace.steps.map FlowStep.name ++ newCallees calls trace name := by
    rw [List.map_append, names_flowStep]
  rw [foldl_traceCallee name depth (nodup_sorted _)]
  refine ⟨fun v ↦ ?_, ?_, fun s hs ↦ ?_, ?_, ?_, fun x hx y hy ↦ ?_, ?_⟩
  · refine Iff.trans ?_ (or_congr_right (Iff.of_eq (congrArg (v ∈ ·) hsteps.symm)))
    rw [List.mem_append, ← or_assoc, ← h.visited, mem_newCallees, Finset.mem_union,
      List.mem_toFinset, mem_sorted]
    tauto
  · refine (congrArg (fun l ↦ (entryPoint :: l).Nodup) hsteps).mpr ?_
    rw [← List.cons_append, List.nodup_append]
    refine ⟨h.nodup, (nodup_sorted _).filter _, fun a ha b hb heq ↦ ?_⟩
    exact (mem_newCallees.mp hb).2 ((h.visited b).mpr (heq ▸ List.mem_cons.mp ha))
  · rcases List.mem_append.mp hs with hs | hs
    · exact h.steps s hs
    · obtain ⟨v, hv, rfl⟩ := List.mem_map.mp hs
      obtain ⟨hname, hcaller, hdepth⟩ := flowStep_fields defs name depth v
      rw [hname, hcaller, hdepth]
      exact ⟨depth, hmax, rfl, hnew v hv, hhead, (mem_newCallees.mp hv).1⟩
  · exact forall_mem_queue (fun x hx ↦ h.queued x (hfrontier ▸ List.mem_cons_of_mem _ hx)) hnew
  · refine List.pairwise_append.mpr ⟨(List.pairwise_cons.mp (hfrontier ▸ h.ordered)).2,
      List.pairwise_map.mpr (List.pairwise_of_forall fun _ _ ↦ le_rfl), fun x hx ↦ ?_⟩
    exact List.forall_mem_map.mpr fun _ _ ↦ (h.rest_depth hfrontier hx).2
  · exact (hdepth y hy).2.trans (Nat.succ_le_succ (hdepth x hx).1)
  · intro d u hu hdistance hd hnot
    by_cases hold : u ∈ trace.visited
    · exact h.expanded_head hfrontier hold hdistance hd fun hmem ↦
        hnot (List.mem_append_left _ hmem)
    · -- what is new is in the queue
      have hcall : u ∈ calls name := by
        refine (Finset.mem_union.mp hu).elim (absurd · hold) fun hu ↦ ?_
        exact mem_sorted.mp (List.mem_toFinset.mp hu)
      have hmem : u ∈ newCallees calls trace name := mem_newCallees.mpr ⟨hcall, hold⟩
      obtain rfl : d = depth + 1 := hdistance.unique (hnew u hmem)
      exact absurd (List.mem_append_right _ (List.mem_map.mpr ⟨u, hmem, rfl⟩)) hnot

theorem Tracing.traceLoop (n : Nat) {trace : Trace} (h : Tracing calls entryPoint maxDepth trace) :
    Tracing calls entryPoint maxDepth (traceLoop calls defs maxDepth n trace) := by
  induction n generalizing trace with
  | zero => exact h
  | succ n ih =>
    rw [SymbolIndex.traceLoop]
    split
    · exact h
    · next name depth rest hfrontier =>
      split
      · next hmax => exact ih (h.skip hfrontier hmax)
      · next hmax => exact ih (h.expand hfrontier (Nat.lt_of_not_le hmax))

theorem tracing_start : Tracing calls entryPoint maxDepth
    ⟨{entryPoint}, [], [(entryPoint, 0)]⟩ := by
  have hzero : At calls {entryPoint} 0 entryPoint :=
    distance_zero_iff.mpr (Finset.mem_coe.mpr (Finset.mem_singleton_self _))
  refine ⟨fun v ↦ ?_, List.nodup_singleton _, nofun, ?_, List.pairwise_singleton _ _, ?_, ?_⟩
  · simp
  · exact fun x hx ↦ List.mem_singleton.mp hx ▸ hzero
  · intro x hx y hy
    rw [List.mem_singleton.mp hx, List.mem_singleton.mp hy]
    exact Nat.zero_le _
  · intro d u hu hdistance _ hnot
    obtain rfl := Finset.mem_singleton.mp hu
    obtain rfl := hdistance.unique hzero
    exact absurd List.mem_cons_self hnot

/-- Once the queue is empty, the steps are the names within the depth. -/
theorem Tracing.mem_steps_iff {trace : Trace} (h : Tracing calls entryPoint maxDepth trace)
    (hempty : trace.frontier = []) (v : String) :
    v ∈ trace.steps.map FlowStep.name ↔ ∃ d, 1 ≤ d ∧ d ≤ maxDepth ∧ At calls {entryPoint} d v := by
  constructor
  · intro hv
    obtain ⟨s, hs, rfl⟩ := List.mem_map.mp hv
    obtain ⟨d, hd, -, hdistance, -⟩ := h.steps s hs
    exact ⟨d + 1, by omega, hd, hdistance⟩
  · rintro ⟨d, hpos, hd, hdistance⟩
    have hvisited := h.mem_visited (by simp [hempty]) le_rfl hd hdistance
    refine ((h.visited v).mp hvisited).resolve_left fun heq ↦ ?_
    have hzero : At calls {entryPoint} 0 v :=
      distance_zero_iff.mpr (Finset.mem_coe.mpr (Finset.mem_singleton.mpr heq))
    exact absurd (hdistance.unique hzero) (by omega)

end Steps

/-! ### The call chain -/

namespace CallChain

def name : CallChain → String
  | .truncated name => name
  | .node name _ => name

/-- The nodes of a call chain, each with the names above it. -/
inductive Reaches (chain : CallChain) : List String → CallChain → Prop where
  | root : Reaches chain [] chain
  | callee {above : List String} {name : String} {callees : List CallChain} {c : CallChain} :
      Reaches chain above (.node name callees) → c ∈ callees → Reaches chain (above ++ [name]) c

end CallChain

section Chain

variable {calls : String → Finset String} {visited : Finset String} {entryPoint : String}
  {maxDepth : Nat}

@[simp] theorem name_buildCallChain (n : Nat) (path : Finset String) (name : String) :
    (buildCallChain calls visited n path name).name = name := by
  cases n with
  | zero => rfl
  | succ n =>
    rw [buildCallChain]
    split
    · rfl
    · rfl

/-- Where a call chain is not cut off, the name is not on the path, and its visited callees
follow. -/
theorem of_buildCallChain_eq_node {n : Nat} {path : Finset String} {name u : String}
    {callees : List CallChain} (h : buildCallChain calls visited n path u = .node name callees) :
    ∃ k, n = k + 1 ∧ u = name ∧ u ∉ path ∧
      callees = ((sorted (calls u)).filter (· ∈ visited)).map
        (buildCallChain calls visited k (insert u path)) := by
  cases n with
  | zero => cases h
  | succ n =>
    rw [buildCallChain] at h
    split at h
    · cases h
    · next hnot =>
      obtain ⟨rfl, rfl⟩ := CallChain.node.inj h
      exact ⟨n, rfl, rfl, hnot, rfl⟩

/-- Each node is the call chain of a visited name; the path is made of the names above it. -/
theorem of_reaches (hentry : entryPoint ∈ visited) {above : List String} {c : CallChain}
    (h : (buildCallChain calls visited maxDepth ∅ entryPoint).Reaches above c) :
    ∃ n path u, c = buildCallChain calls visited n path u ∧ u ∈ visited ∧
      ∀ w, w ∈ path ↔ w ∈ above := by
  induction h with
  | root => exact ⟨maxDepth, ∅, entryPoint, rfl, hentry, by simp⟩
  | @callee above name callees c _ hc ih =>
    obtain ⟨n, path, u, heq, -, hpath⟩ := ih
    obtain ⟨k, -, rfl, -, rfl⟩ := of_buildCallChain_eq_node heq.symm
    obtain ⟨w, hw, rfl⟩ := List.mem_map.mp hc
    refine ⟨k, insert u path, w, rfl, of_decide_eq_true (List.mem_filter.mp hw).2, fun v ↦ ?_⟩
    rw [Finset.mem_insert, hpath, List.mem_append, List.mem_singleton]
    exact or_comm

/-- A name is repeated only where the call chain is cut off. -/
theorem truncated_of_reaches (hentry : entryPoint ∈ visited) {above : List String} {c : CallChain}
    (h : (buildCallChain calls visited maxDepth ∅ entryPoint).Reaches above c)
    (hrepeat : c.name ∈ above) : c = .truncated c.name := by
  obtain ⟨n, path, u, rfl, -, hpath⟩ := of_reaches hentry h
  rw [name_buildCallChain] at hrepeat ⊢
  cases n with
  | zero => rfl
  | succ n => rw [buildCallChain, if_pos ((hpath u).mpr hrepeat)]

/-- A name within the depth is reached along a shortest walk, on which no name is repeated. -/
theorem reaches_of_distance
    (hvisited : ∀ d v, d ≤ maxDepth → At calls {entryPoint} d v → v ∈ visited) {d : Nat}
    {v : String} (hd : d ≤ maxDepth) (h : At calls {entryPoint} d v) :
    ∃ above path, (buildCallChain calls visited maxDepth ∅ entryPoint).Reaches above
        (buildCallChain calls visited (maxDepth - d) path v) ∧
      ∀ w ∈ path, ∃ k < d, At calls {entryPoint} k w := by
  induction d generalizing v with
  | zero =>
    have heq : v ∈ ({entryPoint} : Set String) := by simpa using distance_zero_iff.mp h
    obtain rfl : v = entryPoint := heq
    exact ⟨[], ∅, .root, nofun⟩
  | succ d ih =>
    obtain ⟨⟨u, hu, hcall⟩, -⟩ := distance_succ_iff.mp h
    obtain ⟨above, path, hreach, hpath⟩ := ih (Nat.le_of_succ_le hd) hu
    have hnot : u ∉ path := by
      intro hmem
      obtain ⟨k, hk, hk'⟩ := hpath u hmem
      exact hk.ne (hk'.unique hu)
    have hleft : maxDepth - d = (maxDepth - (d + 1)) + 1 := by omega
    rw [hleft, buildCallChain, if_neg hnot] at hreach
    refine ⟨above ++ [u], insert u path, hreach.callee (List.mem_map.mpr ⟨v, ?_, rfl⟩), ?_⟩
    · exact List.mem_filter.mpr
        ⟨mem_sorted.mpr hcall, decide_eq_true (hvisited (d + 1) v hd h)⟩
    · intro w hw
      rcases Finset.mem_insert.mp hw with rfl | hw
      · exact ⟨d, Nat.lt_succ_self d, hu⟩
      · obtain ⟨k, hk, hk'⟩ := hpath w hw
        exact ⟨k, hk.trans (Nat.lt_succ_self d), hk'⟩

end Chain

/-! ### The answer -/

section Answer

/-- `max(1, min(max_depth, 50))`. -/
def clampedDepth (maxDepth : Int) : Nat := (max 1 (min maxDepth 50)).toNat

/-- A flow lists each name within the depth once, with its distance and a caller one level closer;
its call chain has the same names, and repeats a name on a branch only where it is cut off. -/
structure Flow.Describes (calls : String → Finset String) (maxDepth : Nat) (flow : Flow) :
    Prop where
  once : (flow.steps.map FlowStep.name).Nodup
  reachable : ∀ v, v ∈ flow.steps.map FlowStep.name ↔
    ∃ d, 1 ≤ d ∧ d ≤ maxDepth ∧ At calls {flow.entryPoint} d v
  closer : ∀ s ∈ flow.steps, ∃ d, s.depth = d + 1 ∧ At calls {flow.entryPoint} (d + 1) s.name ∧
    At calls {flow.entryPoint} d s.caller ∧ s.name ∈ calls s.caller
  names : ∀ v, (∃ above c, flow.callChain.Reaches above c ∧ c.name = v) ↔
    v = flow.entryPoint ∨ v ∈ flow.steps.map FlowStep.name
  repeats : ∀ above c, flow.callChain.Reaches above c → c.name ∈ above → c = .truncated c.name

/-- The list and the tree that a trace of the calls ends with. -/
theorem Tracing.describes {calls : String → Finset String} {maxDepth : Nat} {trace : Trace}
    {entryPoint : String} (h : Tracing calls entryPoint maxDepth trace)
    (hempty : trace.frontier = []) (d : FoundTag) (reached : Bool) :
    Flow.Describes calls maxDepth ⟨entryPoint, d, trace.steps, trace.steps.length, reached,
      buildCallChain calls trace.visited maxDepth ∅ entryPoint⟩ := by
  have hentry : entryPoint ∈ trace.visited := (h.visited entryPoint).mpr (.inl rfl)
  have hvisited : ∀ d v, d ≤ maxDepth → At calls {entryPoint} d v → v ∈ trace.visited :=
    fun d v hd hv ↦ h.mem_visited (by simp [hempty]) le_rfl hd hv
  have hzero : At calls {entryPoint} 0 entryPoint :=
    distance_zero_iff.mpr (Finset.mem_coe.mpr (Finset.mem_singleton_self _))
  refine ⟨(List.nodup_cons.mp h.nodup).2, h.mem_steps_iff hempty, fun s hs ↦ ?_, fun v ↦ ?_,
    fun above c hreach hrepeat ↦ truncated_of_reaches hentry hreach hrepeat⟩
  · obtain ⟨d, -, hs⟩ := h.steps s hs
    exact ⟨d, hs⟩
  · rw [← h.visited]
    constructor
    · rintro ⟨above, c, hreach, rfl⟩
      obtain ⟨n, path, u, rfl, hu, -⟩ := of_reaches hentry hreach
      rwa [name_buildCallChain]
    · intro hv
      have hdistance : ∃ d ≤ maxDepth, At calls {entryPoint} d v := by
        rcases (h.visited v).mp hv with rfl | hstep
        · exact ⟨0, Nat.zero_le _, hzero⟩
        · obtain ⟨d, -, hd, hd'⟩ := (h.mem_steps_iff hempty v).mp hstep
          exact ⟨d, hd, hd'⟩
      obtain ⟨d, hd, hd'⟩ := hdistance
      obtain ⟨above, path, hreach, -⟩ := reaches_of_distance hvisited hd hd'
      exact ⟨above, _, hreach, name_buildCallChain _ _ _⟩

variable (t : Tables) (args : FlowArgs) (scope : String) (c : Caches)

/-- `trace_flow` returns, and what it traces describes the calls that are cached. -/
def TracesFlow : Prop :=
  ∃ answer, (traceFlow t args scope c).1 = some answer ∧
    ∀ flow, answer = .flow flow → flow.entryPoint = args.entryPoint ∧
      ∃ edges, (getEdgeCache t scope c).1 = some edges ∧
        flow.Describes (targets (edges .calls)) (clampedDepth args.maxDepth)

/-- The symbol is not found, or a file hint, if there is one, leaves a definition. -/
def HintLeavesDefinition : Prop :=
  t.findDefinitions args.entryPoint scope = [] ∨
    ∃ d ∈ t.findDefinitions args.entryPoint scope, ∀ hint ∈ args.fileHint, hint ≠ "" →
      d.filepath = hint

theorem entryDefinitions_ne_nil_iff :
    entryDefinitions t args scope ≠ [] ↔
      ∃ d ∈ t.findDefinitions args.entryPoint scope, ∀ hint ∈ args.fileHint, hint ≠ "" →
        d.filepath = hint := by
  have hmem : entryDefinitions t args scope ≠ [] ↔ ∃ d, d ∈ entryDefinitions t args scope :=
    ⟨List.exists_mem_of_ne_nil _, fun ⟨_, h⟩ ↦ List.ne_nil_of_mem h⟩
  refine hmem.trans (exists_congr fun d ↦ ?_)
  unfold entryDefinitions
  cases args.fileHint with
  | none => simp
  | some hint =>
    by_cases hempty : hint = "" <;> simp [hempty]

/-- Only when the hint leaves no definition of a symbol that is found does `trace_flow` raise. -/
theorem tracesFlow_iff : TracesFlow t args scope c ↔ HintLeavesDefinition t args scope := by
  rw [HintLeavesDefinition, ← entryDefinitions_ne_nil_iff, TracesFlow, traceFlow]
  by_cases hfound : t.findDefinitions args.entryPoint scope = []
  · rw [if_pos hfound]
    exact iff_of_true ⟨_, rfl, nofun⟩ (.inl hfound)
  · rw [if_neg hfound]
    rcases hdefs : entryDefinitions t args scope with _ | ⟨d, _ | ⟨d', rest⟩⟩
    · refine iff_of_false ?_ (by simp [hfound])
      rintro ⟨answer, h, -⟩
      cases h
    · refine iff_of_true ⟨_, rfl, ?_⟩ (.inr (List.cons_ne_nil _ _))
      rintro flow ⟨⟩
      exact ⟨rfl, _, rfl, (tracing_start.traceLoop _).describes (frontier_traceFlow _) _ _⟩
    · exact iff_of_true ⟨_, rfl, nofun⟩ (.inr (List.cons_ne_nil _ _))

/-- A function whose only definition is not in the file of the hint. -/
theorem not_tracesFlow_hint :
    ¬ ∀ (t : Tables) (args : FlowArgs) (scope : String) (c : Caches),
      TracesFlow t args scope c := by
  intro h
  obtain ⟨answer, hanswer, -⟩ :=
    h functionTables ⟨"handle", some "lib.py", 5⟩ "o/r" Caches.empty
  have hraise : (traceFlow functionTables ⟨"handle", some "lib.py", 5⟩ "o/r" Caches.empty).1 =
      none := by
    have hfound : functionTables.findDefinitions "handle" "o/r" ≠ [] := by decide
    have hleft : entryDefinitions functionTables ⟨"handle", some "lib.py", 5⟩ "o/r" = [] := by
      decide
    rw [traceFlow, if_neg hfound, hleft]
    rfl
  cases hraise.symm.trans hanswer

end Answer

end GithubAgent.Indexing.SymbolIndex
