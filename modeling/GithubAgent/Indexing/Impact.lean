import GithubAgent.Base.Distance
import GithubAgent.Base.Lists
import GithubAgent.Indexing.Queries

/-!
# The levels of an impact

`_bfs_upstream` and `_bfs_downstream` of `src/shared/code_graph.py` against the distances in the
graph of the calls.
-/

namespace GithubAgent.Indexing.SymbolIndex

open GithubAgent.Base

/-! ### Levels -/

/-- The entries of a name: one for each of its definitions. -/
def impactItems (defs : DefCache) (name : String) : List ImpactItem :=
  (definitionsOf defs name).map fun d ↦ ⟨name, d.filepath, d.line, d.category⟩

/-- `impact.get(depth, [])`. -/
def Impact.level (impact : Impact) (depth : Nat) : List ImpactItem := (dictGet impact depth).getD []

/-- The names that are reached from the seeds, by their distance. -/
def At (neighbours : String → Finset String) (seeds : Finset String) : Nat → String → Prop :=
  Distance (fun u v ↦ v ∈ neighbours u) (seeds : Set String)

/-- The map has, at each depth in a range, the entries of the names at that distance, and nothing
else. -/
structure Impact.Holds (neighbours : String → Finset String) (defs : DefCache)
    (seeds : Finset String) (low high : Nat) (impact : Impact) : Prop where
  keys : (impact.map Prod.fst).Nodup
  depths : ∀ depth ∈ impact.map Prod.fst, low < depth ∧ depth ≤ high
  entries : ∀ depth name, low < depth → depth ≤ high → At neighbours seeds depth name →
    (impact.level depth).filter (·.name = name) = impactItems defs name
  others : ∀ depth, ∀ item ∈ impact.level depth, At neighbours seeds depth item.name

theorem filter_impactItems (defs : DefCache) (name other : String) :
    (impactItems defs name).filter (·.name = other) =
      if name = other then impactItems defs name else [] := by
  split
  · next h =>
    rw [List.filter_eq_self]
    intro item hitem
    obtain ⟨d, -, rfl⟩ := List.mem_map.mp hitem
    exact decide_eq_true h
  · next h =>
    rw [List.filter_eq_nil_iff]
    intro item hitem
    obtain ⟨d, -, rfl⟩ := List.mem_map.mp hitem
    exact fun heq ↦ h (of_decide_eq_true heq)

theorem Impact.level_cons {impact : Impact} {depth : Nat} (items : List ImpactItem) (e : Nat)
    (h : depth ∉ impact.map Prod.fst) :
    Impact.level ((depth, items) :: impact) e = if e = depth then items else impact.level e := by
  rw [Impact.level, dictGet_cons]
  split
  · next heq =>
    obtain rfl : e = depth := by simpa using heq
    have hnone : dictGet impact e = none := dictGet_of_forall_ne fun pair hpair heq ↦
      h (List.mem_map.mpr ⟨pair, hpair, heq⟩)
    rw [hnone, Option.none_or, Option.getD_some, if_pos rfl]
  · next hne =>
    rw [if_neg (by simpa using hne), Option.or_none]
    rfl

theorem Impact.level_of_notMem {impact : Impact} {depth : Nat}
    (h : depth ∉ impact.map Prod.fst) : impact.level depth = [] := by
  have hnone : dictGet impact depth = none := dictGet_of_forall_ne fun pair hpair heq ↦
    h (List.mem_map.mpr ⟨pair, hpair, heq⟩)
  rw [Impact.level, hnone, Option.getD_none]

/-! ### One level of the search -/

/-- What is visited on a level: the names not seen before are new, each with its entries. -/
theorem foldl_visit (defs : DefCache) (found : List String) (level : Level) :
    (found.foldl (visit defs) level).visited = level.visited ∪ found.toFinset ∧
      (found.foldl (visit defs) level).next = level.next ∪ (found.toFinset \ level.visited) ∧
      ∀ name, (found.foldl (visit defs) level).items.filter (·.name = name) =
        level.items.filter (·.name = name) ++
          if name ∈ found ∧ name ∉ level.visited then impactItems defs name else [] := by
  induction found generalizing level with
  | nil => simp
  | cons first rest ih =>
    obtain ⟨hvisited, hnext, hitems⟩ := ih (visit defs level first)
    rw [List.foldl_cons]
    unfold visit at hvisited hnext hitems ⊢
    split at hvisited
    · next hseen =>
      rw [if_pos hseen] at hnext hitems ⊢
      refine ⟨?_, ?_, fun name ↦ ?_⟩
      · rw [hvisited, List.toFinset_cons, Finset.union_insert,
          Finset.insert_eq_of_mem (Finset.mem_union_left _ hseen)]
      · rw [hnext, List.toFinset_cons, Finset.insert_sdiff_of_mem _ hseen]
      · rw [hitems]
        congr 1
        have hiff : (name ∈ rest ∧ name ∉ level.visited) ↔
            (name ∈ first :: rest ∧ name ∉ level.visited) := by
          refine and_congr_left fun hnot ↦ ?_
          exact ⟨List.mem_cons_of_mem _, fun h ↦ (List.mem_cons.mp h).resolve_left
            fun heq ↦ hnot (heq ▸ hseen)⟩
        simp only [hiff]
    · next hnew =>
      rw [if_neg hnew] at hnext hitems ⊢
      refine ⟨?_, ?_, fun name ↦ ?_⟩
      · rw [hvisited, List.toFinset_cons, Finset.insert_union, Finset.union_insert]
      · rw [hnext, List.toFinset_cons, Finset.insert_sdiff_of_notMem _ hnew]
        ext name
        simp only [Finset.mem_union, Finset.mem_insert, Finset.mem_sdiff, List.mem_toFinset]
        tauto
      · rw [hitems, List.filter_append, List.append_assoc]
        congr 1
        change (impactItems defs first).filter (·.name = name) ++ _ = _
        rw [filter_impactItems]
        by_cases heq : first = name
        · subst heq
          simp [hnew]
        · have hne : name ≠ first := Ne.symm heq
          simp [heq, hne]

/-! ### The search -/

section Search

variable {iterate : Finset String → List String} {neighbours : String → Finset String}
  {seeds : Finset String}

/-- What is found from the names at a distance, and was not seen before, is one step further
away. -/
theorem mem_found_iff (hiterate : ∀ s v, v ∈ iterate s ↔ v ∈ s) {depth : Nat}
    {visited current : Finset String}
    (hvisited : ∀ v, v ∈ visited ↔ ∃ k ≤ depth, At neighbours seeds k v)
    (hcurrent : ∀ v, v ∈ current ↔ At neighbours seeds depth v) (v : String) :
    v ∈ (iterate current).flatMap (fun u ↦ iterate (neighbours u)) ∧ v ∉ visited ↔
      At neighbours seeds (depth + 1) v := by
  rw [At, distance_succ_iff, hvisited]
  simp only [List.mem_flatMap, hiterate, hcurrent, not_exists, not_and, At]

/-- One level of the search. -/
theorem level_of_distance (defs : DefCache) (hiterate : ∀ s v, v ∈ iterate s ↔ v ∈ s) {depth : Nat}
    {visited current : Finset String}
    (hvisited : ∀ v, v ∈ visited ↔ ∃ k ≤ depth, At neighbours seeds k v)
    (hcurrent : ∀ v, v ∈ current ↔ At neighbours seeds depth v) {level : Level}
    (hlevel : level = (iterate current).foldl (fun level name ↦
      (iterate (neighbours name)).foldl (visit defs) level) ⟨visited, ∅, []⟩) :
    (∀ v, v ∈ level.visited ↔ ∃ k ≤ depth + 1, At neighbours seeds k v) ∧
      (∀ v, v ∈ level.next ↔ At neighbours seeds (depth + 1) v) ∧
      (∀ v, At neighbours seeds (depth + 1) v →
        level.items.filter (·.name = v) = impactItems defs v) ∧
      ∀ item ∈ level.items, At neighbours seeds (depth + 1) item.name := by
  rw [← List.foldl_flatMap] at hlevel
  obtain ⟨hseen, hnext, hitems⟩ := foldl_visit defs
    ((iterate current).flatMap fun u ↦ iterate (neighbours u)) ⟨visited, ∅, []⟩
  have hfound := mem_found_iff hiterate hvisited hcurrent
  rw [← hlevel] at hseen hnext hitems
  refine ⟨fun v ↦ ?_, fun v ↦ ?_, fun v hv ↦ ?_, fun item hitem ↦ ?_⟩
  · rw [hseen, Finset.mem_union, List.mem_toFinset, hvisited]
    constructor
    · rintro (⟨k, hk, h⟩ | hmem)
      · exact ⟨k, hk.trans (Nat.le_succ depth), h⟩
      · by_cases hv : v ∈ visited
        · obtain ⟨k, hk, h⟩ := (hvisited v).mp hv
          exact ⟨k, hk.trans (Nat.le_succ depth), h⟩
        · exact ⟨depth + 1, le_rfl, (hfound v).mp ⟨hmem, hv⟩⟩
    · rintro ⟨k, hk, h⟩
      rcases Nat.le_succ_iff.mp hk with hk | rfl
      · exact .inl ⟨k, hk, h⟩
      · exact .inr ((hfound v).mpr h).1
  · rw [← hfound, hnext, Finset.empty_union, Finset.mem_sdiff, List.mem_toFinset]
  · rw [hitems, if_pos ((hfound v).mpr hv)]
    rfl
  · have hmem : item ∈ level.items.filter (·.name = item.name) :=
      List.mem_filter.mpr ⟨hitem, decide_eq_true rfl⟩
    rw [hitems, List.filter_nil, List.nil_append] at hmem
    split at hmem
    · next h => exact (hfound item.name).mp h
    · cases hmem

/-- A level, and the levels after it. -/
theorem Impact.Holds.cons {defs : DefCache} {depth high : Nat} {items : List ImpactItem}
    {rest impact : Impact}
    (hrest : Impact.Holds neighbours defs seeds (depth + 1) high rest) (hle : depth + 1 ≤ high)
    (hentries : ∀ v, At neighbours seeds (depth + 1) v →
      items.filter (·.name = v) = impactItems defs v)
    (hothers : ∀ item ∈ items, At neighbours seeds (depth + 1) item.name)
    (himpact : impact = if items = [] then rest else (depth + 1, items) :: rest) :
    Impact.Holds neighbours defs seeds depth high impact := by
  have hnotMem : depth + 1 ∉ rest.map Prod.fst :=
    fun hmem ↦ absurd (hrest.depths _ hmem).1 (Nat.lt_irrefl _)
  have hrestDepths : ∀ e ∈ rest.map Prod.fst, depth < e ∧ e ≤ high :=
    fun e he ↦ (hrest.depths e he).imp_left Nat.lt_of_succ_lt
  have hlevel : ∀ e, impact.level e = if e = depth + 1 then items else rest.level e := by
    intro e
    rw [himpact]
    split
    · next hnil =>
      split
      · next heq => rw [heq, Impact.level_of_notMem hnotMem, hnil]
      · rfl
    · exact Impact.level_cons items e hnotMem
  refine ⟨?_, ?_, fun e name hlow hhigh h ↦ ?_, fun e item hitem ↦ ?_⟩
  · rw [himpact]
    split
    · exact hrest.keys
    · exact List.nodup_cons.mpr ⟨hnotMem, hrest.keys⟩
  · rw [himpact]
    split
    · exact hrestDepths
    · exact List.forall_mem_cons.mpr ⟨⟨Nat.lt_succ_self depth, hle⟩, hrestDepths⟩
  · rw [hlevel]
    split
    · next heq => exact hentries name (heq ▸ h)
    · exact hrest.entries e name (by omega) hhigh h
  · rw [hlevel] at hitem
    split at hitem
    · next heq => exact heq ▸ hothers item hitem
    · exact hrest.others e item hitem

/-- From a level on, the search yields what is at each depth that is left. -/
theorem search_holds (defs : DefCache) (hiterate : ∀ s v, v ∈ iterate s ↔ v ∈ s) (n depth : Nat)
    {visited current : Finset String}
    (hvisited : ∀ v, v ∈ visited ↔ ∃ k ≤ depth, At neighbours seeds k v)
    (hcurrent : ∀ v, v ∈ current ↔ At neighbours seeds depth v) :
    Impact.Holds neighbours defs seeds depth (depth + n)
      (search iterate neighbours defs n (depth + 1) visited current) := by
  induction n generalizing depth visited current with
  | zero =>
    exact ⟨List.nodup_nil, nofun, fun e _ hlow hhigh _ ↦ absurd hlow (by omega), nofun⟩
  | succ n ih =>
    obtain ⟨hseen, hnext, hentries, hothers⟩ := level_of_distance defs hiterate hvisited
      hcurrent rfl
    refine Impact.Holds.cons ?_ (by omega) hentries hothers rfl
    split
    · next hempty =>
      -- without a name one step away there is none further away
      have hnone : ∀ e name, depth + 1 < e → ¬ At neighbours seeds e name := by
        intro e name hlt h
        obtain ⟨u, hu⟩ := h.exists_of_le hlt.le
        exact Finset.notMem_empty u (hempty ▸ (hnext u).mpr hu)
      exact ⟨List.nodup_nil, nofun, fun e name hlow _ h ↦ absurd h (hnone e name hlow), nofun⟩
    · rw [show depth + (n + 1) = depth + 1 + n by omega]
      exact ih (depth + 1) hseen hnext

/-- The search from the seeds. -/
theorem search_seeds_holds (defs : DefCache) (hiterate : ∀ s v, v ∈ iterate s ↔ v ∈ s)
    (maxDepth : Nat) :
    Impact.Holds neighbours defs seeds 0 maxDepth
      (search iterate neighbours defs maxDepth 1 seeds seeds) := by
  have hseeds : ∀ v, v ∈ seeds ↔ At neighbours seeds 0 v := fun v ↦ distance_zero_iff.symm
  have hvisited : ∀ v, v ∈ seeds ↔ ∃ k ≤ 0, At neighbours seeds k v := by
    intro v
    simp only [Nat.le_zero, exists_eq_left, hseeds]
  have h := search_holds defs hiterate maxDepth 0 hvisited hseeds
  rwa [Nat.zero_add] at h

end Search

/-! ### The impact -/

/-- Level by level, the map has the entries of the names at that distance from the seeds, up to the
depth; no name is on two levels, and no seed on any. -/
structure Impact.ShortestDistances (neighbours : String → Finset String) (defs : DefCache)
    (seeds : Finset String) (maxDepth : Nat) (impact : Impact) : Prop
    extends Impact.Holds neighbours defs seeds 0 maxDepth impact where
  once : ∀ depth depth', ∀ item ∈ impact.level depth, ∀ item' ∈ impact.level depth',
    item.name = item'.name → depth = depth'
  unseeded : ∀ depth, ∀ item ∈ impact.level depth, item.name ∉ seeds

theorem Impact.Holds.shortestDistances {neighbours : String → Finset String} {defs : DefCache}
    {seeds : Finset String} {maxDepth : Nat} {impact : Impact}
    (h : Impact.Holds neighbours defs seeds 0 maxDepth impact) :
    Impact.ShortestDistances neighbours defs seeds maxDepth impact where
  toHolds := h
  once depth depth' item hitem item' hitem' hname :=
    (h.others depth item hitem).unique (hname ▸ h.others depth' item' hitem')
  unseeded depth item hitem hseed := by
    have hdepth : depth ∈ impact.map Prod.fst := by
      by_contra hnot
      rw [Impact.level_of_notMem hnot] at hitem
      cases hitem
    have hzero : At neighbours seeds 0 item.name := distance_zero_iff.mpr hseed
    exact (h.depths depth hdepth).1.ne (hzero.unique (h.others depth item hitem))

/-- Two functions that call one another, and a third that calls one of them. -/
def mutualCalls : EdgeCache := fun _ ↦ {("even", "odd"), ("odd", "even"), ("main", "even")}

end GithubAgent.Indexing.SymbolIndex
