import Mathlib.Data.Nat.Find
import Mathlib.Data.Set.Basic

/-!
# Shortest distances

The distance of a vertex from a set of vertices, along the edges of a directed graph.
-/

namespace GithubAgent.Base

universe u

variable {V : Type u}

/-- A walk of some length from one of the seeds to a vertex. -/
inductive Walk (next : V → V → Prop) (seeds : Set V) : Nat → V → Prop where
  | seed {v : V} : v ∈ seeds → Walk next seeds 0 v
  | step {n : Nat} {u v : V} : Walk next seeds n u → next u v → Walk next seeds (n + 1) v

/-- The length of a shortest walk. -/
def Distance (next : V → V → Prop) (seeds : Set V) (n : Nat) (v : V) : Prop :=
  Walk next seeds n v ∧ ∀ k < n, ¬ Walk next seeds k v

variable {next : V → V → Prop} {seeds : Set V} {m n : Nat} {v : V}

theorem Distance.unique (hm : Distance next seeds m v) (hn : Distance next seeds n v) :
    m = n := by
  rcases Nat.lt_trichotomy m n with hlt | heq | hlt
  · exact absurd hm.1 (hn.2 m hlt)
  · exact heq
  · exact absurd hn.1 (hm.2 n hlt)

theorem Walk.exists_distance (h : Walk next seeds n v) :
    ∃ k ≤ n, Distance next seeds k v := by
  classical
  have hex : ∃ k, Walk next seeds k v := ⟨n, h⟩
  exact ⟨Nat.find hex, Nat.find_min' hex h, Nat.find_spec hex, fun k hk ↦ Nat.find_min hex hk⟩

theorem distance_zero_iff : Distance next seeds 0 v ↔ v ∈ seeds := by
  constructor
  · rintro ⟨h, -⟩
    cases h with
    | seed h => exact h
  · exact fun h ↦ ⟨.seed h, fun k hk ↦ absurd hk (Nat.not_lt_zero k)⟩

/-- The vertices at a distance are the neighbours of those one step closer that are not closer
themselves. -/
theorem distance_succ_iff :
    Distance next seeds (n + 1) v ↔
      (∃ u, Distance next seeds n u ∧ next u v) ∧ ∀ k ≤ n, ¬ Distance next seeds k v := by
  constructor
  · rintro ⟨hwalk, hleast⟩
    refine ⟨?_, fun k hk h ↦ hleast k (Nat.lt_succ_of_le hk) h.1⟩
    cases hwalk with
    | @step _ u _ hu hnext =>
      refine ⟨u, ⟨hu, fun k hk hwalk ↦ ?_⟩, hnext⟩
      exact hleast (k + 1) (Nat.succ_lt_succ hk) (hwalk.step hnext)
  · rintro ⟨⟨u, hu, hnext⟩, hleast⟩
    refine ⟨hu.1.step hnext, fun k hk hwalk ↦ ?_⟩
    obtain ⟨j, hj, hdistance⟩ := hwalk.exists_distance
    exact hleast j (hj.trans (Nat.le_of_lt_succ hk)) hdistance

/-- A vertex at a distance has one at each shorter distance. -/
theorem Distance.exists_of_le (h : Distance next seeds n v) (hle : m ≤ n) :
    ∃ u, Distance next seeds m u := by
  induction n generalizing v with
  | zero => exact ⟨v, Nat.le_zero.mp hle ▸ h⟩
  | succ n ih =>
    rcases Nat.le_succ_iff.mp hle with hle | rfl
    · obtain ⟨⟨u, hu, -⟩, -⟩ := distance_succ_iff.mp h
      exact ih hu hle
    · exact ⟨v, h⟩

end GithubAgent.Base
