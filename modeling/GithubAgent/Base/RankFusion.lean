import GithubAgent.Base.LastBy
import Mathlib.Data.List.Forall2
import Mathlib.Data.List.Sort

/-!
# Reciprocal rank fusion

Several engines list keys, best first. A key collects a weight for every place it has in a list, and
the fused list is ordered by the sums, equal sums in the order in which the keys were met first. A
key that every engine places at least as well as another comes before it.

The weights are added one after the other. Nothing is assumed of the sums but that they respect the
order, so that sums that round are covered.
-/

namespace GithubAgent.Base

universe u v

/-- What a place in a list is worth. -/
structure Weighting (S : Type u) [LinearOrder S] where
  zero : S
  add : S → S → S
  weight : Nat → S
  add_le_add : ∀ {a b c d}, a ≤ b → c ≤ d → add a c ≤ add b d
  le_add_weight : ∀ a place, a ≤ add a (weight place)
  weight_le : ∀ {place later}, place ≤ later → weight later ≤ weight place

/-- A cut keeps the pairs that end in it. -/
theorem pair_sublist_take {A : Type v} {l : List A} (h : l.Nodup) {a b : A} {n : Nat}
    (hpair : [a, b].Sublist l) (hb : b ∈ l.take n) : [a, b].Sublist (l.take n) := by
  rw [← List.take_append_drop n l] at h hpair
  have hapart : b ∉ l.drop n := fun hdrop ↦ (List.nodup_append.mp h).2.2 b hb b hdrop rfl
  obtain ⟨left, right, heq, hleft, hright⟩ := List.sublist_append_iff.mp hpair
  cases right with
  | nil =>
    rw [List.append_nil] at heq
    rw [heq]
    exact hleft
  | cons c right =>
    have hlast : b ∈ c :: right := by
      have hget : ([a, b] : List A).getLast? = (left ++ c :: right).getLast? := by rw [heq]
      rw [List.getLast?_append, List.getLast?_cons] at hget
      cases Option.some.inj hget
      exact List.getLast_mem _
    exact absurd (hright.subset hlast) hapart

section Places

variable {K : Type v} [DecidableEq K]

/-- The places of a key in a list, counted from the given number. -/
def placesFrom (n : Nat) (keys : List K) (k : K) : List Nat :=
  ((keys.zipIdx n).filter (·.1 = k)).map Prod.snd

/-- The places of a key in a list, counted from 1. -/
def places (keys : List K) (k : K) : List Nat := placesFrom 1 keys k

/-- To every place of `b` in the list belongs another place of `a` that is as good. -/
def Covers (keys : List K) (a b : K) : Prop :=
  List.SublistForall₂ (fun place better ↦ better ≤ place) (places keys b) (places keys a)

theorem placesFrom_cons (n : Nat) (key : K) (keys : List K) (k : K) :
    placesFrom n (key :: keys) k =
      if key = k then n :: placesFrom (n + 1) keys k else placesFrom (n + 1) keys k := by
  unfold placesFrom
  rw [List.zipIdx_cons, List.filter_cons]
  by_cases hkey : key = k
  · rw [if_pos hkey, if_pos (by exact decide_eq_true hkey), List.map_cons]
  · rw [if_neg hkey, if_neg (by exact fun h ↦ hkey (of_decide_eq_true h))]

/-- The first place is where the key is found. -/
theorem idxOf_mem_placesFrom {keys : List K} {k : K} (h : k ∈ keys) (n : Nat) :
    n + keys.idxOf k ∈ placesFrom n keys k := by
  induction keys generalizing n with
  | nil => cases h
  | cons key rest ih =>
    rw [placesFrom_cons]
    by_cases hkey : key = k
    · rw [if_pos hkey, hkey, List.idxOf_cons_self]
      exact List.mem_cons_self
    · rw [if_neg hkey, List.idxOf_cons_ne _ hkey]
      have hrest : k ∈ rest := (List.mem_cons.mp h).resolve_left (Ne.symm hkey)
      have hplace := ih hrest (n + 1)
      rw [Nat.add_right_comm] at hplace
      exact hplace

theorem idxOf_le_of_mem_placesFrom {keys : List K} {k : K} {n place : Nat}
    (h : place ∈ placesFrom n keys k) : k ∈ keys ∧ n + keys.idxOf k ≤ place := by
  induction keys generalizing n with
  | nil => cases h
  | cons key rest ih =>
    rw [placesFrom_cons] at h
    by_cases hkey : key = k
    · rw [if_pos hkey] at h
      rw [hkey, List.idxOf_cons_self]
      refine ⟨List.mem_cons_self, ?_⟩
      rcases List.mem_cons.mp h with h | h
      · exact h.ge
      · have hplace := (ih h).2
        omega
    · rw [if_neg hkey] at h
      obtain ⟨hmem, hplace⟩ := ih h
      rw [List.idxOf_cons_ne _ hkey]
      exact ⟨List.mem_cons_of_mem _ hmem, by omega⟩

theorem exists_of_sublistForall₂ {A B : Type} {R : A → B → Prop} {l : List A} {m : List B}
    (h : List.SublistForall₂ R l m) {a : A} (ha : a ∈ l) : ∃ b ∈ m, R a b := by
  induction h with
  | nil => cases ha
  | cons hab _ ih =>
    rcases List.mem_cons.mp ha with rfl | ha
    · exact ⟨_, List.mem_cons_self, hab⟩
    · obtain ⟨b, hb, hR⟩ := ih ha
      exact ⟨b, List.mem_cons_of_mem _ hb, hR⟩
  | cons_right _ ih =>
    obtain ⟨b, hb, hR⟩ := ih ha
    exact ⟨b, List.mem_cons_of_mem _ hb, hR⟩

/-- What covers a key is met before it. -/
theorem Covers.idxOf_lt {keys : List K} {a b : K} (h : Covers keys a b) (hne : a ≠ b)
    (hb : b ∈ keys) : a ∈ keys ∧ keys.idxOf a < keys.idxOf b := by
  obtain ⟨place, hplace, hle⟩ := exists_of_sublistForall₂ h (idxOf_mem_placesFrom hb 1)
  obtain ⟨ha, hfirst⟩ := idxOf_le_of_mem_placesFrom hplace
  refine ⟨ha, Nat.lt_of_le_of_ne (by omega) fun heq ↦ hne ?_⟩
  exact (List.idxOf_inj ha).mp heq

end Places

section Fusion

variable {K : Type v} [DecidableEq K] {S : Type u} [LinearOrder S] (w : Weighting S)

/-- The sum of a key. -/
def scoreOf (scores : List (K × S)) (k : K) : S := (scores.lookup k).getD w.zero

/-- `scores[key] = scores.get(key, 0) + weight(place)` -/
def addPlace (scores : List (K × S)) (key : K × Nat) : List (K × S) :=
  setEntry Prod.fst (key.1, w.add (scoreOf w scores key.1) (w.weight key.2)) scores

/-- One engine's list is counted. -/
def addPlaces (scores : List (K × S)) (keys : List K) : List (K × S) :=
  (keys.zipIdx 1).foldl (addPlace w) scores

/-- The sums of two engines' lists. -/
def fuse (first second : List K) : List (K × S) := addPlaces w (addPlaces w [] first) second

/-- The keys, the highest sum first. The sort is stable. -/
def ranking (scores : List (K × S)) : List K :=
  (scores.map Prod.fst).mergeSort fun a b ↦ decide (scoreOf w scores b ≤ scoreOf w scores a)

/-! ### The sums -/

/-- The weights of some places are added to a sum. -/
def addWeights (sum : S) (found : List Nat) : S :=
  found.foldl (fun sum place ↦ w.add sum (w.weight place)) sum

theorem scoreOf_addPlace (scores : List (K × S)) (key : K × Nat) (k : K) :
    scoreOf w (addPlace w scores key) k =
      if key.1 = k then w.add (scoreOf w scores k) (w.weight key.2) else scoreOf w scores k := by
  rw [scoreOf, addPlace, lookup_setEntry]
  by_cases hk : key.1 = k
  · rw [if_pos hk.symm, if_pos hk, hk]
    rfl
  · rw [if_neg (Ne.symm hk), if_neg hk]
    rfl

theorem scoreOf_foldl_addPlace (keys : List K) (n : Nat) (scores : List (K × S)) (k : K) :
    scoreOf w ((keys.zipIdx n).foldl (addPlace w) scores) k =
      addWeights w (scoreOf w scores k) (placesFrom n keys k) := by
  induction keys generalizing n scores with
  | nil => rfl
  | cons key rest ih =>
    rw [List.zipIdx_cons, List.foldl_cons, ih, scoreOf_addPlace, placesFrom_cons]
    by_cases hkey : key = k
    · rw [if_pos hkey, if_pos hkey]
      rfl
    · rw [if_neg hkey, if_neg hkey]

/-- A key has the weights of its places, those in the first list before those in the second. -/
theorem scoreOf_fuse (first second : List K) (k : K) :
    scoreOf w (fuse w first second) k =
      addWeights w (addWeights w w.zero (places first k)) (places second k) := by
  rw [fuse, addPlaces, scoreOf_foldl_addPlace, addPlaces, scoreOf_foldl_addPlace]
  rfl

theorem addWeights_le {found better : List Nat}
    (h : List.SublistForall₂ (fun place better ↦ better ≤ place) found better) {sum sum' : S}
    (hle : sum ≤ sum') : addWeights w sum found ≤ addWeights w sum' better := by
  induction h generalizing sum sum' with
  | nil =>
    rename_i better
    induction better generalizing sum' with
    | nil => exact hle
    | cons place rest ih => exact ih (hle.trans (w.le_add_weight _ _))
  | cons hplace _ ih => exact ih (w.add_le_add hle (w.weight_le hplace))
  | cons_right _ ih => exact ih (hle.trans (w.le_add_weight _ _))

/-- A key that covers another in both lists has no lower sum. -/
theorem scoreOf_le_of_covers {first second : List K} {a b : K} (hfirst : Covers first a b)
    (hsecond : Covers second a b) :
    scoreOf w (fuse w first second) b ≤ scoreOf w (fuse w first second) a := by
  rw [scoreOf_fuse, scoreOf_fuse]
  exact addWeights_le w hsecond (addWeights_le w hfirst le_rfl)

/-! ### The order in which keys are met -/

/-- The keys in the order in which they are met first. -/
def firstMet (seen keys : List K) : List K :=
  keys.foldl (fun seen k ↦ if k ∈ seen then seen else seen ++ [k]) seen

theorem keys_foldl_addPlace (keys : List K) (n : Nat) (scores : List (K × S)) :
    ((keys.zipIdx n).foldl (addPlace w) scores).map Prod.fst =
      firstMet (scores.map Prod.fst) keys := by
  induction keys generalizing n scores with
  | nil => rfl
  | cons key rest ih =>
    rw [List.zipIdx_cons, List.foldl_cons, ih, addPlace, keys_setEntry]
    rfl

theorem keys_fuse (first second : List K) :
    (fuse w first second).map Prod.fst = firstMet [] (first ++ second) := by
  rw [fuse, addPlaces, keys_foldl_addPlace, addPlaces, keys_foldl_addPlace, firstMet, firstMet,
    firstMet, List.foldl_append]
  rfl

theorem firstMet_concat (seen keys : List K) (k : K) :
    firstMet seen (keys ++ [k]) =
      if k ∈ firstMet seen keys then firstMet seen keys else firstMet seen keys ++ [k] := by
  rw [firstMet, List.foldl_append]
  rfl

theorem mem_firstMet {seen keys : List K} {k : K} :
    k ∈ firstMet seen keys ↔ k ∈ seen ∨ k ∈ keys := by
  induction keys using List.reverseRecOn with
  | nil => exact (or_iff_left List.not_mem_nil).symm
  | append_singleton keys last ih =>
    have hplain : k ∈ firstMet seen keys ++ [last] ↔ k ∈ seen ∨ k ∈ keys ++ [last] := by
      rw [List.mem_append, List.mem_append, ih, or_assoc]
    rw [firstMet_concat]
    split
    · next hlast =>
      rw [← hplain, List.mem_append, List.mem_singleton]
      refine ⟨Or.inl, fun h ↦ h.elim id ?_⟩
      rintro rfl
      exact hlast
    · exact hplain

theorem nodup_firstMet {seen : List K} (h : seen.Nodup) (keys : List K) :
    (firstMet seen keys).Nodup := by
  induction keys using List.reverseRecOn with
  | nil => exact h
  | append_singleton keys last ih =>
    rw [firstMet_concat]
    split
    · exact ih
    · next hlast =>
      apply List.nodup_append.mpr
      refine ⟨ih, List.nodup_singleton _, ?_⟩
      rintro k hk _ hk' rfl
      exact hlast (List.mem_singleton.mp hk' ▸ hk)

theorem pair_sublist_firstMet {keys : List K} {a b : K} (ha : a ∈ keys) (hb : b ∈ keys)
    (h : keys.idxOf a < keys.idxOf b) : [a, b].Sublist (firstMet [] keys) := by
  induction keys using List.reverseRecOn with
  | nil => cases ha
  | append_singleton keys last ih =>
    have hold (k : K) (hk : k ∈ keys) : (keys ++ [last]).idxOf k = keys.idxOf k :=
      List.idxOf_append_of_mem hk
    have hlength (k : K) (hk : k ∈ keys ++ [last]) :
        (keys ++ [last]).idxOf k < keys.length + 1 := by
      have hlt := List.idxOf_lt_length_of_mem hk
      rwa [List.length_append, List.length_singleton] at hlt
    -- the key that is met first is not the last one
    have hamem : a ∈ keys := by
      by_contra hnot
      rw [List.idxOf_append_of_notMem hnot] at h
      have hlt := hlength b hb
      omega
    rw [firstMet_concat]
    by_cases hbmem : b ∈ keys
    · rw [hold a hamem, hold b hbmem] at h
      have hpair := ih hamem hbmem h
      split
      · exact hpair
      · exact hpair.trans (List.sublist_append_left _ _)
    · have hlast : b = last := by
        rcases List.mem_append.mp hb with hb | hb
        · exact absurd hb hbmem
        · exact List.mem_singleton.mp hb
      have hnew : last ∉ firstMet [] keys := by
        rw [mem_firstMet, ← hlast]
        exact not_or.mpr ⟨List.not_mem_nil, hbmem⟩
      rw [if_neg hnew, hlast]
      show ([a] ++ [last]).Sublist _
      apply List.Sublist.append
      · exact List.singleton_sublist.mpr (mem_firstMet.mpr (.inr hamem))
      · exact List.Sublist.refl _

/-! ### The ranking -/

theorem mem_ranking {first second : List K} {k : K} :
    k ∈ ranking w (fuse w first second) ↔ k ∈ first ∨ k ∈ second := by
  rw [ranking, List.mem_mergeSort, keys_fuse, mem_firstMet, List.mem_append]
  exact or_iff_right List.not_mem_nil

theorem nodup_ranking (first second : List K) : (ranking w (fuse w first second)).Nodup := by
  apply (List.mergeSort_perm _ _).nodup_iff.mpr
  rw [keys_fuse]
  exact nodup_firstMet List.nodup_nil _

theorem higher_trans (scores : List (K × S)) (a b c : K)
    (hab : decide (scoreOf w scores b ≤ scoreOf w scores a) = true)
    (hbc : decide (scoreOf w scores c ≤ scoreOf w scores b) = true) :
    decide (scoreOf w scores c ≤ scoreOf w scores a) = true :=
  decide_eq_true ((of_decide_eq_true hbc).trans (of_decide_eq_true hab))

theorem higher_total (scores : List (K × S)) (a b : K) :
    (decide (scoreOf w scores b ≤ scoreOf w scores a) ||
      decide (scoreOf w scores a ≤ scoreOf w scores b)) = true := by
  rw [Bool.or_eq_true, decide_eq_true_eq, decide_eq_true_eq]
  exact le_total _ _

theorem pairwise_ranking (scores : List (K × S)) :
    (ranking w scores).Pairwise fun a b ↦ scoreOf w scores b ≤ scoreOf w scores a := by
  have hsorted : (ranking w scores).Pairwise fun a b ↦
      decide (scoreOf w scores b ≤ scoreOf w scores a) = true := by
    apply List.pairwise_mergeSort
    · exact higher_trans w scores
    · exact higher_total w scores
  exact hsorted.imp of_decide_eq_true

/-- What covers another key in both lists comes before it. -/
theorem pair_sublist_ranking {first second : List K} {a b : K} (hne : a ≠ b)
    (hb : b ∈ first ∨ b ∈ second) (hfirst : Covers first a b) (hsecond : Covers second a b) :
    [a, b].Sublist (ranking w (fuse w first second)) := by
  apply List.pair_sublist_mergeSort
  · exact higher_trans w _
  · exact higher_total w _
  · exact decide_eq_true (scoreOf_le_of_covers w hfirst hsecond)
  · rw [keys_fuse]
    -- the first list decides which key is met first, if it has `b` or `a`
    by_cases hbfirst : b ∈ first
    · obtain ⟨ha, hlt⟩ := hfirst.idxOf_lt hne hbfirst
      apply pair_sublist_firstMet (List.mem_append_left _ ha) (List.mem_append_left _ hbfirst)
      rw [List.idxOf_append_of_mem ha, List.idxOf_append_of_mem hbfirst]
      exact hlt
    · have hbsecond := hb.resolve_left hbfirst
      obtain ⟨ha, hlt⟩ := hsecond.idxOf_lt hne hbsecond
      apply pair_sublist_firstMet (List.mem_append_right _ ha) (List.mem_append_right _ hbsecond)
      rw [List.idxOf_append_of_notMem hbfirst]
      by_cases hafirst : a ∈ first
      · rw [List.idxOf_append_of_mem hafirst]
        have hshort := List.idxOf_lt_length_of_mem hafirst
        omega
      · rw [List.idxOf_append_of_notMem hafirst]
        omega

end Fusion

end GithubAgent.Base
