import Mathlib.Algebra.BigOperators.Group.List.Basic
import Mathlib.Algebra.Order.Ring.Int
import Mathlib.Data.List.Perm.Subperm
import Mathlib.Data.List.ReduceOption

/-!
# First fit

Items that are given, one after another, the first entry of a pool that fits and was not given to an
item before. Each item gets its own entry when the pool can be read as a list of the items in which
an entry that also fits a later item belongs to an item that comes before that one.
-/

namespace GithubAgent.Base

universe u v w

variable {A : Type u} {B : Type v} {C : Type w}

/-- The entries that the items get from the pool. -/
def firstFit (fits : A → B → Bool) : List A → List B → List (Option B)
  | [], _ => []
  | a :: rest, pool => pool.find? (fits a) :: firstFit fits rest (pool.eraseP (fits a))

section Runs

variable {fits : A → B → Bool}

theorem length_firstFit (items : List A) (pool : List B) :
    (firstFit fits items pool).length = items.length := by
  induction items generalizing pool with
  | nil => rfl
  | cons a rest ih => rw [firstFit, List.length_cons, List.length_cons, ih]

/-- An entry that is found, and what is left. -/
theorem perm_cons_eraseP {p : B → Bool} {pool : List B} {b : B} (h : pool.find? p = some b) :
    pool.Perm (b :: pool.eraseP p) := by
  obtain ⟨hb, before, after, rfl, hbefore⟩ := List.find?_eq_some_iff_append.mp h
  have hnot : ∀ c ∈ before, ¬ p c = true := by simpa using hbefore
  rw [List.eraseP_append_right _ hnot, List.eraseP_cons_of_pos hb]
  exact List.perm_middle

/-- No entry is used twice. -/
theorem reduceOption_firstFit_subperm (fits : A → B → Bool) (items : List A) (pool : List B) :
    (firstFit fits items pool).reduceOption.Subperm pool := by
  induction items generalizing pool with
  | nil => exact List.nil_subperm
  | cons a rest ih =>
    rw [firstFit]
    cases hfound : pool.find? (fits a) with
    | none =>
      rw [List.reduceOption_cons_of_none]
      exact (ih _).trans List.eraseP_sublist.subperm
    | some b =>
      rw [List.reduceOption_cons_of_some]
      exact ((List.subperm_cons b).mpr (ih _)).trans (perm_cons_eraseP hfound).symm.subperm

/-- What fits is what is given. -/
theorem forall₂_of_firstFit {items : List A} {pool matched : List B}
    (h : firstFit fits items pool = matched.map some) :
    List.Forall₂ (fun a b ↦ fits a b = true ∧ b ∈ pool) items matched := by
  induction items generalizing pool matched with
  | nil =>
    cases matched with
    | nil => exact .nil
    | cons b rest => cases h
  | cons a rest ih =>
    cases matched with
    | nil => cases h
    | cons b matched =>
      obtain ⟨hfound, hrest⟩ := List.cons.inj h
      refine .cons ⟨List.find?_some hfound, List.mem_of_find?_eq_some hfound⟩ ?_
      exact (ih hrest).imp fun _ _ h ↦ h.imp_right fun hmem ↦ List.mem_of_mem_eraseP hmem

end Runs

/-! ### Items with an own entry -/

section Own

variable {fits : A → B → Bool} {item : C → A} {own : C → B}

/-- Entries that are each as large as the own one, and not larger all together. -/
theorem forall₂_eq_of_sum_le {size : B → Int} {cs : List C} {matched : List B}
    (hall : List.Forall₂ (fun c b ↦ size (own c) ≤ size b) cs matched)
    (hsum : (matched.map size).sum ≤ (cs.map (size ∘ own)).sum) :
    List.Forall₂ (fun c b ↦ size b = size (own c)) cs matched := by
  have hle : ∀ {cs : List C} {matched : List B},
      List.Forall₂ (fun c b ↦ size (own c) ≤ size b) cs matched →
      (cs.map (size ∘ own)).sum ≤ (matched.map size).sum := by
    intro cs matched hall
    induction hall with
    | nil => exact le_rfl
    | cons hcb _ ih =>
      rw [List.map_cons, List.map_cons, List.sum_cons, List.sum_cons]
      exact add_le_add hcb ih
  induction hall with
  | nil => exact .nil
  | @cons c b cs matched hcb hrest ih =>
    have := hle hrest
    simp only [List.map_cons, List.sum_cons, Function.comp_apply] at hsum
    exact .cons (by omega) (ih (by omega))

/-- When every item gets an entry, and the own entry of an item is a smallest one that fits it, the
entries have the sizes of the own ones. -/
theorem forall₂_size_of_firstFit (size : B → Int) {cs : List C} {pool matched : List B}
    (hpool : pool.Perm (cs.map own))
    (hsmallest : ∀ c ∈ cs, ∀ b ∈ pool, fits (item c) b = true → size (own c) ≤ size b)
    (h : firstFit fits (cs.map item) pool = matched.map some) :
    List.Forall₂ (fun c b ↦ size b = size (own c)) cs matched := by
  have hfits := List.forall₂_map_left_iff.mp (forall₂_of_firstFit h)
  have hmem := (List.forall₂_and_left cs matched).mpr ⟨fun _ hc ↦ hc, hfits⟩
  refine forall₂_eq_of_sum_le
    (hmem.imp fun c b ⟨hc, hfit, hb⟩ ↦ hsmallest c hc b hb hfit) (le_of_eq ?_)
  have hsub : matched.Subperm pool := by
    have := reduceOption_firstFit_subperm fits (cs.map item) pool
    rwa [h, List.reduceOption, List.filterMap_map, Function.id_comp, List.filterMap_some] at this
  have hmatched : matched.Perm pool := by
    refine hsub.perm_of_length_le ?_
    have hlength := congrArg List.length h
    rw [length_firstFit, List.length_map, List.length_map] at hlength
    rw [hpool.length_eq, List.length_map, hlength]
  have hperm := (hmatched.trans hpool).map size
  rw [List.map_map] at hperm
  exact hperm.sum_eq

variable [DecidableEq C]

/-- When each item gets its own entry, the pool lists the items so that an entry that also fits a
later item belongs to one that comes before it. -/
theorem exists_order_of_firstFit {cs : List C} (hnodup : cs.Nodup) {pool : List B}
    (hlength : pool.length = cs.length)
    (h : firstFit fits (cs.map item) pool = cs.map fun c ↦ some (own c)) :
    ∃ order : List C, order.Perm cs ∧ order.map own = pool ∧ order.Pairwise fun c' c ↦
      fits (item c) (own c') = true → cs.idxOf c' < cs.idxOf c := by
  induction cs generalizing pool with
  | nil => exact ⟨[], .nil, (List.length_eq_zero_iff.mp hlength).symm, .nil⟩
  | cons c rest ih =>
    obtain ⟨hc, hrest⟩ := List.nodup_cons.mp hnodup
    obtain ⟨hfound, htail⟩ := List.cons.inj h
    obtain ⟨hfit, before, after, rfl, hbefore⟩ := List.find?_eq_some_iff_append.mp hfound
    have hnot : ∀ b ∈ before, ¬ fits (item c) b = true := by simpa using hbefore
    rw [List.eraseP_append_right _ hnot, List.eraseP_cons_of_pos hfit] at htail
    have hlength' : (before ++ after).length = rest.length := by
      simp only [List.length_append, List.length_cons] at hlength ⊢
      omega
    obtain ⟨order, hperm, hmap, hpairwise⟩ := ih hrest hlength' htail
    obtain ⟨first, last, rfl, rfl, rfl⟩ := List.map_eq_append_iff.mp hmap
    have hne : ∀ d ∈ first ++ last, c ≠ d := fun d hd heq ↦ hc (hperm.mem_iff.mp (heq ▸ hd))
    have hshift : (first ++ last).Pairwise fun c' d ↦
        fits (item d) (own c') = true → (c :: rest).idxOf c' < (c :: rest).idxOf d := by
      refine hpairwise.imp_of_mem fun hc' hd hlt hfit ↦ ?_
      rw [List.idxOf_cons_ne _ (hne _ hc'), List.idxOf_cons_ne _ (hne _ hd)]
      exact Nat.succ_lt_succ (hlt hfit)
    obtain ⟨hfirst, hlast, hcross⟩ := List.pairwise_append.mp hshift
    refine ⟨first ++ c :: last, List.perm_middle.trans (hperm.cons c), by simp, ?_⟩
    refine List.pairwise_append.mpr ⟨hfirst, List.pairwise_cons.mpr ⟨fun d hd _ ↦ ?_, hlast⟩, ?_⟩
    · rw [List.idxOf_cons_self, List.idxOf_cons_ne _ (hne d (List.mem_append_right _ hd))]
      exact Nat.succ_pos _
    · intro c' hc' d hd hearly
      rcases List.mem_cons.mp hd with rfl | hd
      · exact absurd hearly (hnot _ (List.mem_map.mpr ⟨c', hc', rfl⟩))
      · exact hcross c' hc' d hd hearly

/-- The converse, for own entries that fit. -/
theorem firstFit_of_order {cs order : List C} (hfits : ∀ c ∈ cs, fits (item c) (own c) = true)
    (hnodup : cs.Nodup) (hperm : order.Perm cs)
    (hpairwise : order.Pairwise fun c' c ↦
      fits (item c) (own c') = true → cs.idxOf c' < cs.idxOf c) :
    firstFit fits (cs.map item) (order.map own) = cs.map fun c ↦ some (own c) := by
  induction cs generalizing order with
  | nil => rfl
  | cons c rest ih =>
    obtain ⟨hc, hrest⟩ := List.nodup_cons.mp hnodup
    obtain ⟨first, last, rfl⟩ := List.append_of_mem (hperm.mem_iff.mpr List.mem_cons_self)
    have hperm' : (first ++ last).Perm rest := (List.perm_middle.symm.trans hperm).cons_inv
    have hne : ∀ d ∈ first ++ last, c ≠ d := fun d hd heq ↦ hc (hperm'.mem_iff.mp (heq ▸ hd))
    -- nothing before the own entry fits the first item
    have hnot : ∀ b ∈ first.map own, ¬ fits (item c) b = true := by
      intro b hb hfit
      obtain ⟨c', hc', rfl⟩ := List.mem_map.mp hb
      have hlt := (List.pairwise_append.mp hpairwise).2.2 c' hc' c List.mem_cons_self hfit
      rw [List.idxOf_cons_self] at hlt
      cases hlt
    have hpairwise' : (first ++ last).Pairwise fun c' d ↦
        fits (item d) (own c') = true → rest.idxOf c' < rest.idxOf d := by
      have hsub : (first ++ last).Sublist (first ++ c :: last) :=
        List.Sublist.append_left (List.sublist_cons_self c last) first
      refine (hpairwise.sublist hsub).imp_of_mem fun hc' hd hlt hfit ↦ ?_
      have hlt := hlt hfit
      rw [List.idxOf_cons_ne _ (hne _ hc'), List.idxOf_cons_ne _ (hne _ hd)] at hlt
      exact Nat.lt_of_succ_lt_succ hlt
    rw [List.map_cons, List.map_append, List.map_cons, firstFit, List.map_cons,
      List.eraseP_append_right _ hnot, List.eraseP_cons_of_pos (hfits c List.mem_cons_self),
      ← List.map_append, ih (fun d hd ↦ hfits d (List.mem_cons_of_mem _ hd)) hrest hperm'
        hpairwise']
    congr 1
    rw [List.find?_append, List.find?_eq_none.mpr hnot, Option.none_or,
      List.find?_cons_of_pos (hfits c List.mem_cons_self)]

end Own

end GithubAgent.Base
