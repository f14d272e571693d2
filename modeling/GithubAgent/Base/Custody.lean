import Mathlib.Data.List.Nodup
import Mathlib.Logic.Function.Basic

/-!
# Numbered things that are passed on

Things get numbers as they come. Each waits on a list, is in one hand, or has ended; a hand takes
the first of the list, and puts what it has back at the end or ends it.
-/

namespace GithubAgent.Base

universe u v

/-- Every thing so far is in one place. -/
structure Custody {P : Type u} {F : Type v} (waiting : List Nat) (held : P → Option Nat)
    (ended : Nat → Option F) (issued : Nat) : Prop where
  nodup : waiting.Nodup
  of_waiting : ∀ i ∈ waiting, i < issued ∧ ended i = none ∧ ∀ p, held p ≠ some i
  of_held : ∀ p i, held p = some i →
    i < issued ∧ ended i = none ∧ ∀ p', held p' = some i → p' = p
  of_ended : ∀ i, ended i ≠ none → i < issued
  somewhere : ∀ i < issued, i ∈ waiting ∨ (∃ p, held p = some i) ∨ ended i ≠ none

namespace Custody

variable {P : Type u} {F : Type v} {waiting : List Nat} {held : P → Option Nat}
  {ended : Nat → Option F} {issued : Nat}

theorem nil : Custody [] (fun _ : P ↦ none) (fun _ ↦ (none : Option F)) 0 where
  nodup := List.nodup_nil
  of_waiting _ h := nomatch h
  of_held _ _ h := nomatch h
  of_ended _ h := absurd rfl h
  somewhere _ h := absurd h (Nat.not_lt_zero _)

theorem notMem_of_held (h : Custody waiting held ended issued) {p : P} {i : Nat}
    (hp : held p = some i) : i ∉ waiting :=
  fun hmem ↦ (h.of_waiting i hmem).2.2 p hp

/-- A thing that has not come yet is nowhere. -/
theorem fresh (h : Custody waiting held ended issued) {i : Nat} (hi : issued ≤ i) :
    i ∉ waiting ∧ (∀ p, held p ≠ some i) ∧ ended i = none := by
  refine ⟨fun hmem ↦ ?_, fun p hp ↦ ?_, ?_⟩
  · exact absurd (h.of_waiting i hmem).1 (Nat.not_lt.mpr hi)
  · exact absurd (h.of_held p i hp).1 (Nat.not_lt.mpr hi)
  · by_contra hne
    exact absurd (h.of_ended i hne) (Nat.not_lt.mpr hi)

theorem add (h : Custody waiting held ended issued) :
    Custody (waiting ++ [issued]) held ended (issued + 1) := by
  obtain ⟨hwaiting, hheld, hended⟩ := h.fresh (Nat.le_refl issued)
  constructor
  · apply List.nodup_append.mpr
    refine ⟨h.nodup, List.nodup_singleton _, ?_⟩
    rintro i hi _ hi' rfl
    rw [List.mem_singleton] at hi'
    exact hwaiting (hi' ▸ hi)
  · intro i hi
    rcases List.mem_append.mp hi with hi | hi
    · obtain ⟨hlt, hrest⟩ := h.of_waiting i hi
      exact ⟨Nat.lt_succ_of_lt hlt, hrest⟩
    · rw [List.mem_singleton.mp hi]
      exact ⟨Nat.lt_succ_self _, hended, hheld⟩
  · intro p i hp
    obtain ⟨hlt, hrest⟩ := h.of_held p i hp
    exact ⟨Nat.lt_succ_of_lt hlt, hrest⟩
  · exact fun i hi ↦ Nat.lt_succ_of_lt (h.of_ended i hi)
  · intro i hi
    rcases Nat.lt_succ_iff_lt_or_eq.mp hi with hi | hi
    · rcases h.somewhere i hi with hmem | hrest
      · exact .inl (List.mem_append_left _ hmem)
      · exact .inr hrest
    · exact .inl (List.mem_append_right _ (List.mem_singleton.mpr hi))

variable [DecidableEq P]

theorem take {i : Nat} {rest : List Nat} (h : Custody (i :: rest) held ended issued) {p : P}
    (hfree : held p = none) : Custody rest (Function.update held p (some i)) ended issued := by
  obtain ⟨hlt, hended, hheld⟩ := h.of_waiting i List.mem_cons_self
  obtain ⟨hi, hrest⟩ := List.nodup_cons.mp h.nodup
  constructor
  · exact hrest
  · intro j hj
    obtain ⟨hjlt, hjended, hjheld⟩ := h.of_waiting j (List.mem_cons_of_mem _ hj)
    refine ⟨hjlt, hjended, fun q hq ↦ ?_⟩
    by_cases hqp : q = p
    · rw [hqp, Function.update_self] at hq
      cases hq
      exact hi hj
    · rw [Function.update_of_ne hqp] at hq
      exact hjheld q hq
  · intro q j hq
    by_cases hqp : q = p
    · rw [hqp, Function.update_self] at hq
      cases hq
      refine ⟨hlt, hended, fun q' hq' ↦ ?_⟩
      by_contra hne
      rw [hqp] at hne
      rw [Function.update_of_ne hne] at hq'
      exact hheld q' hq'
    · rw [Function.update_of_ne hqp] at hq
      obtain ⟨hjlt, hjended, hone⟩ := h.of_held q j hq
      refine ⟨hjlt, hjended, fun q' hq' ↦ ?_⟩
      by_cases hqp' : q' = p
      · rw [hqp', Function.update_self] at hq'
        cases hq'
        exact absurd hq (hheld q)
      · rw [Function.update_of_ne hqp'] at hq'
        exact hone q' hq'
  · exact h.of_ended
  · intro j hj
    rcases h.somewhere j hj with hmem | ⟨q, hq⟩ | hne
    · rcases List.mem_cons.mp hmem with heq | hmem
      · exact .inr (.inl ⟨p, by rw [Function.update_self, heq]⟩)
      · exact .inl hmem
    · have hqp : q ≠ p := by
        rintro rfl
        rw [hfree] at hq
        cases hq
      exact .inr (.inl ⟨q, by rw [Function.update_of_ne hqp]; exact hq⟩)
    · exact .inr (.inr hne)

/-- The other hands keep what they have. -/
theorem held_of_release (h : Custody waiting held ended issued) {p : P} {i : Nat}
    (hp : held p = some i) {q : P} {j : Nat} (hq : Function.update held p none q = some j) :
    held q = some j ∧ j ≠ i := by
  have hqp : q ≠ p := by
    rintro rfl
    rw [Function.update_self] at hq
    cases hq
  rw [Function.update_of_ne hqp] at hq
  refine ⟨hq, ?_⟩
  rintro rfl
  exact hqp ((h.of_held p j hp).2.2 q hq)

theorem held_release_of_ne {p : P} {i : Nat} (hp : held p = some i) {q : P} {j : Nat} (hne : j ≠ i)
    (hq : held q = some j) : Function.update held p none q = some j := by
  have hqp : q ≠ p := by
    rintro rfl
    rw [hp] at hq
    cases hq
    exact hne rfl
  rw [Function.update_of_ne hqp]
  exact hq

theorem finish (h : Custody waiting held ended issued) {p : P} {i : Nat} (hp : held p = some i)
    (f : F) :
    Custody waiting (Function.update held p none) (Function.update ended i (some f)) issued := by
  obtain ⟨hlt, hended, hone⟩ := h.of_held p i hp
  constructor
  · exact h.nodup
  · intro j hj
    obtain ⟨hjlt, hjended, hjheld⟩ := h.of_waiting j hj
    have hne : j ≠ i := by
      rintro rfl
      exact h.notMem_of_held hp hj
    refine ⟨hjlt, ?_, fun q hq ↦ hjheld q (h.held_of_release hp hq).1⟩
    rw [Function.update_of_ne hne]
    exact hjended
  · intro q j hq
    obtain ⟨hqj, hne⟩ := h.held_of_release hp hq
    obtain ⟨hjlt, hjended, hjone⟩ := h.of_held q j hqj
    refine ⟨hjlt, ?_, fun q' hq' ↦ hjone q' (h.held_of_release hp hq').1⟩
    rw [Function.update_of_ne hne]
    exact hjended
  · intro j hj
    by_cases hji : j = i
    · rw [hji]
      exact hlt
    · rw [Function.update_of_ne hji] at hj
      exact h.of_ended j hj
  · intro j hj
    by_cases hji : j = i
    · refine .inr (.inr ?_)
      rw [hji, Function.update_self]
      exact Option.some_ne_none _
    · rw [Function.update_of_ne hji]
      rcases h.somewhere j hj with hmem | ⟨q, hq⟩ | hne
      · exact .inl hmem
      · exact .inr (.inl ⟨q, held_release_of_ne hp hji hq⟩)
      · exact .inr (.inr hne)

theorem putBack (h : Custody waiting held ended issued) {p : P} {i : Nat}
    (hp : held p = some i) :
    Custody (waiting ++ [i]) (Function.update held p none) ended issued := by
  obtain ⟨hlt, hended, hone⟩ := h.of_held p i hp
  constructor
  · apply List.nodup_append.mpr
    refine ⟨h.nodup, List.nodup_singleton _, ?_⟩
    rintro j hj _ hj' rfl
    rw [List.mem_singleton] at hj'
    exact h.notMem_of_held hp (hj' ▸ hj)
  · intro j hj
    rcases List.mem_append.mp hj with hj | hj
    · obtain ⟨hjlt, hjended, hjheld⟩ := h.of_waiting j hj
      exact ⟨hjlt, hjended, fun q hq ↦ hjheld q (h.held_of_release hp hq).1⟩
    · rw [List.mem_singleton.mp hj]
      exact ⟨hlt, hended, fun q hq ↦ (h.held_of_release hp hq).2 rfl⟩
  · intro q j hq
    obtain ⟨hjlt, hjended, hjone⟩ := h.of_held q j (h.held_of_release hp hq).1
    exact ⟨hjlt, hjended, fun q' hq' ↦ hjone q' (h.held_of_release hp hq').1⟩
  · exact h.of_ended
  · intro j hj
    by_cases hji : j = i
    · exact .inl (List.mem_append_right _ (List.mem_singleton.mpr hji))
    · rcases h.somewhere j hj with hmem | ⟨q, hq⟩ | hne
      · exact .inl (List.mem_append_left _ hmem)
      · exact .inr (.inl ⟨q, held_release_of_ne hp hji hq⟩)
      · exact .inr (.inr hne)

end Custody

end GithubAgent.Base
