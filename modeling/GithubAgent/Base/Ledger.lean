import Mathlib.Data.List.Basic
import Mathlib.Logic.Function.Basic

/-!
# Items that are taken off a list

Items wait in the order in which they came. Holders take them one by one, and an item that is taken
ends once. A ledger numbers the items as they are taken and keeps who took each one and how it
ended; what every holder has in hand is given beside it. In a sound ledger an item that is taken is
in the hand of who took it until it ends.
-/

namespace GithubAgent.Base

universe u v w

/-- Items that wait, items that were taken with who took them, and how those ended. -/
structure Ledger (W : Type u) (T : Type v) (F : Type w) where
  waiting : List T := []
  taken : List (W × T) := []
  ended : Nat → Option F := fun _ ↦ none

namespace Ledger

variable {W : Type u} {T : Type v} {F : Type w} {l : Ledger W T F} {held : W → Option Nat}

def push (l : Ledger W T F) (t : T) : Ledger W T F := { l with waiting := l.waiting ++ [t] }

/-- The first item is taken. -/
def take (l : Ledger W T F) (x : W) : Option (T × Ledger W T F) :=
  match l.waiting with
  | [] => none
  | t :: rest => some (t, { l with waiting := rest, taken := l.taken ++ [(x, t)] })

def finish (l : Ledger W T F) (n : Nat) (f : F) : Ledger W T F :=
  { l with ended := Function.update l.ended n (some f) }

/-- All items so far. -/
def items (l : Ledger W T F) : List T := l.taken.map Prod.snd ++ l.waiting

/-- An item that is taken and has not ended is in the hand of who took it. -/
structure Sound (l : Ledger W T F) (held : W → Option Nat) : Prop where
  taken_of_held : ∀ x n, held x = some n → ∃ t, l.taken[n]? = some (x, t) ∧ l.ended n = none
  held_of_taken : ∀ n x t, l.taken[n]? = some (x, t) → l.ended n = none → held x = some n
  ended_of_le : ∀ n, l.taken.length ≤ n → l.ended n = none

theorem take_eq_some {x : W} {t : T} {l' : Ledger W T F} (h : l.take x = some (t, l')) :
    l' = { l with waiting := l'.waiting, taken := l.taken ++ [(x, t)] } ∧
      l.waiting = t :: l'.waiting := by
  unfold take at h
  split at h
  · cases h
  · next hwaiting =>
    cases h
    exact ⟨rfl, hwaiting⟩

@[simp]
theorem items_push (t : T) : (l.push t).items = l.items ++ [t] := (List.append_assoc _ _ _).symm

@[simp]
theorem items_finish (n : Nat) (f : F) : (l.finish n f).items = l.items := rfl

theorem items_take {x : W} {t : T} {l' : Ledger W T F} (h : l.take x = some (t, l')) :
    l'.items = l.items := by
  obtain ⟨hl', hwaiting⟩ := take_eq_some h
  rw [items, items, hwaiting, hl', List.map_append, List.append_assoc]
  rfl

theorem Sound.ended_of_held (h : l.Sound held) {x : W} {n : Nat} (hx : held x = some n) :
    l.ended n = none := by
  obtain ⟨t, -, hnone⟩ := h.taken_of_held x n hx
  exact hnone

/-- Nobody else has the item in hand. -/
theorem Sound.holder_unique (h : l.Sound held) {x y : W} {n : Nat} (hx : held x = some n)
    (hy : held y = some n) : x = y := by
  obtain ⟨t, ht, -⟩ := h.taken_of_held x n hx
  obtain ⟨t', ht', -⟩ := h.taken_of_held y n hy
  have hsame := ht.symm.trans ht'
  cases hsame
  rfl

theorem sound_nil : ({} : Ledger W T F).Sound fun _ ↦ none where
  taken_of_held _ _ h := nomatch h
  held_of_taken _ _ _ h := nomatch h
  ended_of_le _ _ := rfl

theorem Sound.push (h : l.Sound held) (t : T) : (l.push t).Sound held :=
  ⟨h.taken_of_held, h.held_of_taken, h.ended_of_le⟩

/-- The items taken before keep their numbers. -/
theorem getElem?_taken_of_lt {x : W} {t : T} {n : Nat} (h : n < l.taken.length) :
    (l.taken ++ [(x, t)])[n]? = l.taken[n]? :=
  List.getElem?_append_left h

theorem lt_of_taken {n : Nat} {entry : W × T} (h : l.taken[n]? = some entry) :
    n < l.taken.length :=
  (List.getElem?_eq_some_iff.mp h).1

section Hands

variable [DecidableEq W]

theorem Sound.take (h : l.Sound held) {x : W} {t : T} {l' : Ledger W T F} (hfree : held x = none)
    (htake : l.take x = some (t, l')) :
    l'.Sound (Function.update held x (some l.taken.length)) := by
  obtain ⟨hl', -⟩ := take_eq_some htake
  have htaken : l'.taken = l.taken ++ [(x, t)] := by rw [hl']
  have hended : l'.ended = l.ended := by rw [hl']
  constructor
  · intro y n hy
    rw [htaken, hended]
    by_cases heq : y = x
    · rw [heq, Function.update_self] at hy
      cases hy
      exact ⟨t, by rw [heq, List.getElem?_concat_length], h.ended_of_le _ (Nat.le_refl _)⟩
    · rw [Function.update_of_ne heq] at hy
      obtain ⟨t', ht', hnone⟩ := h.taken_of_held y n hy
      rw [getElem?_taken_of_lt (lt_of_taken ht')]
      exact ⟨t', ht', hnone⟩
  · intro n y t' hn hnone
    rw [htaken] at hn
    rw [hended] at hnone
    by_cases hlt : n < l.taken.length
    · rw [getElem?_taken_of_lt hlt] at hn
      have hheld := h.held_of_taken n y t' hn hnone
      have hne : y ≠ x := by
        rintro rfl
        rw [hfree] at hheld
        cases hheld
      rw [Function.update_of_ne hne]
      exact hheld
    · have hlast : n = l.taken.length := by
        have hbound := (List.getElem?_eq_some_iff.mp hn).1
        rw [List.length_append, List.length_singleton] at hbound
        omega
      rw [hlast, List.getElem?_concat_length] at hn
      cases hn
      rw [hlast, Function.update_self]
  · intro n hn
    rw [htaken, List.length_append] at hn
    rw [hended]
    exact h.ended_of_le n (by omega)

theorem Sound.finish (h : l.Sound held) {x : W} {n : Nat} (hheld : held x = some n) (f : F) :
    (l.finish n f).Sound (Function.update held x none) := by
  obtain ⟨t, ht, -⟩ := h.taken_of_held x n hheld
  constructor
  · intro y m hy
    have hne : y ≠ x := by
      rintro rfl
      rw [Function.update_self] at hy
      cases hy
    rw [Function.update_of_ne hne] at hy
    obtain ⟨t', ht', hnone⟩ := h.taken_of_held y m hy
    have hnm : m ≠ n := by
      rintro rfl
      rw [ht] at ht'
      cases ht'
      exact hne rfl
    refine ⟨t', ht', ?_⟩
    show Function.update l.ended n (some f) m = none
    rw [Function.update_of_ne hnm]
    exact hnone
  · intro m y t' hm hnone
    have hnm : m ≠ n := by
      rintro rfl
      have hsome : Function.update l.ended m (some f) m = none := hnone
      rw [Function.update_self] at hsome
      cases hsome
    have hplain : l.ended m = none := by
      have hupdated : Function.update l.ended n (some f) m = none := hnone
      rwa [Function.update_of_ne hnm] at hupdated
    have hmheld := h.held_of_taken m y t' hm hplain
    have hne : y ≠ x := by
      rintro rfl
      rw [hheld] at hmheld
      cases hmheld
      exact hnm rfl
    rw [Function.update_of_ne hne]
    exact hmheld
  · intro m hm
    have hnm : m ≠ n := by
      rintro rfl
      exact absurd (lt_of_taken ht) (Nat.not_lt.mpr hm)
    show Function.update l.ended n (some f) m = none
    rw [Function.update_of_ne hnm]
    exact h.ended_of_le m hm

/-! ### Counting -/

/-- The item with this number was taken by `x` and ended so that `p` holds. -/
def Counts (l : Ledger W T F) (p : F → Bool) (x : W) (n : Nat) : Bool :=
  (l.taken[n]?).any (fun entry ↦ entry.1 = x) && (l.ended n).any p

/-- The number of items that `x` took and that ended so that `p` holds. -/
def tally (l : Ledger W T F) (p : F → Bool) (x : W) : Nat :=
  (List.range l.taken.length).countP (l.Counts p x)

@[simp]
theorem tally_push (p : F → Bool) (x : W) (t : T) : (l.push t).tally p x = l.tally p x := rfl

/-- An item that is just taken has not ended. -/
theorem Sound.tally_take (h : l.Sound held) {p : F → Bool} {x y : W} {t : T} {l' : Ledger W T F}
    (htake : l.take y = some (t, l')) : l'.tally p x = l.tally p x := by
  obtain ⟨hl', -⟩ := take_eq_some htake
  have htaken : l'.taken = l.taken ++ [(y, t)] := by rw [hl']
  have hended : l'.ended = l.ended := by rw [hl']
  have hlast : l'.Counts p x l.taken.length = false := by
    unfold Counts
    rw [hended, h.ended_of_le _ (Nat.le_refl _)]
    exact Bool.and_false _
  have hold : ∀ n ∈ List.range l.taken.length,
      (l'.Counts p x n = true ↔ l.Counts p x n = true) := by
    intro n hn
    unfold Counts
    rw [hended, htaken, getElem?_taken_of_lt (List.mem_range.mp hn)]
  rw [tally, tally, htaken, List.length_append, List.length_singleton, List.range_succ,
    List.countP_append, List.countP_singleton, hlast, List.countP_congr hold]
  rfl

theorem countP_of_update {A : Type v} {p q : A → Bool} {list : List A} (hnodup : list.Nodup) {a : A}
    (ha : a ∈ list) (hp : p a = false) (hrest : ∀ b, b ≠ a → q b = p b) :
    list.countP q = list.countP p + (q a).toNat := by
  induction list with
  | nil => cases ha
  | cons b rest ih =>
    obtain ⟨hb, hrestNodup⟩ := List.nodup_cons.mp hnodup
    rw [List.countP_cons, List.countP_cons]
    rcases List.mem_cons.mp ha with rfl | ha
    · have hsame : rest.countP q = rest.countP p := by
        apply List.countP_congr
        intro b hmem
        rw [hrest b fun heq ↦ hb (heq ▸ hmem)]
      rw [hsame, hp]
      cases q a with
      | false => rfl
      | true => rfl
    · have hne : b ≠ a := fun heq ↦ hb (heq ▸ ha)
      rw [ih hrestNodup ha, hrest b hne]
      omega

/-- The item that ends is counted for who held it. -/
theorem Sound.tally_finish (h : l.Sound held) (p : F → Bool) {x : W} {n : Nat}
    (hheld : held x = some n) (f : F) (y : W) :
    (l.finish n f).tally p y = l.tally p y + if y = x then (p f).toNat else 0 := by
  obtain ⟨t, ht, hnone⟩ := h.taken_of_held x n hheld
  have hbefore : l.Counts p y n = false := by
    unfold Counts
    rw [hnone]
    exact Bool.and_false _
  have hrest (m : Nat) (hm : m ≠ n) : (l.finish n f).Counts p y m = l.Counts p y m := by
    show ((l.taken[m]?).any _ && (Function.update l.ended n (some f) m).any p) = _
    rw [Function.update_of_ne hm]
    rfl
  have hthis : (l.finish n f).Counts p y n = (decide (x = y) && p f) := by
    show ((l.taken[n]?).any _ && (Function.update l.ended n (some f) n).any p) = _
    rw [Function.update_self, ht]
    rfl
  have hcount := countP_of_update List.nodup_range (List.mem_range.mpr (lt_of_taken ht)) hbefore
    hrest
  rw [tally, tally]
  refine hcount.trans ?_
  rw [hthis]
  by_cases heq : y = x
  · rw [if_pos heq, decide_eq_true heq.symm, Bool.true_and]
  · rw [if_neg heq, decide_eq_false (Ne.symm heq), Bool.false_and]
    rfl

end Hands

end Ledger

end GithubAgent.Base
