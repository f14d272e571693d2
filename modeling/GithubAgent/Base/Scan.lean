import GithubAgent.Base.LastBy
import Mathlib.Data.List.Sort

/-!
# Sorted tables and scans for the least entry

A table that is sorted by a key and freed of repetitions keeps entries of one key in the order of
their first occurrences. A scan from its end finds the last of the entries of least size.
-/

namespace GithubAgent.Base

universe u v

variable {A : Type u}

/-! ### Stability -/

section Stable

variable {r : A → A → Prop} [DecidableRel r] {p : A → Bool}

theorem filter_orderedInsert {a : A} {l : List A}
    (h : p a = true → ∀ b ∈ l, p b = true → r a b) :
    (l.orderedInsert r a).filter p = (a :: l).filter p := by
  induction l with
  | nil => rfl
  | cons b rest ih =>
    have ih := ih fun ha c hc ↦ h ha c (List.mem_cons_of_mem _ hc)
    rw [List.orderedInsert_cons]
    split
    · rfl
    · next hnot =>
      by_cases hb : p b = true
      · have ha : ¬ p a = true := fun ha ↦ hnot (h ha b List.mem_cons_self hb)
        rw [List.filter_cons_of_neg ha] at ih
        rw [List.filter_cons_of_pos hb, List.filter_cons_of_neg ha, List.filter_cons_of_pos hb, ih]
      · rw [List.filter_cons_of_neg hb, ih]
        simp only [List.filter_cons, hb, if_false, Bool.false_eq_true]

/-- Entries that are all in relation keep their order. -/
theorem filter_insertionSort (hp : ∀ a b, p a = true → p b = true → r a b) (l : List A) :
    (l.insertionSort r).filter p = l.filter p := by
  induction l with
  | nil => rfl
  | cons a rest ih =>
    rw [List.insertionSort_cons, filter_orderedInsert fun ha b _ hb ↦ hp a b ha hb]
    simp only [List.filter_cons, ih]

end Stable

/-! ### First occurrences -/

section First

theorem dedupBy_sublist {K : Type v} [DecidableEq K] {key : A → K} (l : List A) :
    ∀ seen : List K, (dedupBy key seen l).Sublist l := by
  induction l with
  | nil => exact fun _ ↦ List.Sublist.slnil
  | cons a rest ih =>
    intro seen
    rw [dedupBy_cons]
    split
    · exact (ih seen).cons a
    · exact (ih _).cons_cons a

variable [DecidableEq A]

theorem mem_dedupBy_id {l : List A} {a : A} : a ∈ dedupBy id [] l ↔ a ∈ l := by
  constructor
  · exact mem_of_mem_dedupBy
  · intro h
    have hkept : ∃ b ∈ dedupBy id [] l, id b = id a := exists_mem_dedupBy h List.not_mem_nil
    obtain ⟨b, hb, rfl⟩ := hkept
    exact hb

/-- A list, grouped by keys that are listed once each. -/
theorem flatMap_filter_perm {B : Type v} (key : B → A) {ks : List A} (hks : ks.Nodup) :
    ∀ {l : List B}, (∀ b ∈ l, key b ∈ ks) →
      (ks.flatMap fun k ↦ l.filter (key · = k)).Perm l := by
  induction ks with
  | nil =>
    intro l hl
    rw [List.eq_nil_iff_forall_not_mem.mpr fun b hb ↦ List.not_mem_nil (hl b hb)]
    exact .nil
  | cons k rest ih =>
    intro l hl
    obtain ⟨hk, hrest⟩ := List.nodup_cons.mp hks
    let others := l.filter fun b ↦ !decide (key b = k)
    have hothers : (rest.flatMap fun k' ↦ l.filter (key · = k')) =
        rest.flatMap fun k' ↦ others.filter (key · = k') := by
      apply List.flatMap_congr
      intro k' hk'
      rw [List.filter_filter]
      apply List.filter_congr
      intro b _
      by_cases hb : key b = k'
      · have hne : key b ≠ k := fun heq ↦ hk (heq ▸ hb ▸ hk')
        simp [hne]
      · simp [hb]
    have hmem : ∀ b ∈ others, key b ∈ rest := by
      intro b hb
      obtain ⟨hb, hne⟩ := List.mem_filter.mp hb
      exact (List.mem_cons.mp (hl b hb)).resolve_left (by simpa using hne)
    rw [List.flatMap_cons, hothers]
    exact ((ih hrest hmem).append_left _).trans (List.filter_append_perm _ l)

theorem flatMap_dedupBy_perm {B : Type v} (key : B → A) (l : List B) :
    ((dedupBy id [] (l.map key)).flatMap fun k ↦ l.filter (key · = k)).Perm l := by
  have hnodup : ((dedupBy id [] (l.map key)).map id).Nodup := nodup_dedupBy (l.map key) []
  rw [List.map_id] at hnodup
  exact flatMap_filter_perm key hnodup fun b hb ↦
    mem_dedupBy_id.mpr (List.mem_map.mpr ⟨b, hb, rfl⟩)

/-- Without repetitions, a list is in the order of the first occurrences. -/
theorem pairwise_idxOf_dedupBy (l : List A) : ∀ seen : List A,
    (dedupBy id seen l).Pairwise fun a b ↦ l.idxOf a < l.idxOf b := by
  induction l with
  | nil => exact fun _ ↦ List.Pairwise.nil
  | cons c rest ih =>
    intro seen
    have hnext : ∀ {seen : List A}, c ∈ seen →
        (dedupBy id seen rest).Pairwise fun a b ↦ (c :: rest).idxOf a < (c :: rest).idxOf b := by
      intro seen hc
      refine (ih seen).imp_of_mem fun {a b} ha hb hlt ↦ ?_
      have hne {d : A} (hd : d ∈ dedupBy id seen rest) : c ≠ d := fun heq ↦
        key_notMem_of_mem_dedupBy hd (heq ▸ hc)
      rw [List.idxOf_cons_ne _ (hne ha), List.idxOf_cons_ne _ (hne hb)]
      exact Nat.succ_lt_succ hlt
    rw [dedupBy_cons]
    split
    · next hc => exact hnext hc
    · refine List.pairwise_cons.mpr ⟨fun b hb ↦ ?_, hnext List.mem_cons_self⟩
      have hne : c ≠ b := fun heq ↦
        key_notMem_of_mem_dedupBy hb (heq ▸ List.mem_cons_self)
      rw [List.idxOf_cons_self, List.idxOf_cons_ne _ hne]
      exact Nat.succ_pos _

theorem idxOf_lt_of_filter {p : A → Bool} {l : List A} {a b : A} (ha : p a = true)
    (hb : p b = true) (h : (l.filter p).idxOf a < (l.filter p).idxOf b) :
    l.idxOf a < l.idxOf b := by
  induction l with
  | nil => exact h
  | cons c rest ih =>
    by_cases hc : p c = true
    · rw [List.filter_cons_of_pos hc] at h
      by_cases hcb : c = b
      · rw [List.idxOf_cons_eq _ hcb] at h
        cases h
      · by_cases hca : c = a
        · rw [List.idxOf_cons_eq _ hca, List.idxOf_cons_ne _ hcb]
          exact Nat.succ_pos _
        · rw [List.idxOf_cons_ne _ hca, List.idxOf_cons_ne _ hcb] at h ⊢
          exact Nat.succ_lt_succ (ih (Nat.lt_of_succ_lt_succ h))
    · rw [List.filter_cons_of_neg hc] at h
      have hca : c ≠ a := fun heq ↦ hc (heq ▸ ha)
      have hcb : c ≠ b := fun heq ↦ hc (heq ▸ hb)
      rw [List.idxOf_cons_ne _ hca, List.idxOf_cons_ne _ hcb]
      exact Nat.succ_lt_succ (ih h)

/-- A table sorted by a key, each entry once: entries of one key come in the order of their first
occurrences. -/
theorem pairwise_dedupBy_insertionSort {L : Type v} [LinearOrder L] (key : A → L) (l : List A) :
    (dedupBy id [] (l.insertionSort fun a b ↦ key a ≤ key b)).Pairwise fun a b ↦
      key a < key b ∨ key a = key b ∧ l.idxOf a < l.idxOf b := by
  let r : A → A → Prop := fun a b ↦ key a ≤ key b
  have : Std.Total r := ⟨fun a b ↦ le_total (key a) (key b)⟩
  have : IsTrans A r := ⟨fun _ _ _ ↦ le_trans⟩
  have hsorted : (dedupBy id [] (l.insertionSort r)).Pairwise r :=
    (List.pairwise_insertionSort r l).sublist (dedupBy_sublist _ [])
  rw [List.pairwise_iff_forall_sublist]
  intro a b hab
  have hle : key a ≤ key b := List.pairwise_iff_forall_sublist.mp hsorted hab
  rcases hle.lt_or_eq with hlt | heq
  · exact .inl hlt
  · refine .inr ⟨heq, ?_⟩
    -- among the entries of one key nothing was moved
    let same : A → Bool := fun c ↦ key c = key a
    have ha : same a = true := decide_eq_true rfl
    have hb : same b = true := decide_eq_true heq.symm
    have hsame : (dedupBy id [] (l.insertionSort r)).filter same =
        dedupBy id [] (l.filter same) := by
      have hstable : (l.insertionSort r).filter same = l.filter same :=
        filter_insertionSort (fun c d hc hd ↦
          ((of_decide_eq_true hc).trans (of_decide_eq_true hd).symm).le) l
      rw [← hstable]
      exact filter_dedupBy (fun _ _ heq ↦ congrArg same heq) _ []
    have hpair : [a, b].Sublist (dedupBy id [] (l.filter same)) := by
      have hkept : [a, b].filter same = [a, b] := by simp [ha, hb]
      rw [← hsame, ← hkept]
      exact hab.filter same
    exact idxOf_lt_of_filter ha hb
      (List.pairwise_iff_forall_sublist.mp (pairwise_idxOf_dedupBy _ _) hpair)

end First

/-! ### Scans -/

section Scan

variable {L : Type v} [LinearOrder L]

/-- A step of a scan for an entry of least size: only a smaller one replaces what was found. -/
def lesser (p : A → Prop) [DecidablePred p] (size : A → L) (best : Option A) (a : A) : Option A :=
  if p a ∧ ∀ b ∈ best, size a < size b then some a else best

variable {p : A → Prop} [DecidablePred p] {size : A → L} {l : List A}

theorem foldl_lesser_eq_none :
    l.reverse.foldl (lesser p size) none = none ↔ ∀ a ∈ l, ¬ p a := by
  rw [List.foldl_reverse]
  induction l with
  | nil => exact iff_of_true rfl (List.forall_mem_nil _)
  | cons a rest ih =>
    rw [List.foldr_cons, List.forall_mem_cons, ← ih]
    cases hrest : rest.foldr (fun a best ↦ lesser p size best a) none with
    | none =>
      unfold lesser
      by_cases ha : p a
      · rw [if_pos ⟨ha, fun b hb ↦ absurd hb (Option.not_mem_none b)⟩]
        exact iff_of_false (Option.some_ne_none a) fun h ↦ h.1 ha
      · rw [if_neg fun h ↦ ha h.1]
        exact iff_of_true rfl ⟨ha, rfl⟩
    | some best =>
      unfold lesser
      split
      · exact iff_of_false (Option.some_ne_none a) fun h ↦ Option.some_ne_none best h.2
      · exact iff_of_false (Option.some_ne_none best) fun h ↦ Option.some_ne_none best h.2

/-- Entries that do not count can be left out of a scan. -/
theorem foldl_lesser_filter {q : A → Prop} [DecidablePred q] (h : ∀ a, p a → q a)
    (l : List A) (best : Option A) :
    (l.filter (q ·)).foldl (lesser p size) best = l.foldl (lesser p size) best := by
  induction l generalizing best with
  | nil => rfl
  | cons a rest ih =>
    rw [List.filter_cons, List.foldl_cons]
    split
    · rw [List.foldl_cons, ih]
    · next hnot =>
      have ha : ¬ p a := fun ha ↦ hnot (decide_eq_true (h a ha))
      rw [ih, lesser, if_neg fun hboth ↦ ha hboth.1]

/-- What a scan from the end finds: an entry of least size, the last one of them. -/
theorem of_foldl_lesser {r : A → A → Prop} (hl : l.Pairwise r) {a : A}
    (h : l.reverse.foldl (lesser p size) none = some a) :
    a ∈ l ∧ p a ∧ ∀ b ∈ l, p b → b ≠ a → size a < size b ∨ size a = size b ∧ r b a := by
  induction l generalizing a with
  | nil => cases h
  | cons c rest ih =>
    obtain ⟨hc, hrest⟩ := List.pairwise_cons.mp hl
    rw [List.reverse_cons, List.foldl_append, List.foldl_cons, List.foldl_nil] at h
    cases hbest : rest.reverse.foldl (lesser p size) none with
    | none =>
      rw [hbest] at h
      have hnone := foldl_lesser_eq_none.mp hbest
      unfold lesser at h
      split at h
      · next hpc =>
        obtain rfl := Option.some.inj h
        refine ⟨List.mem_cons_self, hpc.1, fun b hb hpb hne ↦ ?_⟩
        exact absurd hpb (hnone b ((List.mem_cons.mp hb).resolve_left hne))
      · cases h
    | some best =>
      rw [hbest] at h
      obtain ⟨hmem, hpbest, hleast⟩ := ih hrest hbest
      unfold lesser at h
      split at h
      · next hpc =>
        obtain rfl := Option.some.inj h
        have hlt : size c < size best := hpc.2 best rfl
        refine ⟨List.mem_cons_self, hpc.1, fun b hb hpb hne ↦ .inl ?_⟩
        have hb := (List.mem_cons.mp hb).resolve_left hne
        by_cases heq : b = best
        · exact heq ▸ hlt
        · rcases hleast b hb hpb heq with hlt' | ⟨heq', -⟩
          · exact hlt.trans hlt'
          · exact heq' ▸ hlt
      · next hnot =>
        obtain rfl := Option.some.inj h
        refine ⟨List.mem_cons_of_mem _ hmem, hpbest, fun b hb hpb hne ↦ ?_⟩
        rcases List.mem_cons.mp hb with rfl | hb
        · have hle : size best ≤ size b := by
            by_contra hlt
            refine hnot ⟨hpb, fun d hd ↦ ?_⟩
            obtain rfl := Option.some.inj hd
            exact not_le.mp hlt
          exact hle.lt_or_eq.imp_right fun heq ↦ ⟨heq, hc best hmem⟩
        · exact hleast b hb hpb hne

/-- A scan from the end finds the one entry that comes before all others, by its size and then by
its place. -/
theorem foldl_lesser_eq_some_iff {r : A → A → Prop} (hl : l.Pairwise r)
    (hasymm : ∀ a b, r a b → ¬ r b a) {a : A} :
    l.reverse.foldl (lesser p size) none = some a ↔
      a ∈ l ∧ p a ∧ ∀ b ∈ l, p b → b ≠ a → size a < size b ∨ size a = size b ∧ r b a := by
  refine ⟨of_foldl_lesser hl, fun ⟨hmem, hpa, hleast⟩ ↦ ?_⟩
  cases hbest : l.reverse.foldl (lesser p size) none with
  | none => exact absurd hpa (foldl_lesser_eq_none.mp hbest a hmem)
  | some best =>
    obtain ⟨hmem', hpbest, hleast'⟩ := of_foldl_lesser hl hbest
    by_contra hne
    have hne : best ≠ a := fun heq ↦ hne (congrArg some heq)
    rcases hleast best hmem' hpbest hne with hlt | ⟨heq, hr⟩
    · rcases hleast' a hmem hpa hne.symm with hlt' | ⟨heq', -⟩
      · exact lt_asymm hlt hlt'
      · exact hlt.ne heq'.symm
    · rcases hleast' a hmem hpa hne.symm with hlt' | ⟨-, hr'⟩
      · exact hlt'.ne heq.symm
      · exact hasymm _ _ hr hr'

end Scan

end GithubAgent.Base
