import Mathlib.Data.List.Basic
import Mathlib.Data.List.DropRight
import Mathlib.Data.List.Nodup
import Mathlib.Data.List.Perm.Basic
import Mathlib.Data.List.Range
import Mathlib.Tactic.Tauto

/-!
# Dictionaries from pairs, and lists that lose entries

`dict(pairs)` keeps the last value of a key. A list from which the missing entries are
dropped stays aligned with its positions exactly when the missing entries come last. Two
searches of a list agree exactly when each entry they disagree on comes too late to matter.
-/

namespace GithubAgent.Base

universe u v

section Dict

variable {K : Type u} {V : Type v} [BEq K] [LawfulBEq K]

/-- `dict(pairs)[key]`: the last value given to the key. -/
def dictGet (pairs : List (K × V)) (key : K) : Option V := pairs.reverse.lookup key

omit [LawfulBEq K] in
theorem dictGet_append (pairs more : List (K × V)) (key : K) :
    dictGet (pairs ++ more) key = (dictGet more key).or (dictGet pairs key) := by
  rw [dictGet, List.reverse_append, List.lookup_append]
  rfl

omit [LawfulBEq K] in
theorem dictGet_cons (pair : K × V) (rest : List (K × V)) (key : K) :
    dictGet (pair :: rest) key =
      (dictGet rest key).or (if key == pair.1 then some pair.2 else none) := by
  obtain ⟨k, value⟩ := pair
  rw [← List.singleton_append, dictGet_append]
  congr 1
  unfold dictGet
  rw [List.reverse_singleton, List.lookup_cons]
  cases key == k <;> rfl

theorem dictGet_filter (pairs : List (K × V)) (p : K → Bool) (key : K) :
    dictGet (pairs.filter fun entry ↦ p entry.1) key =
      if p key = true then dictGet pairs key else none := by
  induction pairs with
  | nil =>
    split
    · rfl
    · rfl
  | cons pair rest ih =>
    rw [List.filter_cons, dictGet_cons]
    by_cases hp : p pair.1 = true
    · rw [if_pos hp, dictGet_cons, ih]
      split
      · rfl
      · next hkey =>
        rw [Option.none_or, if_neg]
        intro heq
        exact hkey (eq_of_beq heq ▸ hp)
    · rw [if_neg hp, ih]
      split
      · next hkey =>
        rw [if_neg, Option.or_none]
        intro heq
        exact hp (eq_of_beq heq ▸ hkey)
      · rfl

theorem mem_of_lookup {pairs : List (K × V)} {key : K} {value : V}
    (h : pairs.lookup key = some value) : (key, value) ∈ pairs := by
  obtain ⟨before, after, hl, _⟩ := List.lookup_eq_some_iff.mp h
  rw [hl]
  exact List.mem_append_right _ List.mem_cons_self

theorem mem_of_dictGet {pairs : List (K × V)} {key : K} {value : V}
    (h : dictGet pairs key = some value) : (key, value) ∈ pairs :=
  List.mem_reverse.mp (mem_of_lookup h)

/-- The last value that is given to a key. -/
theorem dictGet_eq_some_iff {pairs : List (K × V)} {key : K} {value : V} :
    dictGet pairs key = some value ↔ ∃ before after, pairs = before ++ (key, value) :: after ∧
      ∀ pair ∈ after, pair.1 ≠ key := by
  unfold dictGet
  rw [List.lookup_eq_some_iff]
  constructor
  · rintro ⟨l₁, l₂, heq, hne⟩
    refine ⟨l₂.reverse, l₁.reverse, ?_, fun pair hpair ↦ ?_⟩
    · rw [List.reverse_eq_iff.mp heq, List.reverse_append, List.reverse_cons, List.append_assoc]
      rfl
    · exact fun h ↦ by simpa [h] using hne pair (List.mem_reverse.mp hpair)
  · rintro ⟨before, after, rfl, hne⟩
    refine ⟨after.reverse, before.reverse, by simp, fun pair hpair ↦ ?_⟩
    simpa using (hne pair (List.mem_reverse.mp hpair)).symm

theorem dictGet_eq_none {pairs : List (K × V)} {key : K} (h : dictGet pairs key = none)
    (value : V) : (key, value) ∉ pairs := by
  intro hmem
  rw [← List.mem_reverse] at hmem
  unfold dictGet at h
  rw [List.lookup_eq_none_iff] at h
  have hne := h _ hmem
  simp at hne

/-- A dictionary whose pairs are the graph of a function is that function. -/
theorem dictGet_eq {pairs : List (K × V)} {f : K → Option V}
    (h : ∀ key value, (key, value) ∈ pairs ↔ f key = some value) (key : K) :
    dictGet pairs key = f key := by
  cases hget : dictGet pairs key with
  | some value => rw [(h key value).mp (mem_of_dictGet hget)]
  | none =>
    cases hf : f key with
    | none => rfl
    | some value => exact absurd ((h key value).mpr hf) (dictGet_eq_none hget value)

theorem dictGet_of_forall_ne {pairs : List (K × V)} {key : K}
    (h : ∀ pair ∈ pairs, pair.1 ≠ key) : dictGet pairs key = none := by
  cases hget : dictGet pairs key with
  | none => rfl
  | some value => exact absurd rfl (h _ (mem_of_dictGet hget))

theorem dictGet_ne_none {pairs : List (K × V)} {pair : K × V} (h : pair ∈ pairs) :
    dictGet pairs pair.1 ≠ none :=
  fun hnone ↦ dictGet_eq_none hnone pair.2 h

/-- Where every key is given once, the pairs are the graph of the dictionary. -/
theorem mem_iff_dictGet {pairs : List (K × V)} (h : (pairs.map Prod.fst).Nodup) {key : K}
    {value : V} : (key, value) ∈ pairs ↔ dictGet pairs key = some value := by
  constructor
  · intro hmem
    cases hget : dictGet pairs key with
    | none => exact absurd hmem (dictGet_eq_none hget value)
    | some other =>
      have heq := List.inj_on_of_nodup_map h hmem (mem_of_dictGet hget) rfl
      rw [(Prod.mk.inj heq).2]
  · exact mem_of_dictGet

/-- A key that occurs in none of several lists of pairs. -/
theorem dictGet_flatMap_of_forall_ne {B : Type u} {files : List B} {g : B → List (K × V)} {key : K}
    (h : ∀ q ∈ files, ∀ pair ∈ g q, pair.1 ≠ key) : dictGet (files.flatMap g) key = none := by
  apply dictGet_of_forall_ne
  intro pair hpair
  obtain ⟨q, hq, hpair⟩ := List.mem_flatMap.mp hpair
  exact h q hq pair hpair

/-- A key that occurs in one of several lists of pairs has its value from there. -/
theorem dictGet_flatMap {B : Type u} {files : List B} {g : B → List (K × V)} {p : B} {key : K}
    (hp : p ∈ files) (hkey : ∀ q ∈ files, ∀ pair ∈ g q, pair.1 = key → q = p) :
    dictGet (files.flatMap g) key = dictGet (g p) key := by
  have hnone {q : B} (hq : q ∈ files) (hne : q ≠ p) : dictGet (g q) key = none :=
    dictGet_of_forall_ne fun pair hpair heq ↦ hne (hkey q hq pair hpair heq)
  induction files with
  | nil => cases hp
  | cons q rest ih =>
    have hrest : ∀ q' ∈ rest, ∀ pair ∈ g q', pair.1 = key → q' = p :=
      fun q' hq' ↦ hkey q' (List.mem_cons_of_mem _ hq')
    have hnone' {q' : B} (hq' : q' ∈ rest) : q' ≠ p → dictGet (g q') key = none :=
      hnone (List.mem_cons_of_mem _ hq')
    rw [List.flatMap_cons, dictGet_append]
    by_cases hmem : p ∈ rest
    · rw [ih hmem hrest hnone']
      by_cases hqp : q = p
      · rw [hqp, Option.or_self]
      · rw [hnone List.mem_cons_self hqp, Option.or_none]
    · have hqp : q = p := by
        rcases List.mem_cons.mp hp with rfl | h
        · rfl
        · exact absurd h hmem
      have hempty : dictGet (rest.flatMap g) key = none :=
        dictGet_flatMap_of_forall_ne fun q' hq' pair hpair heq ↦
          hmem (hrest q' hq' pair hpair heq ▸ hq')
      rw [hempty, hqp, Option.none_or]

end Dict

section Dedup

variable {A : Type u} {K : Type v} [DecidableEq K]

/-- Of the entries with one key, the first, unless the key was seen before. -/
def dedupBy (key : A → K) (seen : List K) : List A → List A
  | [] => []
  | a :: rest =>
    if key a ∈ seen then dedupBy key seen rest else a :: dedupBy key (key a :: seen) rest

theorem dedupBy_cons (key : A → K) (seen : List K) (a : A) (rest : List A) :
    dedupBy key seen (a :: rest) =
      if key a ∈ seen then dedupBy key seen rest else a :: dedupBy key (key a :: seen) rest := rfl

theorem mem_of_mem_dedupBy {key : A → K} {l : List A} {a : A} : ∀ {seen : List K},
    a ∈ dedupBy key seen l → a ∈ l := by
  induction l with
  | nil => exact id
  | cons b rest ih =>
    intro seen h
    rw [dedupBy_cons] at h
    split at h
    · exact List.mem_cons_of_mem _ (ih h)
    · rcases List.mem_cons.mp h with rfl | h
      · exact List.mem_cons_self
      · exact List.mem_cons_of_mem _ (ih h)

/-- Only the keys of the list matter among those seen before. -/
theorem dedupBy_congr {key : A → K} {l : List A} : ∀ {seen seen' : List K},
    (∀ a ∈ l, key a ∈ seen ↔ key a ∈ seen') → dedupBy key seen l = dedupBy key seen' l := by
  induction l with
  | nil =>
    intro _ _ _
    rfl
  | cons b rest ih =>
    intro seen seen' h
    rw [dedupBy_cons, dedupBy_cons]
    have hrest : ∀ a ∈ rest, key a ∈ seen ↔ key a ∈ seen' :=
      fun a ha ↦ h a (List.mem_cons_of_mem _ ha)
    by_cases hb : key b ∈ seen
    · rw [if_pos hb, if_pos ((h b List.mem_cons_self).mp hb), ih hrest]
    · rw [if_neg hb, if_neg (mt (h b List.mem_cons_self).mpr hb)]
      congr 1
      apply ih
      intro a ha
      rw [List.mem_cons, List.mem_cons, hrest a ha]

/-- What comes first is seen by what follows. -/
theorem dedupBy_append (key : A → K) (l m : List A) : ∀ seen : List K,
    dedupBy key seen (l ++ m) = dedupBy key seen l ++ dedupBy key (l.map key ++ seen) m := by
  induction l with
  | nil =>
    intro _
    rfl
  | cons b rest ih =>
    intro seen
    rw [List.cons_append, dedupBy_cons, dedupBy_cons]
    split
    · next hb =>
      rw [ih]
      congr 1
      apply dedupBy_congr
      intro a _
      simp only [List.map_cons, List.mem_append, List.mem_cons]
      constructor
      · tauto
      · rintro ((heq | h) | h)
        · exact .inr (heq ▸ hb)
        · exact .inl h
        · exact .inr h
    · rw [ih, List.cons_append]
      congr 2
      apply dedupBy_congr
      intro a _
      simp only [List.map_cons, List.mem_append, List.mem_cons]
      tauto

/-- Lists without a common key are deduplicated one by one. -/
theorem dedupBy_flatMap {B : Type u} {key : A → K} {files : List B} {g : B → List A}
    (hnodup : files.Nodup)
    (hkeys : ∀ p ∈ files, ∀ q ∈ files, ∀ a ∈ g p, ∀ b ∈ g q, key a = key b → p = q) :
    dedupBy key [] (files.flatMap g) = files.flatMap fun p ↦ dedupBy key [] (g p) := by
  induction files with
  | nil => rfl
  | cons p rest ih =>
    rw [List.nodup_cons] at hnodup
    rw [List.flatMap_cons, List.flatMap_cons, dedupBy_append, List.append_nil, ← ih hnodup.2]
    · congr 1
      apply dedupBy_congr
      intro b hb
      obtain ⟨q, hq, hbq⟩ := List.mem_flatMap.mp hb
      constructor
      · intro hmem
        obtain ⟨a, ha, heq⟩ := List.mem_map.mp hmem
        have hpq := hkeys p List.mem_cons_self q (List.mem_cons_of_mem _ hq) a ha b hbq heq
        exact absurd (hpq ▸ hq) hnodup.1
      · intro hmem
        cases hmem
    · intro q hq q' hq'
      exact hkeys q (List.mem_cons_of_mem _ hq) q' (List.mem_cons_of_mem _ hq')

end Dedup

section FlatMap

variable {A : Type u} {B : Type v}

/-- Entries that contribute nothing may be left out. -/
theorem flatMap_eq_flatMap_filter {l : List A} {g : A → List B} (keep : A → Bool)
    (h : ∀ a ∈ l, keep a = false → g a = []) : l.flatMap g = (l.filter keep).flatMap g := by
  induction l with
  | nil => rfl
  | cons a rest ih =>
    rw [List.flatMap_cons, ih fun b hb ↦ h b (List.mem_cons_of_mem _ hb)]
    cases hk : keep a with
    | true => rw [List.filter_cons_of_pos hk, List.flatMap_cons]
    | false =>
      rw [List.filter_cons_of_neg (by simp [hk]), h a List.mem_cons_self hk, List.nil_append]

/-- The contributions of two complementary parts make up the whole. -/
theorem flatMap_filter_append_perm (l : List A) (g : A → List B) (part : A → Bool) :
    ((l.filter part).flatMap g ++ (l.filter (!part ·)).flatMap g).Perm (l.flatMap g) := by
  rw [← List.flatMap_append]
  exact (List.filter_append_perm part l).flatMap_right g

/-- A list, grouped by key. -/
theorem flatMap_eraseDups_perm {K : Type v} [DecidableEq K] (key : A → K) (l : List A) :
    ((l.map key).eraseDups.flatMap fun k ↦ l.filter (key · = k)).Perm l := by
  induction hn : l.length using Nat.strong_induction_on generalizing l with
  | _ n ih =>
    cases l with
    | nil => exact .nil
    | cons a rest =>
      have hmap : (rest.map key).filter (fun k ↦ !k == key a) =
          (rest.filter fun b ↦ !key b == key a).map key := by
        rw [List.filter_map]
        rfl
      have hlength : (rest.filter fun b ↦ !key b == key a).length < n := by
        rw [← hn, List.length_cons]
        exact Nat.lt_succ_of_le (List.length_filter_le _ _)
      have hgroups := ih _ hlength (rest.filter fun b ↦ !key b == key a) rfl
      rw [List.map_cons, List.eraseDups_cons, hmap, List.flatMap_cons]
      refine List.Perm.trans (List.Perm.append_left _ (.trans (.of_eq ?_) hgroups)) ?_
      · apply List.flatMap_congr
        intro k hk
        obtain ⟨b, hb, rfl⟩ := List.mem_map.mp (List.mem_eraseDups.mp hk)
        have hne : key b ≠ key a := by simpa using (List.mem_filter.mp hb).2
        rw [List.filter_cons_of_neg (by simpa using hne.symm), List.filter_filter]
        apply List.filter_congr
        intro c _
        by_cases hc : key c = key b <;> simp [hc, hne]
      · have hrest : (rest.filter fun b ↦ !key b == key a) =
            (a :: rest).filter fun b ↦ !decide (key b = key a) := by
          rw [List.filter_cons_of_neg (by simp)]
          rfl
        rw [hrest]
        exact List.filter_append_perm _ _

/-- An entry, and the others. -/
theorem perm_cons_eraseIdx {l : List A} {i : Nat} {a : A} (h : l[i]? = some a) :
    l.Perm (a :: l.eraseIdx i) := by
  obtain ⟨hi, rfl⟩ := List.getElem?_eq_some_iff.mp h
  exact (List.getElem_cons_eraseIdx_perm hi).symm

/-- What replaces an entry, and the others. -/
theorem set_perm_cons_eraseIdx {l : List A} {i : Nat} {a : A} (h : l[i]? = some a) (b : A) :
    (l.set i b).Perm (b :: l.eraseIdx i) := by
  obtain ⟨hi, _⟩ := List.getElem?_eq_some_iff.mp h
  exact List.set_perm_cons_eraseIdx hi b

/-- Something added by each entry that matches is added as often as there are such entries. -/
theorem flatMap_append_perm_replicate (l : List A) (g : A → List B) (p : A → Bool) (b : B) :
    (l.flatMap fun a ↦ if p a then g a ++ [b] else g a).Perm
      (List.replicate (l.countP p) b ++ l.flatMap g) := by
  induction l with
  | nil => exact .refl _
  | cons a rest ih =>
    rw [List.flatMap_cons, List.flatMap_cons]
    cases hp : p a with
    | true =>
      rw [List.countP_cons_of_pos hp, List.replicate_succ, if_pos rfl, List.append_assoc]
      refine ((ih.append_left [b]).append_left (g a)).trans ?_
      exact List.perm_append_comm_assoc (g a) (b :: List.replicate _ b) _
    | false =>
      rw [List.countP_cons_of_neg (by simp [hp]), if_neg (by simp)]
      exact (ih.append_left (g a)).trans (List.perm_append_comm_assoc (g a) _ _)

end FlatMap

section Compact

variable {V : Type v}

/-- The entries of the positions below `n`, without the missing ones. -/
def compact (f : Nat → Option V) (n : Nat) : List V := (List.range n).filterMap f

theorem compact_succ (f : Nat → Option V) (n : Nat) :
    compact f (n + 1) = compact f n ++ (f n).toList := by
  simp only [compact, List.range_succ, List.filterMap_append, List.filterMap_cons,
    List.filterMap_nil]
  cases f n <;> rfl

theorem length_compact_le (f : Nat → Option V) (n : Nat) : (compact f n).length ≤ n := by
  have hle := List.length_filterMap_le f (List.range n)
  rwa [List.length_range] at hle

/-- Without a missing entry every position keeps its place. -/
theorem length_compact_of_isSome {f : Nat → Option V} {n : Nat} (h : ∀ i < n, f i ≠ none) :
    (compact f n).length = n := by
  induction n with
  | zero => rfl
  | succ n ih =>
    obtain ⟨v, hv⟩ := Option.ne_none_iff_exists'.mp (h n (Nat.lt_succ_self n))
    rw [compact_succ, hv, List.length_append, ih fun i hi ↦ h i (Nat.lt_succ_of_lt hi)]
    rfl

/-- A missing entry makes the list shorter. -/
theorem length_compact_lt {f : Nat → Option V} {i n : Nat} (hi : i < n) (hnone : f i = none) :
    (compact f n).length < n := by
  induction n with
  | zero => omega
  | succ n ih =>
    rw [compact_succ, List.length_append]
    rcases Nat.lt_succ_iff_lt_or_eq.mp hi with hlt | rfl
    · have hlen := ih hlt
      have hone : (f n).toList.length ≤ 1 := by cases f n <;> simp
      omega
    · have hlen := length_compact_le f i
      simp only [hnone, Option.toList_none, List.length_nil]
      omega

/-- When the missing entries come last, the entry after the kept ones is missing. -/
theorem eq_none_of_length_compact {f : Nat → Option V} {n : Nat}
    (htail : ∀ i j, i < j → j < n → f i = none → f j = none)
    (hlt : (compact f n).length < n) : f (compact f n).length = none := by
  induction n with
  | zero => cases hlt
  | succ n ih =>
    have htail' : ∀ i j, i < j → j < n → f i = none → f j = none := by
      intro i j hij hj
      exact htail i j hij (Nat.lt_succ_of_lt hj)
    rcases Nat.lt_or_ge (compact f n).length n with hshort | hfull
    · have hnone := ih htail' hshort
      have hlast := htail _ n hshort (Nat.lt_succ_self n) hnone
      rw [compact_succ, hlast]
      simpa using hnone
    · have hlen : (compact f n).length = n := Nat.le_antisymm (length_compact_le f n) hfull
      cases hfn : f n with
      | none =>
        rw [compact_succ, hfn]
        simpa [hlen] using hfn
      | some v =>
        rw [compact_succ, hfn, List.length_append, hlen] at hlt
        exact absurd hlt (Nat.lt_irrefl _)

/-- Every kept entry stands at its own position exactly when no entry follows a missing one. -/
theorem compact_aligned_iff (f : Nat → Option V) (n : Nat) :
    (∀ k v, (compact f n)[k]? = some v → f k = some v) ↔
      ∀ i j, i < j → j < n → f i = none → f j = none := by
  induction n with
  | zero =>
    constructor
    · intro _ i j _ hj
      omega
    · intro _ k v hk
      cases hk
  | succ n ih =>
    rw [compact_succ]
    constructor
    · intro h
      have htail := ih.mp fun k v hk ↦ h k v (List.getElem?_append_left
        (List.getElem?_eq_some_iff.mp hk).1 ▸ hk)
      intro i j hij hj hi
      rcases Nat.lt_succ_iff_lt_or_eq.mp hj with hj | rfl
      · exact htail i j hij hj hi
      · -- a kept entry at the last position would stand at a missing one
        cases hfj : f j with
        | none => rfl
        | some v =>
          have hshort := length_compact_lt hij hi
          have hnone := eq_none_of_length_compact htail hshort
          have hv := h (compact f j).length v (by simp [hfj])
          rw [hnone] at hv
          cases hv
    · intro htail k v hk
      have htail' : ∀ i j, i < j → j < n → f i = none → f j = none := by
        intro i j hij hj
        exact htail i j hij (Nat.lt_succ_of_lt hj)
      rcases Nat.lt_or_ge k (compact f n).length with hlt | hge
      · rw [List.getElem?_append_left hlt] at hk
        exact ih.mpr htail' k v hk
      · rw [List.getElem?_append_right hge] at hk
        cases hfn : f n with
        | none => simp [hfn] at hk
        | some w =>
          have hsome : ∀ i < n, f i ≠ none := by
            intro i hi hnone
            rw [htail i n hi (Nat.lt_succ_self n) hnone] at hfn
            cases hfn
          have hlen := length_compact_of_isSome hsome
          rw [hfn, hlen] at hk
          have hkn : k = n := by
            have hlt := (List.getElem?_eq_some_iff.mp hk).1
            simp at hlt
            omega
          rw [hkn, Nat.sub_self] at hk
          rw [hkn, hfn]
          simpa using hk

/-- Without a missing entry the list is the function on the positions. -/
theorem getElem?_compact_of_isSome {f : Nat → Option V} {n k : Nat} (h : ∀ i < n, f i ≠ none)
    (hk : k < n) : (compact f n)[k]? = f k := by
  have hlen : k < (compact f n).length := by rwa [length_compact_of_isSome h]
  have hfk : f k = some (compact f n)[k] := by
    apply (compact_aligned_iff f n).mpr
    · intro i j hij hj hi
      exact absurd hi (h i (Nat.lt_trans hij hj))
    · exact List.getElem?_eq_getElem hlen
  rw [hfk, List.getElem?_eq_getElem hlen]

end Compact

section Find

variable {A : Type u} {p q : A → Bool}

/-- Searches that disagree on the head differ: the one that takes it finds it, and the other
finds an entry it takes. -/
theorem find?_cons_ne {a : A} (l : List A) (h : p a ≠ q a) :
    (a :: l).find? p ≠ (a :: l).find? q := by
  intro heq
  cases hp : p a with
  | true =>
    have hq : q a = false := by rw [hp] at h; simpa using h.symm
    rw [List.find?_cons_of_pos hp] at heq
    have hqa := List.find?_some heq.symm
    rw [hq] at hqa
    cases hqa
  | false =>
    have hq : q a = true := by rw [hp] at h; simpa using h.symm
    rw [List.find?_cons_of_pos hq] at heq
    have hpa := List.find?_some heq
    rw [hp] at hpa
    cases hpa

/-- Two searches find the same entry exactly when every entry they disagree on comes after
one that both take. -/
theorem find?_eq_find?_iff (l : List A) :
    l.find? p = l.find? q ↔ ∀ pre c post, l = pre ++ c :: post → p c ≠ q c →
      ∃ d ∈ pre, p d = true ∧ q d = true := by
  induction l with
  | nil => simp
  | cons a l ih =>
    by_cases ha : p a = q a
    · cases hp : p a with
      | true =>
        have hq : q a = true := ha ▸ hp
        rw [List.find?_cons_of_pos hp, List.find?_cons_of_pos hq]
        refine ⟨fun _ pre c post hl hne ↦ ?_, fun _ ↦ rfl⟩
        cases pre with
        | nil =>
          rw [List.nil_append, List.cons.injEq] at hl
          exact absurd ha (hl.1 ▸ hne)
        | cons b pre =>
          rw [List.cons_append, List.cons.injEq] at hl
          exact ⟨b, List.mem_cons_self, hl.1 ▸ hp, hl.1 ▸ hq⟩
      | false =>
        have hq : q a = false := ha ▸ hp
        rw [List.find?_cons_of_neg (by simp [hp]), List.find?_cons_of_neg (by simp [hq]), ih]
        constructor
        · intro h pre c post hl hne
          cases pre with
          | nil =>
            rw [List.nil_append, List.cons.injEq] at hl
            exact absurd ha (hl.1 ▸ hne)
          | cons b pre =>
            rw [List.cons_append, List.cons.injEq] at hl
            obtain ⟨d, hd, hboth⟩ := h pre c post hl.2 hne
            exact ⟨d, List.mem_cons_of_mem _ hd, hboth⟩
        · intro h pre c post hl hne
          obtain ⟨d, hd, hpd, hqd⟩ := h (a :: pre) c post (by rw [hl, List.cons_append]) hne
          rcases List.mem_cons.mp hd with rfl | hd
          · rw [hp] at hpd
            cases hpd
          · exact ⟨d, hd, hpd, hqd⟩
    · constructor
      · intro h
        exact absurd h (find?_cons_ne l ha)
      · intro h
        obtain ⟨d, hd, _⟩ := h [] a l rfl ha
        cases hd

end Find

/-- Lists with the same entries for each key have the same entries. -/
theorem perm_of_filter {A : Type u} {K : Type v} [DecidableEq A] [DecidableEq K] (key : A → K)
    {l m : List A} (h : ∀ k, (l.filter (key · = k)).Perm (m.filter (key · = k))) : l.Perm m := by
  rw [List.perm_iff_count]
  intro a
  have hcount := (h (key a)).count_eq a
  rwa [List.count_filter (by simp), List.count_filter (by simp)] at hcount

/-- Entries of a list without duplicates stand in the same order in any longer one. -/
theorem idxOf_lt_of_sublist {A : Type u} [BEq A] [LawfulBEq A] {l m : List A}
    (h : l.Sublist m) (hm : m.Nodup) {a b : A} (ha : a ∈ l) (hb : b ∈ l)
    (hlt : l.idxOf a < l.idxOf b) : m.idxOf a < m.idxOf b := by
  induction h with
  | slnil => cases ha
  | cons x hsub ih =>
    obtain ⟨hx, hm⟩ := List.nodup_cons.mp hm
    have hne {c : A} (hc : c ∈ _) : x ≠ c := fun heq ↦ hx (heq ▸ hsub.subset hc)
    rw [List.idxOf_cons_ne _ (hne ha), List.idxOf_cons_ne _ (hne hb)]
    exact Nat.succ_lt_succ (ih hm ha hb hlt)
  | cons_cons x hsub ih =>
    obtain ⟨hx, hm⟩ := List.nodup_cons.mp hm
    by_cases hxb : x = b
    · rw [List.idxOf_cons_eq _ hxb] at hlt
      cases hlt
    · by_cases hxa : x = a
      · rw [List.idxOf_cons_eq _ hxa, List.idxOf_cons_ne _ hxb]
        exact Nat.succ_pos _
      · rw [List.idxOf_cons_ne _ hxa, List.idxOf_cons_ne _ hxb] at hlt ⊢
        exact Nat.succ_lt_succ (ih hm ((List.mem_cons.mp ha).resolve_left (Ne.symm hxa))
          ((List.mem_cons.mp hb).resolve_left (Ne.symm hxb)) (Nat.lt_of_succ_lt_succ hlt))

section Ends

variable {A : Type u}

/-- The first entries of a prefix are the last entries of the list only when there is nothing else.
-/
theorem take_eq_rtake_iff {l p : List A} (hl : l.Nodup) (hp : p <+: l) {k : Nat} (hk : 0 < k) :
    p.take k = l.rtake k ↔ p = l ∧ l.length ≤ k := by
  constructor
  · intro h
    by_cases hle : l.length ≤ k
    · rw [List.rtake, Nat.sub_eq_zero_of_le hle, List.drop_zero] at h
      refine ⟨hp.eq_of_length_le ?_, hle⟩
      rw [← h]
      exact List.length_take_le' k p
    · -- the first entry would be one of the last
      exfalso
      have hlt : l.length - k < l.length := by omega
      have hlast : (l.rtake k)[0]? = l[l.length - k]? := by
        rw [List.rtake, List.getElem?_drop, Nat.add_zero]
      have hfirst : (p.take k)[0]? = p[0]? := List.getElem?_take_of_lt hk
      rw [h, hlast, List.getElem?_eq_getElem hlt] at hfirst
      obtain ⟨hpos, hget⟩ := List.getElem?_eq_some_iff.mp hfirst.symm
      rw [hp.getElem hpos] at hget
      have := (hl.getElem_inj_iff).mp hget
      omega
  · rintro ⟨rfl, hle⟩
    rw [List.rtake, Nat.sub_eq_zero_of_le hle, List.drop_zero, List.take_of_length_le hle]

/-- An entry is missing in a prefix exactly when it is shorter. -/
theorem exists_notMem_prefix_iff {l p : List A} (hl : l.Nodup) (hp : p <+: l) :
    (∃ a ∈ l, a ∉ p) ↔ p.length < l.length := by
  obtain ⟨rest, rfl⟩ := hp
  rw [List.length_append, Nat.lt_add_right_iff_pos, List.length_pos_iff_exists_mem]
  constructor
  · rintro ⟨a, ha, hnot⟩
    exact ⟨a, (List.mem_append.mp ha).resolve_left hnot⟩
  · rintro ⟨a, ha⟩
    exact ⟨a, List.mem_append_right p ha, fun hp ↦ List.disjoint_of_nodup_append hl hp ha⟩

end Ends

end GithubAgent.Base
