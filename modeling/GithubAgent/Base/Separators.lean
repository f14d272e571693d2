import Mathlib.Data.List.Basic

/-!
# Texts with separators

Parts that do not contain the separator are determined by the text that joins them; a doubled
separator divides a text in one way when none of the parts before it is empty. When only the middle
one of three parts is without the separator, a text is divided in two ways only where one division
continues a part of the other.
-/

namespace GithubAgent.Base

variable {α : Type} [BEq α] [LawfulBEq α] {a : α}

/-- The first separator divides a text in one way. -/
theorem append_cons_inj {xs ys us vs : List α} (hx : a ∉ xs) (hy : a ∉ ys)
    (h : xs ++ a :: us = ys ++ a :: vs) : xs = ys ∧ us = vs := by
  have hsplit := congrArg (List.splitOn a) h
  rw [List.splitOn_append_cons_self_of_not_mem hx, List.splitOn_append_cons_self_of_not_mem hy,
    List.cons.injEq] at hsplit
  have hxy : xs = ys := hsplit.1
  subst hxy
  exact ⟨rfl, (List.cons.inj (List.append_cancel_left h)).2⟩

/-- The last separator divides a text in one way. -/
theorem append_cons_inj_last {xs ys us vs : List α} (hu : a ∉ us) (hv : a ∉ vs)
    (h : xs ++ a :: us = ys ++ a :: vs) : xs = ys ∧ us = vs := by
  have hreverse := congrArg List.reverse h
  simp only [List.reverse_append, List.reverse_cons, List.append_assoc, List.singleton_append]
    at hreverse
  obtain ⟨husvs, hxsys⟩ := append_cons_inj (by simpa using hu) (by simpa using hv) hreverse
  exact ⟨List.reverse_inj.mp hxsys, List.reverse_inj.mp husvs⟩

/-- A text `xs:ks:us` continues the field `ys` of another one `ys:ls:vs`: the field `ys` has all of
`xs:ks:`, and what is left of it begins the rest of the first text. -/
def Continues (a : α) (xs ks us ys ls vs : List α) : Prop :=
  ∃ w, ys ++ [a] = xs ++ a :: (ks ++ a :: w) ∧ us = w ++ (ls ++ a :: vs)

omit [BEq α] [LawfulBEq α] in
theorem Continues.append_eq {xs ys ks ls us vs : List α} (h : Continues a xs ks us ys ls vs) :
    xs ++ a :: (ks ++ a :: us) = ys ++ a :: (ls ++ a :: vs) := by
  obtain ⟨w, hys, rfl⟩ := h
  calc xs ++ a :: (ks ++ a :: (w ++ (ls ++ a :: vs)))
      = (xs ++ a :: (ks ++ a :: w)) ++ (ls ++ a :: vs) := by simp
    _ = ys ++ a :: (ls ++ a :: vs) := by rw [← hys, List.append_assoc]; rfl

/-- When the first field of a text is longer than that of another one with the same characters, it
continues over the middle field. -/
theorem continues_of_longer {xs ys ks ls us vs t : List α} (hk : a ∉ ks)
    (hys : ys ++ [a] = xs ++ [a] ++ t) (hks : ks ++ a :: us = t ++ (ls ++ a :: vs))
    (ht : t ≠ []) : Continues a xs ks us ys ls vs := by
  obtain ⟨body, last, rfl⟩ := (List.eq_nil_or_concat t).resolve_left ht
  rw [List.concat_eq_append] at hys hks
  have hlast : a = last := by
    rw [← List.append_assoc] at hys
    exact List.singleton_inj.mp (List.append_inj' hys rfl).2
  subst hlast
  obtain ⟨before, after, hbody, hbefore⟩ :=
    List.eq_append_cons_of_mem (List.mem_append_right body (List.mem_singleton_self a))
  rw [hbody, List.append_assoc, List.cons_append] at hks
  obtain ⟨rfl, rfl⟩ := append_cons_inj hk hbefore hks
  exact ⟨after, by rw [hys, hbody]; simp, rfl⟩

/-- Two texts `xs:ks:us` with a field in the middle that has no separator are equal when all fields
are, or when one continues a field of the other. -/
theorem append_field_eq_iff {xs ys ks ls us vs : List α} (hk : a ∉ ks) (hl : a ∉ ls) :
    xs ++ a :: (ks ++ a :: us) = ys ++ a :: (ls ++ a :: vs) ↔
      (xs = ys ∧ ks = ls ∧ us = vs) ∨
        Continues a xs ks us ys ls vs ∨ Continues a ys ls vs xs ks us := by
  refine ⟨fun h ↦ ?_, ?_⟩
  · have happend : (xs ++ [a]) ++ (ks ++ a :: us) = (ys ++ [a]) ++ (ls ++ a :: vs) := by
      simpa using h
    rcases List.append_eq_append_iff.mp happend with ⟨t, hys, hks⟩ | ⟨t, hxs, hls⟩
    · by_cases ht : t = []
      · subst ht
        have hxsys : xs = ys := by simpa using hys.symm
        obtain ⟨hkl, husvs⟩ := append_cons_inj hk hl (by simpa using hks)
        exact .inl ⟨hxsys, hkl, husvs⟩
      · exact .inr (.inl (continues_of_longer hk hys hks ht))
    · by_cases ht : t = []
      · subst ht
        have hxsys : xs = ys := by simpa using hxs
        obtain ⟨hlk, hvsus⟩ := append_cons_inj hl hk (by simpa using hls)
        exact .inl ⟨hxsys, hlk.symm, hvsus.symm⟩
      · exact .inr (.inr (continues_of_longer hl hxs hls ht))
  · rintro (⟨rfl, rfl, rfl⟩ | h | h)
    · rfl
    · exact h.append_eq
    · exact h.append_eq.symm

/-- The digits of a number determine it. -/
theorem repr_injective {m n : Nat} (h : toString m = toString n) : m = n := by
  have hdigits : Nat.toDigits 10 m = Nat.toDigits 10 n := by
    rw [← Nat.toList_repr, ← Nat.toList_repr]
    exact congrArg String.toList h
  rw [← Nat.ofDigitChars_ten_toDigits (n := m), hdigits, Nat.ofDigitChars_ten_toDigits]

/-- The digits of a number have no separator. -/
theorem notMem_toString {c : Char} (n : Nat) (hc : c.isDigit = false) :
    c ∉ (toString n).toList := by
  intro hmem
  rw [show (toString n).toList = Nat.toDigits 10 n from Nat.toList_repr] at hmem
  have hdigit := Nat.isDigit_of_mem_toDigits (by decide) (by decide) hmem
  exact absurd (hdigit.symm.trans hc) (by decide)

/-- Fields without the separator are determined by the text that joins them. -/
theorem intercalate_inj {fields fields' : List (List α)} (h : ∀ field ∈ fields, a ∉ field)
    (h' : ∀ field ∈ fields', a ∉ field) (hne : fields ≠ []) (hne' : fields' ≠ [])
    (heq : [a].intercalate fields = [a].intercalate fields') : fields = fields' := by
  rw [← List.splitOn_intercalate a h hne, heq, List.splitOn_intercalate a h' hne']

/-- Joining adds nothing but separators. -/
theorem count_intercalate_of_ne {b : α} (hb : a ≠ b) (parts : List (List α)) :
    ([a].intercalate parts).count b = parts.flatten.count b := by
  induction parts with
  | nil => rfl
  | cons part rest ih =>
    cases rest with
    | nil => simp
    | cons next rest =>
      rw [List.intercalate_cons_cons, List.flatten_cons, List.count_append, List.count_append,
        List.count_append, ih, List.count_singleton, beq_false_of_ne hb]
      rfl

/-- Joining puts a separator between two parts that follow each other. -/
theorem count_intercalate_self (part : List α) (rest : List (List α)) :
    ([a].intercalate (part :: rest)).count a = (part :: rest).flatten.count a + rest.length := by
  induction rest generalizing part with
  | nil => simp
  | cons next rest ih =>
    rw [List.intercalate_cons_cons, List.flatten_cons, List.count_append, List.count_append,
      List.count_append, ih, List.count_singleton_self, List.length_cons]
    omega

/-- An element of a text is a separator, or stands in one of its parts. -/
theorem mem_splitOn {b : α} {text : List α} (h : b ∈ text) :
    b = a ∨ ∃ part ∈ text.splitOn a, b ∈ part := by
  induction text with
  | nil => cases h
  | cons c rest ih =>
    obtain ⟨first, parts, hparts⟩ := List.exists_cons_of_ne_nil (List.splitOn_ne_nil a rest)
    rw [List.splitOn_cons_eq_if_modifyHead]
    rw [hparts] at ih ⊢
    by_cases hca : c = a
    · subst hca
      rcases List.mem_cons.mp h with rfl | h
      · exact .inl rfl
      · refine (ih h).imp id ?_
        rintro ⟨part, hpart, hb⟩
        exact ⟨part, by simp [hpart], hb⟩
    · rcases List.mem_cons.mp h with rfl | h
      · exact .inr ⟨b :: first, by simp [hca], List.mem_cons_self⟩
      · rcases ih h with hb | ⟨part, hpart, hb⟩
        · exact .inl hb
        · rcases List.mem_cons.mp hpart with rfl | hpart
          · exact .inr ⟨c :: part, by simp [hca], List.mem_cons_of_mem _ hb⟩
          · exact .inr ⟨part, by simp [hca, hpart], hb⟩

/-- An element of a part is one of the text. -/
theorem mem_of_mem_splitOn {b : α} {text part : List α} (hpart : part ∈ text.splitOn a)
    (hb : b ∈ part) : b ∈ text := by
  by_cases hab : a = b
  · subst hab
    by_contra hnot
    rw [List.splitOn_eq_singleton hnot, List.mem_singleton] at hpart
    exact hnot (hpart ▸ hb)
  · have hflatten : b ∈ (text.splitOn a).flatten := List.mem_flatten_of_mem hpart hb
    have htext : [a].intercalate (text.splitOn a) = text := List.intercalate_splitOn a
    apply List.count_pos_iff.mp
    rw [← htext, count_intercalate_of_ne hab]
    exact List.count_pos_iff.mpr hflatten

/-- The separator stands in no part. -/
theorem notMem_of_mem_splitOn {text part : List α} (hpart : part ∈ text.splitOn a) : a ∉ part := by
  induction text generalizing part with
  | nil =>
    rw [List.splitOn_nil, List.mem_singleton] at hpart
    rw [hpart]
    exact List.not_mem_nil
  | cons c rest ih =>
    obtain ⟨first, parts, hparts⟩ := List.exists_cons_of_ne_nil (List.splitOn_ne_nil a rest)
    rw [List.splitOn_cons_eq_if_modifyHead] at hpart
    rw [hparts] at ih hpart
    by_cases hca : c = a
    · have hparts : part = [] ∨ part ∈ first :: parts := by simpa [hca] using hpart
      rcases hparts with rfl | hpart
      · exact List.not_mem_nil
      · exact ih hpart
    · have hparts : part = c :: first ∨ part ∈ parts := by simpa [hca] using hpart
      rcases hparts with rfl | hpart
      · rw [List.mem_cons, not_or]
        exact ⟨Ne.symm hca, ih List.mem_cons_self⟩
      · exact ih (List.mem_cons_of_mem _ hpart)

/-- A doubled separator is an empty part. -/
theorem splitOn_append_cons_cons (xs us : List α) :
    (xs ++ a :: a :: us).splitOn a = xs.splitOn a ++ [] :: us.splitOn a := by
  rw [List.splitOn_append_cons_self]
  simp [List.splitOn_cons_eq_if_modifyHead]

/-- Parts that agree are parts of one text. -/
theorem eq_of_splitOn_eq {xs ys : List α} (h : xs.splitOn a = ys.splitOn a) : xs = ys := by
  simpa using congrArg [a].intercalate h

/-- The first doubled separator divides a text in one way, when no part before it is empty. -/
theorem append_cons_cons_inj {xs ys us vs : List α} (hx : [] ∉ xs.splitOn a)
    (hy : [] ∉ ys.splitOn a) (h : xs ++ a :: a :: us = ys ++ a :: a :: vs) :
    xs = ys ∧ us = vs := by
  have hsplit := congrArg (List.splitOn a) h
  rw [splitOn_append_cons_cons, splitOn_append_cons_cons] at hsplit
  obtain ⟨hparts, hrest⟩ := append_cons_inj hx hy hsplit
  exact ⟨eq_of_splitOn_eq hparts, eq_of_splitOn_eq hrest⟩

/-- The last doubled separator divides a text in one way, when no part behind it is empty. -/
theorem append_cons_cons_inj_right {xs ys us vs : List α} (hu : [] ∉ us.splitOn a)
    (hv : [] ∉ vs.splitOn a) (h : xs ++ a :: a :: us = ys ++ a :: a :: vs) :
    xs = ys ∧ us = vs := by
  have hsplit := congrArg (List.splitOn a) h
  rw [splitOn_append_cons_cons, splitOn_append_cons_cons] at hsplit
  have hreverse := congrArg List.reverse hsplit
  simp only [List.reverse_append, List.reverse_cons, List.append_assoc,
    List.singleton_append] at hreverse
  obtain ⟨hrest, hparts⟩ := append_cons_inj (List.mem_reverse.not.mpr hu)
    (List.mem_reverse.not.mpr hv) hreverse
  exact ⟨eq_of_splitOn_eq (List.reverse_inj.mp hparts),
    eq_of_splitOn_eq (List.reverse_inj.mp hrest)⟩

end GithubAgent.Base
