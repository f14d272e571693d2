import GithubAgent.Base.Lists

/-!
# The last entry of each key

A dict that is filled in the order of a list, `d[key(a)] = a`, keeps the last entry of each key, at
the place of the first one. Up to the order, its values are those of `lastBy`.
-/

namespace GithubAgent.Base

universe u v w

variable {A : Type u} {B : Type u} {K : Type v} [DecidableEq K] {key : A → K}

/-! ### Entries without repetition -/

theorem key_notMem_of_mem_dedupBy {l : List A} {a : A} : ∀ {seen : List K},
    a ∈ dedupBy key seen l → key a ∉ seen := by
  induction l with
  | nil => nofun
  | cons b rest ih =>
    intro seen ha
    rw [dedupBy_cons] at ha
    split at ha
    · exact ih ha
    · next hb =>
      rcases List.mem_cons.mp ha with rfl | ha
      · exact hb
      · exact fun hmem ↦ ih ha (List.mem_cons_of_mem _ hmem)

theorem nodup_dedupBy (l : List A) : ∀ seen : List K, ((dedupBy key seen l).map key).Nodup := by
  induction l with
  | nil => exact fun _ ↦ List.nodup_nil
  | cons b rest ih =>
    intro seen
    rw [dedupBy_cons]
    split
    · exact ih seen
    · rw [List.map_cons, List.nodup_cons]
      refine ⟨fun hmem ↦ ?_, ih _⟩
      obtain ⟨a, ha, heq⟩ := List.mem_map.mp hmem
      exact key_notMem_of_mem_dedupBy ha (heq ▸ List.mem_cons_self)

/-- Every key of the list that was not seen before is kept. -/
theorem exists_mem_dedupBy {l : List A} {a : A} (ha : a ∈ l) : ∀ {seen : List K}, key a ∉ seen →
    ∃ b ∈ dedupBy key seen l, key b = key a := by
  induction l with
  | nil => cases ha
  | cons c rest ih =>
    intro seen hnot
    rw [dedupBy_cons]
    rcases List.mem_cons.mp ha with rfl | ha
    · rw [if_neg hnot]
      exact ⟨a, List.mem_cons_self, rfl⟩
    · split
      · exact ih ha hnot
      · by_cases heq : key a = key c
        · exact ⟨c, List.mem_cons_self, heq.symm⟩
        · have hnot' : key a ∉ key c :: seen := by
            rw [List.mem_cons, not_or]
            exact ⟨heq, hnot⟩
          obtain ⟨b, hb, hkey⟩ := ih ha hnot'
          exact ⟨b, List.mem_cons_of_mem _ hb, hkey⟩

/-- A key seen before is left out. -/
theorem dedupBy_cons_seen (k : K) (l : List A) : ∀ seen : List K,
    dedupBy key (k :: seen) l = (dedupBy key seen l).filter (key · ≠ k) := by
  induction l with
  | nil => exact fun _ ↦ rfl
  | cons a rest ih =>
    intro seen
    rw [dedupBy_cons, dedupBy_cons]
    by_cases hseen : key a ∈ seen
    · rw [if_pos hseen, if_pos (List.mem_cons_of_mem _ hseen), ih]
    · rw [if_neg hseen]
      by_cases hk : key a = k
      · rw [if_pos (hk ▸ List.mem_cons_self), List.filter_cons_of_neg (by simpa using hk), hk]
        refine (List.filter_eq_self.mpr fun b hb ↦ ?_).symm
        have hne : key b ∉ k :: seen := key_notMem_of_mem_dedupBy hb
        rw [List.mem_cons, not_or] at hne
        simpa using hne.1
      · have hnot : key a ∉ k :: seen := by
          rw [List.mem_cons, not_or]
          exact ⟨hk, hseen⟩
        rw [if_neg hnot, List.filter_cons_of_pos (by simpa using hk), ← ih]
        congr 1
        apply dedupBy_congr
        intro b _
        simp only [List.mem_cons]
        tauto

theorem dedupBy_of_seen {l : List A} {seen : List K} (h : ∀ a ∈ l, key a ∈ seen) :
    dedupBy key seen l = [] := by
  rw [List.eq_nil_iff_forall_not_mem]
  intro a ha
  exact key_notMem_of_mem_dedupBy ha (h a (mem_of_mem_dedupBy ha))

theorem dedupBy_map (f : B → A) (l : List B) : ∀ seen : List K,
    dedupBy key seen (l.map f) = (dedupBy (key ∘ f) seen l).map f := by
  induction l with
  | nil => exact fun _ ↦ rfl
  | cons b rest ih =>
    intro seen
    rw [List.map_cons, dedupBy_cons, dedupBy_cons, Function.comp_apply]
    split
    · exact ih seen
    · rw [List.map_cons, ih]

/-- Entries may be left out by their keys before or after. -/
theorem filter_dedupBy {p : A → Bool} (hp : ∀ a b, key a = key b → p a = p b) (l : List A) :
    ∀ seen : List K, (dedupBy key seen l).filter p = dedupBy key seen (l.filter p) := by
  induction l with
  | nil => exact fun _ ↦ rfl
  | cons a rest ih =>
    intro seen
    rw [dedupBy_cons]
    by_cases hpa : p a = true
    · rw [List.filter_cons_of_pos hpa, dedupBy_cons]
      split
      · exact ih seen
      · rw [List.filter_cons_of_pos hpa, ih]
    · rw [List.filter_cons_of_neg hpa]
      split
      · exact ih seen
      · rw [List.filter_cons_of_neg hpa, ih]
        apply dedupBy_congr
        intro b hb
        have hne : key b ≠ key a := by
          intro heq
          exact hpa ((hp b a heq).symm.trans (List.mem_filter.mp hb).2)
        simp [hne]

/-- Two keys that tell the entries apart alike keep the same ones. -/
theorem dedupBy_eq_of_keys {L : Type v} [DecidableEq L] {key' : A → L} (l : List A) :
    ∀ before : List A, (∀ a ∈ before ++ l, ∀ b ∈ before ++ l, key a = key b ↔ key' a = key' b) →
      dedupBy key (before.map key) l = dedupBy key' (before.map key') l := by
  induction l with
  | nil => exact fun _ _ ↦ rfl
  | cons a rest ih =>
    intro before h
    have hmem : key a ∈ before.map key ↔ key' a ∈ before.map key' := by
      simp only [List.mem_map]
      constructor
      · rintro ⟨b, hb, heq⟩
        exact ⟨b, hb, (h b (by simp [hb]) a (by simp)).mp heq⟩
      · rintro ⟨b, hb, heq⟩
        exact ⟨b, hb, (h b (by simp [hb]) a (by simp)).mpr heq⟩
    have hrest : ∀ b ∈ before ++ rest, ∀ c ∈ before ++ rest, key b = key c ↔ key' b = key' c := by
      intro b hb c hc
      have hsub : before ++ rest ⊆ before ++ a :: rest := by
        intro d hd
        rcases List.mem_append.mp hd with hd | hd
        · exact List.mem_append_left _ hd
        · exact List.mem_append_right _ (List.mem_cons_of_mem _ hd)
      exact h b (hsub hb) c (hsub hc)
    rw [dedupBy_cons, dedupBy_cons]
    by_cases hseen : key a ∈ before.map key
    · rw [if_pos hseen, if_pos (hmem.mp hseen), ih before hrest]
    · rw [if_neg hseen, if_neg (mt hmem.mpr hseen)]
      congr 1
      apply ih (a :: before)
      intro b hb c hc
      apply h
      · simp only [List.cons_append, List.mem_cons, List.mem_append] at hb ⊢
        tauto
      · simp only [List.cons_append, List.mem_cons, List.mem_append] at hc ⊢
        tauto

/-! ### The last entries -/

variable (key) in
/-- Of the entries with one key, the last; the order is reversed. -/
def lastBy (l : List A) : List A := dedupBy key [] l.reverse

/-- What comes last is kept, and of the rest what has other keys. -/
theorem lastBy_append (l m : List A) :
    lastBy key (l ++ m) = lastBy key m ++ dedupBy key (m.map key) l.reverse := by
  unfold lastBy
  rw [List.reverse_append, dedupBy_append, List.append_nil]
  congr 1
  apply dedupBy_congr
  intro a _
  rw [List.map_reverse, List.mem_reverse]

theorem nodup_lastBy (l : List A) : ((lastBy key l).map key).Nodup := nodup_dedupBy l.reverse []

theorem mem_of_mem_lastBy {l : List A} {a : A} (h : a ∈ lastBy key l) : a ∈ l :=
  List.mem_reverse.mp (mem_of_mem_dedupBy h)

variable (key) in
theorem exists_mem_lastBy {l : List A} {a : A} (h : a ∈ l) :
    ∃ b ∈ lastBy key l, key b = key a :=
  exists_mem_dedupBy (List.mem_reverse.mpr h) List.not_mem_nil

/-- What comes again later is not the last. -/
theorem lastBy_append_of_again {l m : List A} (h : ∀ a ∈ l, ∃ b ∈ m, key b = key a) :
    lastBy key (l ++ m) = lastBy key m := by
  rw [lastBy_append, dedupBy_of_seen, List.append_nil]
  intro a ha
  obtain ⟨b, hb, hkey⟩ := h a (List.mem_reverse.mp ha)
  exact List.mem_map.mpr ⟨b, hb, hkey⟩

theorem lastBy_eq_nil {l : List A} : lastBy key l = [] ↔ l = [] := by
  constructor
  · intro h
    rw [List.eq_nil_iff_forall_not_mem]
    intro a ha
    obtain ⟨b, hb, _⟩ := exists_mem_lastBy key ha
    exact List.not_mem_nil (h ▸ hb)
  · rintro rfl
    rfl

theorem lastBy_map (f : B → A) (l : List B) :
    lastBy key (l.map f) = (lastBy (key ∘ f) l).map f := by
  rw [lastBy, ← List.map_reverse, dedupBy_map]
  rfl

theorem filter_lastBy {p : A → Bool} (hp : ∀ a b, key a = key b → p a = p b) (l : List A) :
    (lastBy key l).filter p = lastBy key (l.filter p) := by
  rw [lastBy, filter_dedupBy hp, List.filter_reverse]
  rfl

theorem lastBy_eq_of_keys {L : Type v} [DecidableEq L] {key' : A → L} {l : List A}
    (h : ∀ a ∈ l, ∀ b ∈ l, key a = key b ↔ key' a = key' b) : lastBy key l = lastBy key' l :=
  dedupBy_eq_of_keys l.reverse [] fun a ha b hb ↦
    h a (List.mem_reverse.mp ha) b (List.mem_reverse.mp hb)

/-- A coarser key leaves as many entries only where it tells them apart as well. -/
theorem eq_of_perm_lastBy {L : Type v} [DecidableEq L] {coarse : A → L} {l : List A} {a b : A}
    (hperm : ((lastBy coarse l).map coarse).Perm ((lastBy key l).map coarse)) (ha : a ∈ l)
    (hb : b ∈ l) (hcoarse : ∀ x y, key x = key y → coarse x = coarse y)
    (h : coarse a = coarse b) : key a = key b := by
  have hnodup : ((lastBy key l).map coarse).Nodup := hperm.nodup_iff.mp (nodup_lastBy l)
  obtain ⟨a', ha', hkeya⟩ := exists_mem_lastBy key ha
  obtain ⟨b', hb', hkeyb⟩ := exists_mem_lastBy key hb
  have heq : a' = b' := by
    apply List.inj_on_of_nodup_map hnodup ha' hb'
    rw [hcoarse _ _ hkeya, hcoarse _ _ hkeyb, h]
  rw [← hkeya, ← hkeyb, heq]

/-! ### The values of a dict -/

variable (key) in
/-- `d[key(a)] = a` on the values of the dict. -/
def setEntry (a : A) : List A → List A
  | [] => [a]
  | b :: rest => if key b = key a then a :: rest else b :: setEntry a rest

variable (key) in
/-- The values of the dict that is filled from the list. -/
def dictValues (l : List A) : List A := l.foldl (fun d a ↦ setEntry key a d) []

/-- The entry takes the place of the one with its key. -/
theorem setEntry_perm (a : A) {d : List A} (h : (d.map key).Nodup) :
    (setEntry key a d).Perm (a :: d.filter (key · ≠ key a)) := by
  induction d with
  | nil => exact List.Perm.refl _
  | cons b rest ih =>
    obtain ⟨hb, hrest⟩ := List.nodup_cons.mp h
    rw [setEntry]
    split
    · next heq =>
      rw [List.filter_cons_of_neg (by simpa using heq)]
      refine List.Perm.of_eq (congrArg (a :: ·) (List.filter_eq_self.mpr fun c hc ↦ ?_).symm)
      have hne : key c ≠ key a := fun hca ↦
        hb (heq.trans hca.symm ▸ List.mem_map_of_mem hc)
      simpa using hne
    · next hne =>
      rw [List.filter_cons_of_pos (by simpa using hne)]
      exact ((ih hrest).cons b).trans (List.Perm.swap a b _)

theorem lookup_setEntry {V : Type w} [BEq K] [LawfulBEq K] (entry : K × V) (pairs : List (K × V))
    (k : K) :
    (setEntry Prod.fst entry pairs).lookup k =
      if k = entry.1 then some entry.2 else pairs.lookup k := by
  induction pairs with
  | nil =>
    rw [setEntry, List.lookup_cons]
    by_cases hk : k = entry.1
    · rw [if_pos hk, beq_iff_eq.mpr hk]
    · rw [if_neg hk, beq_eq_false_iff_ne.mpr hk]
  | cons pair rest ih =>
    rw [setEntry]
    split
    · next heq =>
      rw [List.lookup_cons, List.lookup_cons, heq]
      by_cases hk : k = entry.1
      · rw [if_pos hk, beq_iff_eq.mpr hk]
      · rw [if_neg hk, beq_eq_false_iff_ne.mpr hk]
    · next hne =>
      rw [List.lookup_cons, List.lookup_cons, ih]
      by_cases hk : k = pair.1
      · have hentry : ¬ k = entry.1 := fun heq ↦ hne (hk.symm.trans heq)
        rw [beq_iff_eq.mpr hk, if_neg hentry, if_neg hentry]
      · rw [beq_eq_false_iff_ne.mpr hk]

/-- A new key comes last; the others keep their order. -/
theorem keys_setEntry {V : Type w} (entry : K × V) (pairs : List (K × V)) :
    (setEntry Prod.fst entry pairs).map Prod.fst =
      if entry.1 ∈ pairs.map Prod.fst then pairs.map Prod.fst
      else pairs.map Prod.fst ++ [entry.1] := by
  induction pairs with
  | nil => rw [setEntry, List.map_nil, if_neg List.not_mem_nil]; rfl
  | cons pair rest ih =>
    rw [setEntry]
    split
    · next heq =>
      rw [List.map_cons, List.map_cons, heq, if_pos List.mem_cons_self]
    · next hne =>
      have hmem : entry.1 ∈ (pair :: rest).map Prod.fst ↔ entry.1 ∈ rest.map Prod.fst := by
        rw [List.map_cons, List.mem_cons]
        exact or_iff_right (Ne.symm hne)
      rw [List.map_cons, ih, List.map_cons]
      by_cases hentry : entry.1 ∈ rest.map Prod.fst
      · rw [if_pos hentry, if_pos (List.mem_cons_of_mem _ hentry)]
      · have hnew : entry.1 ∉ pair.1 :: rest.map Prod.fst := fun h ↦ hentry (hmem.mp h)
        rw [if_neg hentry, if_neg hnew, List.cons_append]

/-- The values of the dict are the last entries. -/
theorem dictValues_perm (l : List A) : (dictValues key l).Perm (lastBy key l) := by
  induction l using List.reverseRecOn with
  | nil => exact List.Perm.refl _
  | append_singleton l a ih =>
    have hnodup : ((dictValues key l).map key).Nodup :=
      (ih.map key).nodup_iff.mpr (nodup_lastBy l)
    have hstep : dictValues key (l ++ [a]) = setEntry key a (dictValues key l) := by
      rw [dictValues, List.foldl_append]
      rfl
    have hlast : lastBy key (l ++ [a]) = a :: (lastBy key l).filter (key · ≠ key a) := by
      rw [lastBy_append, lastBy, lastBy, List.map_singleton, dedupBy_cons_seen]
      rfl
    rw [hstep, hlast]
    exact (setEntry_perm a hnodup).trans ((ih.filter _).cons a)

end GithubAgent.Base
