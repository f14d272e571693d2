import Mathlib.Data.List.Forall2

/-!
# The search for a word

A regular expression `\bword\b` on one line: the word as it is, or up to a relation between
characters such as that of their case, between two boundaries of words. The second half is about
a loop that collects results up to a limit.
-/

namespace GithubAgent.Base

section Words

variable {α : Type} (same : α → α → Bool) (word : α → Bool)

/-- `\b`: a character of a word is on one side, and not on the other. -/
def isBoundary (before behind : Option α) : Bool := before.any word != behind.any word

/-- The text begins with the characters of the word. -/
def beginsWith : List α → List α → Bool
  | [], _ => true
  | _ :: _, [] => false
  | c :: w, d :: text => same c d && beginsWith w text

/-- The word stands at the beginning of the text, between two boundaries, behind the given
character. -/
def matchesAt (w : List α) (before : Option α) (text : List α) : Bool :=
  isBoundary word before text.head? && beginsWith same w text &&
    isBoundary word ((text.take w.length).getLast?.or before) (text.drop w.length).head?

/-- `re.search`: the text of the first occurrence. -/
def searchWord (w : List α) : (before : Option α) → List α → Option (List α)
  | before, [] => if matchesAt same word w before [] then some [] else none
  | before, c :: rest =>
    if matchesAt same word w before (c :: rest) then some ((c :: rest).take w.length)
    else searchWord w (some c) rest

/-- The word occurs in the text, behind the given character. -/
def OccursBehind (w : List α) (first : Option α) (text : List α) : Prop :=
  ∃ before found behind, text = before ++ (found ++ behind) ∧
    List.Forall₂ (fun c d ↦ same c d = true) w found ∧
    isBoundary word (before.getLast?.or first) (found ++ behind).head? = true ∧
    isBoundary word ((before ++ found).getLast?.or first) behind.head? = true

/-- The word occurs in the text, between two boundaries. -/
def Occurs (w text : List α) : Prop := OccursBehind same word w none text

variable {same word}

theorem beginsWith_iff {w text : List α} :
    beginsWith same w text = true ↔
      List.Forall₂ (fun c d ↦ same c d = true) w (text.take w.length) := by
  induction w generalizing text with
  | nil => simp [beginsWith]
  | cons c w ih =>
    cases text with
    | nil => simp [beginsWith]
    | cons d text => simp [beginsWith, ih]

theorem matchesAt_iff {w text : List α} {first : Option α} :
    matchesAt same word w first text = true ↔
      ∃ found behind, text = found ++ behind ∧
        List.Forall₂ (fun c d ↦ same c d = true) w found ∧
        isBoundary word first (found ++ behind).head? = true ∧
        isBoundary word (found.getLast?.or first) behind.head? = true := by
  simp only [matchesAt, Bool.and_eq_true, beginsWith_iff]
  constructor
  · rintro ⟨⟨hstart, hfound⟩, hend⟩
    refine ⟨text.take w.length, text.drop w.length, (List.take_append_drop _ _).symm, hfound, ?_,
      hend⟩
    rwa [List.take_append_drop]
  · rintro ⟨found, behind, rfl, hfound, hstart, hend⟩
    have hlength : w.length = found.length := hfound.length_eq
    rw [hlength, List.take_left, List.drop_left]
    exact ⟨⟨hstart, hfound⟩, hend⟩

theorem occursBehind_of_matchesAt {w text : List α} {first : Option α}
    (h : matchesAt same word w first text = true) : OccursBehind same word w first text := by
  obtain ⟨found, behind, htext, hfound, hstart, hend⟩ := matchesAt_iff.mp h
  exact ⟨[], found, behind, htext, hfound, hstart, hend⟩

/-- The word occurs at the beginning of a text, or behind its first character. -/
theorem occursBehind_cons_iff {w rest : List α} {first : Option α} {c : α} :
    OccursBehind same word w first (c :: rest) ↔
      matchesAt same word w first (c :: rest) = true ∨ OccursBehind same word w (some c) rest := by
  have hlast (before : List α) :
      (c :: before).getLast?.or first = before.getLast?.or (some c) := by
    rw [List.getLast?_cons]
    cases before.getLast? <;> rfl
  constructor
  · rintro ⟨before, found, behind, htext, hfound, hstart, hend⟩
    cases before with
    | nil => exact .inl (matchesAt_iff.mpr ⟨found, behind, htext, hfound, hstart, hend⟩)
    | cons d before =>
      obtain ⟨rfl, hrest⟩ := List.cons.inj htext
      rw [hlast] at hstart
      rw [List.cons_append, hlast] at hend
      exact .inr ⟨before, found, behind, hrest, hfound, hstart, hend⟩
  · rintro (hmatch | ⟨before, found, behind, hrest, hfound, hstart, hend⟩)
    · exact occursBehind_of_matchesAt hmatch
    · refine ⟨c :: before, found, behind, congrArg (c :: ·) hrest, hfound, ?_, ?_⟩
      · rwa [hlast]
      · rwa [List.cons_append, hlast]

/-- The word occurs in the empty text only at its beginning. -/
theorem occursBehind_nil_iff {w : List α} {first : Option α} :
    OccursBehind same word w first [] ↔ matchesAt same word w first [] = true := by
  refine ⟨?_, occursBehind_of_matchesAt⟩
  rintro ⟨before, found, behind, htext, hfound, hstart, hend⟩
  obtain ⟨rfl, hrest⟩ := List.append_eq_nil_iff.mp htext.symm
  exact matchesAt_iff.mpr ⟨found, behind, hrest.symm, hfound, hstart, hend⟩

/-- The search finds a word exactly when it occurs. -/
theorem searchWord_isSome_iff {w text : List α} {first : Option α} :
    (searchWord same word w first text).isSome = true ↔ OccursBehind same word w first text := by
  induction text generalizing first with
  | nil =>
    rw [searchWord, occursBehind_nil_iff]
    split
    · next h => exact iff_of_true rfl h
    · next h => exact iff_of_false Bool.false_ne_true h
  | cons c rest ih =>
    rw [searchWord, occursBehind_cons_iff]
    split
    · next h => exact iff_of_true rfl (.inl h)
    · next h => rw [ih, or_iff_right h]

/-- A word that occurs as it is occurs up to a wider relation. -/
theorem Occurs.mono {same' : α → α → Bool} (h : ∀ c d, same c d = true → same' c d = true)
    {w text : List α} (hoccurs : Occurs same word w text) : Occurs same' word w text := by
  obtain ⟨before, found, behind, htext, hfound, hstart, hend⟩ := hoccurs
  exact ⟨before, found, behind, htext, hfound.imp h, hstart, hend⟩

/-- Nothing occurs in the empty text, which has no boundary. -/
theorem Occurs.ne_nil {w text : List α} (h : Occurs same word w text) : text ≠ [] := by
  rintro rfl
  obtain ⟨before, found, behind, htext, -, hstart, -⟩ := h
  obtain ⟨rfl, hrest⟩ := List.append_eq_nil_iff.mp htext.symm
  rw [hrest] at hstart
  exact Bool.false_ne_true hstart

end Words

section Collect

variable {A B : Type}

/-- A loop that appends results, and stops when there are as many as the limit. -/
def collect (limit : Nat) (f : A → Option B) (results : List B) : List A → List B
  | [] => results
  | a :: rest =>
    if limit ≤ results.length then results
    else collect limit f (results ++ (f a).toList) rest

/-- Such a loop yields the first results. -/
theorem collect_eq {limit : Nat} {f : A → Option B} (l : List A) : ∀ {results : List B},
    results.length ≤ limit → collect limit f results l = (results ++ l.filterMap f).take limit := by
  induction l with
  | nil =>
    intro results h
    rw [List.filterMap_nil, List.append_nil, List.take_of_length_le h, collect]
  | cons a rest ih =>
    intro results h
    rw [collect]
    split
    · next hfull =>
      have heq : limit = results.length := Nat.le_antisymm hfull h
      rw [heq, List.take_left]
    · next hroom =>
      rw [ih, List.append_assoc, List.filterMap_cons]
      · cases f a <;> rfl
      · cases f a with
        | none => simpa using h
        | some b =>
          rw [Option.toList_some, List.length_append, List.length_singleton]
          exact Nat.lt_of_not_le hroom

/-- Such a loop whose step can fail. -/
def collectOrFail {E : Type} (limit : Nat) (f : A → Except E (Option B)) (results : List B) :
    List A → Except E (List B)
  | [] => .ok results
  | a :: rest =>
    if limit ≤ results.length then .ok results
    else
      match f a with
      | .error e => .error e
      | .ok found => collectOrFail limit f (results ++ found.toList) rest

/-- Where no step fails, it is the loop without failures. -/
theorem collectOrFail_eq_ok {E : Type} {limit : Nat} {f : A → Except E (Option B)}
    {g : A → Option B} {l : List A} (h : ∀ a ∈ l, f a = .ok (g a)) {results : List B} :
    collectOrFail limit f results l = .ok (collect limit g results l) := by
  induction l generalizing results with
  | nil => rfl
  | cons a rest ih =>
    rw [collectOrFail, collect, h a List.mem_cons_self]
    split
    · rfl
    · exact ih fun b hb ↦ h b (List.mem_cons_of_mem a hb)

/-- Where a step fails that the limit does not keep from running, the loop fails. -/
theorem collectOrFail_eq_error {E : Type} {limit : Nat} {f : A → Except E (Option B)} {l : List A}
    {a : A} (ha : a ∈ l) {e : E} (hfail : f a = .error e) {results : List B}
    (hlimit : results.length + l.length < limit) :
    ∃ e', collectOrFail limit f results l = .error e' := by
  induction l generalizing results with
  | nil => cases ha
  | cons b rest ih =>
    rw [List.length_cons] at hlimit
    rw [collectOrFail, if_neg (by omega)]
    cases hb : f b with
    | error e' => exact ⟨e', rfl⟩
    | ok found =>
      have hrest : a ∈ rest := by
        refine (List.mem_cons.mp ha).resolve_left fun heq ↦ ?_
        rw [← heq, hfail] at hb
        cases hb
      have hfound : found.toList.length ≤ 1 := by cases found <;> simp
      refine ih hrest ?_
      rw [List.length_append]
      omega

/-- Cutting a list at a limit does not change what is before the limit when more is appended. -/
theorem take_take_append (limit : Nat) (l m : List A) :
    (l.take limit ++ m).take limit = (l ++ m).take limit := by
  rw [List.take_append, List.take_append, List.take_take, Nat.min_self, List.length_take]
  congr 2
  omega

end Collect

end GithubAgent.Base
