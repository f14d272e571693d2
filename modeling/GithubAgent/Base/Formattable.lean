import GithubAgent.Base.Format

/-!
# Format strings that can be filled in

A format string is filled in without an exception exactly when it is well formed and each of its
fields leads to a value that accepts the field's conversion and specification.
-/

namespace GithubAgent.Base.Format

section Fits

variable (rt : Runtime)

/-- The value accepts the specification. -/
def SpecFits : Value → List Char → Prop
  | .str _, spec => (specOf rt spec).isSome
  | .int n, spec => spec = [] ∨ ∃ s, rt.formatInt n spec = .ok s
  | .object _ _, spec => spec = []

/-- The value accepts the conversion of the field and then the specification, which expands; a
converted value is a string. -/
def ValueFits (expand : List Char → Except FormatError (List Char)) (f : Field) (v : Value) :
    Prop :=
  ∃ spec, expand f.spec = .ok spec ∧
    match f.conversion with
    | none => SpecFits rt v spec
    | some c => c ∈ ['s', 'r', 'a'] ∧ (specOf rt spec).isSome

/-- The text is well formed, and each of its fields has a value that it fits. -/
def TextFits (vars : List Char → Option Value)
    (expand : List Char → Except FormatError (List Char)) (text : List Char) : Prop :=
  (parse text).2 = true ∧ ∀ piece ∈ (parse text).1, ∀ f ∈ piece.field,
    ∃ v, lookupField rt vars f.name = .ok v ∧ ValueFits rt expand f v

end Fits

variable {rt : Runtime} {vars : List Char → Option Value}
  {expand : List Char → Except FormatError (List Char)}

theorem formatValue_isOk_iff (v : Value) (spec : List Char) :
    (∃ r, formatValue rt v spec = .ok r) ↔ SpecFits rt v spec := by
  cases v with
  | str s =>
    show (∃ r, formatStr rt s spec = .ok r) ↔ _
    constructor
    · rintro ⟨r, hr⟩
      obtain ⟨asked, hasked, _⟩ := formatStr_eq_ok.mp hr
      exact Option.isSome_iff_exists.mpr ⟨asked, hasked⟩
    · intro h
      obtain ⟨asked, hasked⟩ := Option.isSome_iff_exists.mp h
      exact ⟨_, formatStr_eq_ok.mpr ⟨asked, hasked, rfl⟩⟩
  | int n =>
    by_cases hspec : spec = []
    · exact iff_of_true ⟨_, if_pos hspec⟩ (.inl hspec)
    · show (∃ r, (if spec = [] then _ else _) = _) ↔ (spec = [] ∨ _)
      rw [if_neg hspec]
      cases rt.formatInt n spec with
      | error e => simp [hspec, Except.map]
      | ok s => simp [hspec, Except.map]
  | object text shown =>
    by_cases hspec : spec = []
    · exact iff_of_true ⟨_, if_pos hspec⟩ hspec
    · show (∃ r, (if spec = [] then _ else _) = _) ↔ spec = []
      rw [if_neg hspec]
      simp [hspec]

/-- A conversion makes a string of any value. -/
theorem convert_some_eq_ok {c : Char} {v v' : Value} :
    convert rt (some c) v = .ok v' → c ∈ ['s', 'r', 'a'] ∧ ∃ s, v' = .str s := by
  intro h
  unfold convert at h
  split at h
  · next hnone => cases hnone
  · next hc => cases hc; cases h; exact ⟨by simp, _, rfl⟩
  · next hc => cases hc; cases h; exact ⟨by simp, _, rfl⟩
  · next hc => cases hc; cases h; exact ⟨by simp, _, rfl⟩
  · cases h

theorem exists_convert {c : Char} (h : c ∈ ['s', 'r', 'a']) (v : Value) :
    ∃ s, convert rt (some c) v = .ok (.str s) := by
  simp only [List.mem_cons, List.not_mem_nil, or_false] at h
  obtain rfl | rfl | rfl := h
  · exact ⟨_, rfl⟩
  · exact ⟨_, rfl⟩
  · exact ⟨_, rfl⟩

theorem formatField_isOk_iff (f : Field) (v : Value) :
    (∃ r, formatField rt expand f v = .ok r) ↔ ValueFits rt expand f v := by
  have hparts : (∃ r, formatField rt expand f v = .ok r) ↔ ∃ v' spec,
      convert rt f.conversion v = .ok v' ∧ expand f.spec = .ok spec ∧ SpecFits rt v' spec := by
    unfold formatField
    cases convert rt f.conversion v with
    | error e => simp [bind, Except.bind]
    | ok v' =>
      cases expand f.spec with
      | error e => simp [bind, Except.bind]
      | ok spec => simpa [bind, Except.bind] using formatValue_isOk_iff v' spec
  rw [hparts]
  unfold ValueFits
  cases f.conversion with
  | none =>
    constructor
    · rintro ⟨v', spec, hconvert, hspec, hfits⟩
      cases hconvert
      exact ⟨spec, hspec, hfits⟩
    · rintro ⟨spec, hspec, hfits⟩
      exact ⟨v, spec, rfl, hspec, hfits⟩
  | some c =>
    constructor
    · rintro ⟨v', spec, hconvert, hspec, hfits⟩
      obtain ⟨hc, s, rfl⟩ := convert_some_eq_ok hconvert
      exact ⟨spec, hspec, hc, hfits⟩
    · rintro ⟨spec, hspec, hc, hfits⟩
      obtain ⟨s, hs⟩ := exists_convert hc v
      exact ⟨.str s, spec, hs, hspec, hfits⟩

theorem renderField_isOk_iff (f : Field) : (∃ r, renderField rt vars expand f = .ok r) ↔
    ∃ v, lookupField rt vars f.name = .ok v ∧ ValueFits rt expand f v := by
  unfold renderField
  cases lookupField rt vars f.name with
  | error e => simp [bind, Except.bind]
  | ok v =>
    simp only [bind, Except.bind, Except.ok.injEq, exists_eq_left']
    exact formatField_isOk_iff f v

/-- A format string can be filled in exactly when it fits. -/
theorem build_isOk_iff (text : List Char) :
    (∃ parts, build rt vars expand text = .ok parts) ↔ TextFits rt vars expand text := by
  constructor
  · rintro ⟨parts, hparts⟩
    obtain ⟨hparse, hshape, hrender⟩ := build_eq_ok.mp hparts
    refine ⟨hparse, fun piece hpiece f hf ↦ ?_⟩
    obtain ⟨part, hpart, r, huse⟩ := exists_use (hshape ▸ hpiece) hf
    exact (renderField_isOk_iff f).mp ⟨r, hrender part hpart (f, r) huse⟩
  · rintro ⟨hparse, hfields⟩
    obtain ⟨parts, hshape, hrender⟩ := exists_parts fun piece hpiece f hf ↦
      (renderField_isOk_iff f).mpr (hfields piece hpiece f hf)
    exact ⟨parts, build_eq_ok.mpr ⟨hparse, hshape, hrender⟩⟩

end GithubAgent.Base.Format
