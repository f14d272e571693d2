import Mathlib.Data.List.Forall2
import Mathlib.Data.Nat.Digits.Defs

/-!
# Format strings

Format strings as `str.format` and `string.Formatter` read them. A format string is scanned into
pieces of literal text and the replacement fields behind them; a field is rendered from its value,
an optional conversion and a format specification, which may have fields of its own. The formatting
of integers, the decimal digits and printable characters outside ASCII, and the attributes and items
of a value are those of a `Runtime`.
-/

namespace GithubAgent.Base.Format

/-! ### Scanning -/

/-- A replacement field: its name, its conversion and its format specification, as written. -/
structure Field where
  name : List Char
  conversion : Option Char
  spec : List Char
  deriving DecidableEq

/-- Literal text and the field behind it. -/
structure Piece where
  literal : List Char
  field : Option Field
  deriving DecidableEq

/-- Where the scan stands: in literal text, behind a brace, in the name of a field, in its
conversion, or in its specification at a depth of braces. -/
inductive Mode where
  | text (literal : List Char)
  | opened (literal : List Char)
  | closed (literal : List Char)
  | name (literal name : List Char) (bracket : Bool)
  | conversion (literal name : List Char)
  | converted (literal name : List Char) (c : Char)
  | spec (literal name : List Char) (conversion : Option Char) (spec : List Char) (depth : Nat)

/-- What a character does: it is read, it completes a piece, or the string is ill-formed. -/
inductive Step where
  | next (mode : Mode)
  | piece (p : Piece)
  | invalid

/-- A character of the name of a field. -/
def nameStep (literal name : List Char) (bracket : Bool) (c : Char) : Step :=
  if bracket then .next (.name literal (name ++ [c]) (c ≠ ']'))
  else if c = '\x7b' then .invalid
  else if c = '\x7d' then .piece ⟨literal, some ⟨name, none, []⟩⟩
  else if c = ':' then .next (.spec literal name none [] 1)
  else if c = '!' then .next (.conversion literal name)
  else .next (.name literal (name ++ [c]) (c = '['))

/-- One character of the scan. -/
def step : Mode → Char → Step
  | .text literal, c =>
    if c = '\x7b' then .next (.opened literal)
    else if c = '\x7d' then .next (.closed literal)
    else .next (.text (literal ++ [c]))
  | .opened literal, c =>
    if c = '\x7b' then .piece ⟨literal ++ [c], none⟩ else nameStep literal [] false c
  | .closed literal, c => if c = '\x7d' then .piece ⟨literal ++ [c], none⟩ else .invalid
  | .name literal name bracket, c => nameStep literal name bracket c
  | .conversion literal name, c => .next (.converted literal name c)
  | .converted literal name conversion, c =>
    if c = '\x7d' then .piece ⟨literal, some ⟨name, some conversion, []⟩⟩
    else if c = ':' then .next (.spec literal name (some conversion) [] 1)
    else .invalid
  | .spec literal name conversion spec depth, c =>
    if c = '\x7b' then .next (.spec literal name conversion (spec ++ [c]) (depth + 1))
    else if c ≠ '\x7d' then .next (.spec literal name conversion (spec ++ [c]) depth)
    else if depth = 1 then .piece ⟨literal, some ⟨name, conversion, spec⟩⟩
    else .next (.spec literal name conversion (spec ++ [c]) (depth - 1))

/-- The pieces up to the end, or up to where the string is found to be ill-formed, and whether it
is well-formed. -/
def scan : Mode → List Char → List Piece × Bool
  | .text [], [] => ([], true)
  | .text literal, [] => ([⟨literal, none⟩], true)
  | _, [] => ([], false)
  | mode, c :: rest =>
    match step mode c with
    | .next mode => scan mode rest
    | .piece p => (p :: (scan (.text []) rest).1, (scan (.text []) rest).2)
    | .invalid => ([], false)

/-- `string.Formatter().parse`. -/
def parse (text : List Char) : List Piece × Bool := scan (.text []) text

example : parse "#\x7bn!s:>4\x7d of \x7b\x7bx\x7d\x7d".toList =
    ([⟨['#'], some ⟨['n'], some 's', ['>', '4']⟩⟩, ⟨[' ', 'o', 'f', ' ', '\x7b'], none⟩,
      ⟨['x', '\x7d'], none⟩], true) := by decide

/-! ### Values -/

/-- A string, an integer, or another object by its `str` and its `repr`. -/
inductive Value where
  | str (s : List Char)
  | int (n : Int)
  | object (text shown : List Char)

/-- The exceptions of formatting. -/
inductive FormatError where
  | valueError
  | keyError
  | indexError
  | attributeError
  | typeError
  deriving DecidableEq

/-- What formatting takes from the interpreter: the printable characters and the decimal digits
outside ASCII, integers under a format specification, and what a path of attributes and items leads
to. -/
structure Runtime where
  isPrintable : Char → Bool
  decimal : Char → Option Nat
  formatInt : Int → List Char → Except FormatError (List Char)
  getPath : Value → List Char → Except FormatError Value

/-- The value of a decimal digit. -/
def Runtime.digit (rt : Runtime) (c : Char) : Option Nat :=
  if c.isDigit then some (c.toNat - '0'.toNat) else if c.toNat < 0x80 then none else rt.decimal c

/-- `str`. -/
def Value.text : Value → List Char
  | .str s => s
  | .int n => (toString n).toList
  | .object text _ => text

/-- A number in hexadecimal, with leading zeros. -/
def hex : Nat → Nat → List Char
  | 0, _ => []
  | width + 1, n => hex width (n / 16) ++ [Nat.digitChar (n % 16)]

/-- The escape of a character by its code. -/
def escapeCode (c : Char) : List Char :=
  if c.toNat ≤ 0xff then '\\' :: 'x' :: hex 2 c.toNat
  else if c.toNat ≤ 0xffff then '\\' :: 'u' :: hex 4 c.toNat
  else '\\' :: 'U' :: hex 8 c.toNat

/-- The quotes around a string: double ones if it has single ones only. -/
def quote (s : List Char) : Char := if '\'' ∈ s ∧ '"' ∉ s then '"' else '\''

section Runtime

variable (rt : Runtime)

/-- A character between the quotes. -/
def quoted (q c : Char) : List Char :=
  if c = q ∨ c = '\\' then ['\\', c]
  else if c = '\t' then ['\\', 't']
  else if c = '\n' then ['\\', 'n']
  else if c = '\r' then ['\\', 'r']
  else if c.toNat < 0x20 ∨ c.toNat = 0x7f then escapeCode c
  else if c.toNat < 0x7f ∨ rt.isPrintable c then [c]
  else escapeCode c

/-- `repr` of a string. -/
def repr (s : List Char) : List Char := quote s :: s.flatMap (quoted rt (quote s)) ++ [quote s]

/-- A character of `ascii`. -/
def asciiChar (c : Char) : List Char := if c.toNat < 0x80 then [c] else escapeCode c

/-- `repr` of a value. -/
def Value.repr : Value → List Char
  | .str s => Format.repr rt s
  | .int n => (toString n).toList
  | .object _ shown => shown

/-- The conversion of a field, before it is formatted. -/
def convert : Option Char → Value → Except FormatError Value
  | none, v => .ok v
  | some 's', v => .ok (.str v.text)
  | some 'r', v => .ok (.str (v.repr rt))
  | some 'a', v => .ok (.str ((v.repr rt).flatMap asciiChar))
  | _, _ => .error .valueError

/-! ### Format specifications -/

/-- A specification for strings. -/
structure StrSpec where
  fill : Char := ' '
  align : Char := '<'
  width : Nat := 0
  precision : Option Nat := none

/-- The alignments. -/
def isAlign (c : Char) : Bool := c ∈ ['<', '>', '=', '^']

/-- A decimal number, which must fit a machine word. -/
def readNat (digits : List Char) : Option Nat :=
  let n := digits.foldl (fun n c ↦ 10 * n + (rt.digit c).getD 0) 0
  if n < 2 ^ 63 then some n else none

/-- The fill and the alignment, and whether a fill is given. -/
def readAlign : List Char → StrSpec × Bool × List Char
  | c :: d :: rest =>
    if isAlign d then ({ fill := c, align := d }, true, rest)
    else if isAlign c then ({ align := c }, false, d :: rest) else ({}, false, c :: d :: rest)
  | [c] => if isAlign c then ({ align := c }, false, []) else ({}, false, [c])
  | [] => ({}, false, [])

/-- The precision of a specification, and what follows it. -/
def readPrecision : List Char → Option (Option Nat × List Char)
  | '.' :: rest =>
    let digits := rest.takeWhile fun c ↦ (rt.digit c).isSome
    if digits = [] then none
    else (readNat rt digits).map fun n ↦
      (some n, rest.dropWhile fun c ↦ (rt.digit c).isSome)
  | rest => some (none, rest)

/-- The specification of a string; signs, the alternate form, separators, the alignment `=` and
other types than `s` are not for strings. -/
def readSpec (spec : List Char) : Option StrSpec := do
  let (aligned, filled, rest) := readAlign spec
  let aligned := if !filled ∧ rest.head? = some '0' then { aligned with fill := '0' } else aligned
  let width ← readNat rt (rest.takeWhile fun c ↦ (rt.digit c).isSome)
  let (precision, rest) ← readPrecision rt (rest.dropWhile fun c ↦ (rt.digit c).isSome)
  if aligned.align ≠ '=' ∧ (rest = [] ∨ rest = ['s']) then
    some { aligned with width, precision }
  else none

/-! ### Rendering -/

/-- A formatted value between its padding. -/
structure Rendered where
  left : List Char := []
  body : List Char
  right : List Char := []

/-- The text of a formatted value. -/
def Rendered.text (r : Rendered) : List Char := r.left ++ r.body ++ r.right

/-- The string under a precision. -/
def cut (precision : Option Nat) (s : List Char) : List Char :=
  match precision with
  | none => s
  | some n => s.take n

/-- The string in its width. -/
def pad (spec : StrSpec) (s : List Char) : Rendered :=
  let room := spec.width - s.length
  let left := if spec.align = '>' then room else if spec.align = '^' then room / 2 else 0
  ⟨List.replicate left spec.fill, s, List.replicate (room - left) spec.fill⟩

/-- `str.__format__`. -/
def formatStr (s spec : List Char) : Except FormatError Rendered :=
  if spec = [] then .ok { body := s }
  else
    match readSpec rt spec with
    | none => .error .valueError
    | some spec => .ok (pad spec (cut spec.precision s))

/-- A converted value under a specification. -/
def formatValue : Value → List Char → Except FormatError Rendered
  | .str s, spec => formatStr rt s spec
  | .int n, spec =>
    if spec = [] then .ok { body := (toString n).toList }
    else (rt.formatInt n spec).map fun s ↦ { body := s }
  | .object text _, spec => if spec = [] then .ok { body := text } else .error .typeError

/-- The value of a field; there are no positional arguments. -/
def lookupField (vars : List Char → Option Value) (name : List Char) : Except FormatError Value :=
  let isPath (c : Char) : Bool := c = '.' ∨ c = '['
  let first := name.takeWhile (!isPath ·)
  if first.all fun c ↦ (rt.digit c).isSome then
    .error (if (readNat rt first).isSome then .indexError else .valueError)
  else
    match vars first with
    | none => .error .keyError
    | some value =>
      if first = name then .ok value else rt.getPath value (name.dropWhile (!isPath ·))

/-- Literal text and the rendered field behind it. -/
structure Part where
  literal : List Char
  use : Option (Field × Rendered)

/-- The piece of the format string that the part comes from. -/
def Part.piece (p : Part) : Piece := ⟨p.literal, p.use.map Prod.fst⟩

/-- The text of the part. -/
def Part.text (p : Part) : List Char := p.literal ++ (p.use.elim [] fun use ↦ use.2.text)

/-- The text of the parts. -/
def textOf (parts : List Part) : List Char := parts.flatMap Part.text

/-- Every field of the pieces is used by a part that comes from its piece. -/
theorem exists_use {parts : List Part} {piece : Piece} {f : Field}
    (hpiece : piece ∈ parts.map Part.piece) (hf : f ∈ piece.field) :
    ∃ part ∈ parts, ∃ r, (f, r) ∈ part.use := by
  obtain ⟨part, hpart, rfl⟩ := List.mem_map.mp hpiece
  obtain ⟨⟨g, r⟩, huse, rfl⟩ := Option.map_eq_some_iff.mp hf
  exact ⟨part, hpart, r, huse⟩

section Build

variable (vars : List Char → Option Value)
  (expand : List Char → Except FormatError (List Char))

/-- A value as a field asks for it: it is converted, and the specification expanded. -/
def formatField (f : Field) (value : Value) : Except FormatError Rendered := do
  let converted ← convert rt f.conversion value
  let spec ← expand f.spec
  formatValue rt converted spec

/-- A field with its value. -/
def renderField (f : Field) : Except FormatError Rendered := do
  let value ← lookupField rt vars f.name
  formatField rt expand f value

/-- A piece with its field. -/
def renderPiece (p : Piece) : Except FormatError Part :=
  match p.field with
  | none => .ok ⟨p.literal, none⟩
  | some f => (renderField rt vars expand f).map fun r ↦ ⟨p.literal, some (f, r)⟩

/-- The pieces in their order. -/
def renderPieces : List Piece → Except FormatError (List Part)
  | [] => .ok []
  | p :: rest => do
    let part ← renderPiece rt vars expand p
    let parts ← renderPieces rest
    return part :: parts

/-- A format string with its fields filled in; an ill-formed one fails where the scan does. -/
def build (text : List Char) : Except FormatError (List Part) := do
  let parts ← renderPieces rt vars expand (parse text).1
  if (parse text).2 then return parts else throw .valueError

end Build

/-- The specification of a field of a specification has no fields. -/
def expandInner (spec : List Char) : Except FormatError (List Char) :=
  if '\x7b' ∈ spec then .error .valueError else .ok spec

/-- The specification of a field. -/
def expandSpec (vars : List Char → Option Value) (spec : List Char) :
    Except FormatError (List Char) :=
  if '\x7b' ∈ spec then (build rt vars expandInner spec).map textOf else .ok spec

/-- `text.format(**vars)`. -/
def format (vars : List Char → Option Value) (text : List Char) : Except FormatError (List Part) :=
  build rt vars (expandSpec rt vars) text

end Runtime

/-! ### Rendered fields -/

section Fields

variable {rt : Runtime} {vars : List Char → Option Value}
  {expand : List Char → Except FormatError (List Char)}

variable (rt) in
/-- The specification that is read; an empty one asks for nothing. -/
def specOf (spec : List Char) : Option StrSpec := if spec = [] then some {} else readSpec rt spec

variable (rt expand) in
/-- The precision that a field asks for. -/
def Field.precision (f : Field) : Option Nat :=
  (expand f.spec).toOption.bind fun spec ↦ (specOf rt spec).bind StrSpec.precision

/-- Only the specification decides whether a string can be formatted. -/
theorem formatStr_eq_ok {s spec : List Char} {r : Rendered} :
    formatStr rt s spec = .ok r ↔
      ∃ asked, specOf rt spec = some asked ∧ r = pad asked (cut asked.precision s) := by
  unfold formatStr specOf
  split
  · simp only [Except.ok.injEq, Option.some.injEq, exists_eq_left']
    constructor
    · intro h
      rw [← h]
      simp [pad, cut]
    · intro h
      rw [h]
      simp [pad, cut]
  · split
    · next hnone => simp [hnone]
    · next asked hsome =>
      simp only [hsome, Except.ok.injEq, Option.some.injEq, exists_eq_left']
      exact eq_comm

/-- The part that a piece becomes. -/
theorem renderPiece_eq_ok {p : Piece} {part : Part} :
    renderPiece rt vars expand p = .ok part ↔
      part.piece = p ∧ ∀ use ∈ part.use, renderField rt vars expand use.1 = .ok use.2 := by
  obtain ⟨literal, field⟩ := p
  obtain ⟨literal', use⟩ := part
  cases field with
  | none =>
    cases use with
    | none => simp [renderPiece, Part.piece, eq_comm]
    | some use => simp [renderPiece, Part.piece]
  | some f =>
    show (renderField rt vars expand f).map _ = _ ↔ _
    cases hrender : renderField rt vars expand f with
    | error e =>
      simp only [Except.map, reduceCtorEq, false_iff, Part.piece, Piece.mk.injEq]
      rintro ⟨⟨-, huse⟩, hall⟩
      obtain ⟨⟨g, r⟩, rfl, rfl⟩ := Option.map_eq_some_iff.mp huse
      rw [hall _ rfl] at hrender
      cases hrender
    | ok r =>
      simp only [Except.map, Except.ok.injEq, Part.piece, Piece.mk.injEq, Part.mk.injEq]
      constructor
      · rintro ⟨rfl, rfl⟩
        exact ⟨⟨rfl, rfl⟩, fun _ h ↦ Option.some.inj h ▸ hrender⟩
      · rintro ⟨⟨rfl, huse⟩, hall⟩
        obtain ⟨⟨g, r'⟩, rfl, rfl⟩ := Option.map_eq_some_iff.mp huse
        refine ⟨rfl, ?_⟩
        rw [Except.ok.inj (hrender.symm.trans (hall _ rfl))]

/-- The parts that the pieces become. -/
theorem renderPieces_eq_ok {pieces : List Piece} : ∀ {parts : List Part},
    renderPieces rt vars expand pieces = .ok parts ↔ parts.map Part.piece = pieces ∧
      ∀ part ∈ parts, ∀ use ∈ part.use, renderField rt vars expand use.1 = .ok use.2 := by
  induction pieces with
  | nil =>
    intro parts
    cases parts with
    | nil => simp [renderPieces]
    | cons part parts => simp [renderPieces]
  | cons p pieces ih =>
    intro parts
    have hcons : renderPieces rt vars expand (p :: pieces) = .ok parts ↔
        ∃ part rest, renderPiece rt vars expand p = .ok part ∧
          renderPieces rt vars expand pieces = .ok rest ∧ parts = part :: rest := by
      rw [renderPieces]
      cases renderPiece rt vars expand p with
      | error e => simp [bind, Except.bind]
      | ok part =>
        cases renderPieces rt vars expand pieces with
        | error e => simp [bind, Except.bind]
        | ok rest => simp [bind, Except.bind, pure, Except.pure, eq_comm]
    rw [hcons]
    constructor
    · rintro ⟨part, rest, hpart, hrest, rfl⟩
      obtain ⟨rfl, huse⟩ := renderPiece_eq_ok.mp hpart
      obtain ⟨rfl, huses⟩ := ih.mp hrest
      exact ⟨rfl, List.forall_mem_cons.mpr ⟨huse, huses⟩⟩
    · rintro ⟨hmap, huses⟩
      cases parts with
      | nil => cases hmap
      | cons part rest =>
        obtain ⟨hpart, hrest⟩ := List.cons.inj hmap
        obtain ⟨huse, huses⟩ := List.forall_mem_cons.mp huses
        exact ⟨part, rest, renderPiece_eq_ok.mpr ⟨hpart, huse⟩, ih.mpr ⟨hrest, huses⟩, rfl⟩

/-- The parts of a format string are its pieces with every field rendered. -/
theorem build_eq_ok {text : List Char} {parts : List Part} :
    build rt vars expand text = .ok parts ↔
      (parse text).2 = true ∧ parts.map Part.piece = (parse text).1 ∧
        ∀ part ∈ parts, ∀ use ∈ part.use, renderField rt vars expand use.1 = .ok use.2 := by
  rw [← renderPieces_eq_ok]
  unfold build
  cases renderPieces rt vars expand (parse text).1 with
  | error e => simp [bind, Except.bind]
  | ok found =>
    cases (parse text).2 with
    | true => simp [bind, Except.bind, pure, Except.pure]
    | false => simp [bind, Except.bind, throw, throwThe, MonadExceptOf.throw]

/-- If every field can be rendered then so can the pieces. -/
theorem exists_parts {pieces : List Piece}
    (h : ∀ p ∈ pieces, ∀ f ∈ p.field, ∃ r, renderField rt vars expand f = .ok r) :
    ∃ parts : List Part, parts.map Part.piece = pieces ∧
      ∀ part ∈ parts, ∀ use ∈ part.use, renderField rt vars expand use.1 = .ok use.2 := by
  induction pieces with
  | nil => exact ⟨[], rfl, nofun⟩
  | cons p pieces ih =>
    obtain ⟨hp, hrest⟩ := List.forall_mem_cons.mp h
    obtain ⟨parts, rfl, huses⟩ := ih hrest
    obtain ⟨literal, field⟩ := p
    cases field with
    | none => exact ⟨⟨literal, none⟩ :: parts, rfl, List.forall_mem_cons.mpr ⟨nofun, huses⟩⟩
    | some f =>
      obtain ⟨r, hr⟩ := hp f rfl
      refine ⟨⟨literal, some (f, r)⟩ :: parts, rfl, List.forall_mem_cons.mpr ⟨?_, huses⟩⟩
      exact fun _ huse ↦ Option.some.inj huse ▸ hr

end Fields

end GithubAgent.Base.Format
