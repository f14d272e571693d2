import GithubAgent.Base.Json
import Mathlib.Data.List.Basic

/-!
# The text of a JSON value

`json.dumps` with its default arguments: one line of printable ASCII characters. How a float is
written is given.
-/

namespace GithubAgent.Base.Json

/-- `' ' <= c <= '~'`. -/
def isPrintable (c : Char) : Bool := 32 ≤ c.toNat && c.toNat ≤ 126

/-- `float.__repr__`, with the names of the values that are not finite. -/
structure FloatText where
  text : Rat → List Char
  printable : ∀ q, ∀ c ∈ text q, isPrintable c = true

/-- The digits of `\x7b:x\x7d`. -/
def hexDigits : List Char :=
  ['0', '1', '2', '3', '4', '5', '6', '7', '8', '9', 'a', 'b', 'c', 'd', 'e', 'f']

/-- `\u` with four hexadecimal digits. -/
def unicodeEscape (n : Nat) : List Char :=
  '\\' :: 'u' ::
    [n / 4096 % 16, n / 256 % 16, n / 16 % 16, n % 16].map fun d ↦ hexDigits.getD d '0'

/-- A character in a string, as ASCII. One above `\uffff` becomes a surrogate pair. -/
def escapeChar (c : Char) : List Char :=
  if c = '"' then ['\\', '"']
  else if c = '\\' then ['\\', '\\']
  else if c = '\n' then ['\\', 'n']
  else if c = '\r' then ['\\', 'r']
  else if c = '\t' then ['\\', 't']
  else if c.toNat = 12 then ['\\', 'f']
  else if c.toNat = 8 then ['\\', 'b']
  else if isPrintable c then [c]
  else if c.toNat < 65536 then unicodeEscape c.toNat
  else
    unicodeEscape (55296 + (c.toNat - 65536) / 1024) ++
      unicodeEscape (56320 + (c.toNat - 65536) % 1024)

/-- The characters between the quotes. -/
def escape (text : List Char) : List Char := text.flatMap escapeChar

/-- A string with its quotes. -/
def quote (s : String) : List Char := '"' :: escape s.toList ++ ['"']

/-- `int.__repr__`. -/
def intText : Int → List Char
  | .ofNat n => Nat.toDigits 10 n
  | .negSucc n => '-' :: Nat.toDigits 10 (n + 1)

section Dumps

variable (f : FloatText)

mutual

/-- `json.dumps(v)`. -/
def dumps : Json → List Char
  | .null => ['n', 'u', 'l', 'l']
  | .bool true => ['t', 'r', 'u', 'e']
  | .bool false => ['f', 'a', 'l', 's', 'e']
  | .int n => intText n
  | .float q => f.text q
  | .str s => quote s
  | .arr [] => ['[', ']']
  | .arr (v :: rest) => '[' :: dumps v ++ dumpsItems rest ++ [']']
  | .obj [] => ['\x7b', '\x7d']
  | .obj ((k, v) :: rest) =>
    '\x7b' :: quote k ++ [':', ' '] ++ dumps v ++ dumpsFields rest ++ ['\x7d']

/-- The items behind the first one. -/
def dumpsItems : List Json → List Char
  | [] => []
  | v :: rest => [',', ' '] ++ dumps v ++ dumpsItems rest

/-- The fields behind the first one. -/
def dumpsFields : List (String × Json) → List Char
  | [] => []
  | (k, v) :: rest => [',', ' '] ++ quote k ++ [':', ' '] ++ dumps v ++ dumpsFields rest

end

mutual

/-- `json.dumps(v, indent=2)` behind a margin. -/
def pretty (margin : List Char) : Json → List Char
  | .arr (v :: rest) =>
    '[' :: '\n' :: ' ' :: ' ' :: margin ++ pretty (' ' :: ' ' :: margin) v ++
      prettyItems (' ' :: ' ' :: margin) rest ++ '\n' :: margin ++ [']']
  | .obj ((k, v) :: rest) =>
    '\x7b' :: '\n' :: ' ' :: ' ' :: margin ++ quote k ++ [':', ' '] ++
      pretty (' ' :: ' ' :: margin) v ++ prettyFields (' ' :: ' ' :: margin) rest ++
      '\n' :: margin ++ ['\x7d']
  | .arr [] => dumps f (.arr [])
  | .obj [] => dumps f (.obj [])
  | .null => dumps f .null
  | .bool b => dumps f (.bool b)
  | .int n => dumps f (.int n)
  | .float q => dumps f (.float q)
  | .str s => dumps f (.str s)

/-- The items behind the first one, each on its line. -/
def prettyItems (margin : List Char) : List Json → List Char
  | [] => []
  | v :: rest => ',' :: '\n' :: margin ++ pretty margin v ++ prettyItems margin rest

/-- The fields behind the first one, each on its line. -/
def prettyFields (margin : List Char) : List (String × Json) → List Char
  | [] => []
  | (k, v) :: rest =>
    ',' :: '\n' :: margin ++ quote k ++ [':', ' '] ++ pretty margin v ++ prettyFields margin rest

end

end Dumps

/-! ### One line of ASCII -/

/-- All characters are printable ASCII. -/
def AllPrintable (text : List Char) : Prop := ∀ c ∈ text, isPrintable c = true

theorem allPrintable_append {a b : List Char} :
    AllPrintable (a ++ b) ↔ AllPrintable a ∧ AllPrintable b :=
  List.forall_mem_append

theorem allPrintable_cons {c : Char} {text : List Char} :
    AllPrintable (c :: text) ↔ isPrintable c = true ∧ AllPrintable text :=
  List.forall_mem_cons

theorem allPrintable_of_all {text : List Char} (h : text.all isPrintable = true) :
    AllPrintable text :=
  List.all_eq_true.mp h

theorem isPrintable_hexDigit (d : Nat) : isPrintable (hexDigits.getD d '0') = true := by
  have hall : hexDigits.all isPrintable = true := by decide
  rw [List.getD_eq_getElem?_getD]
  cases hd : hexDigits[d]? with
  | none => rfl
  | some c => exact List.all_eq_true.mp hall c (List.mem_of_getElem? hd)

theorem allPrintable_unicodeEscape (n : Nat) : AllPrintable (unicodeEscape n) := by
  refine allPrintable_cons.mpr ⟨by decide, allPrintable_cons.mpr ⟨by decide, ?_⟩⟩
  intro c hc
  obtain ⟨d, _, rfl⟩ := List.mem_map.mp hc
  exact isPrintable_hexDigit d

theorem allPrintable_escapeChar (c : Char) : AllPrintable (escapeChar c) := by
  unfold escapeChar
  repeat' split
  all_goals first
    | exact allPrintable_of_all (by decide)
    | exact allPrintable_unicodeEscape _
    | exact allPrintable_append.mpr ⟨allPrintable_unicodeEscape _, allPrintable_unicodeEscape _⟩
    | exact List.forall_mem_singleton.mpr ‹_›

theorem allPrintable_escape (text : List Char) : AllPrintable (escape text) := by
  intro c hc
  obtain ⟨d, _, hc⟩ := List.mem_flatMap.mp hc
  exact allPrintable_escapeChar d c hc

theorem allPrintable_quote (s : String) : AllPrintable (quote s) :=
  allPrintable_cons.mpr ⟨by decide,
    allPrintable_append.mpr ⟨allPrintable_escape _, allPrintable_of_all (by decide)⟩⟩

theorem isPrintable_of_isDigit {c : Char} (h : c.isDigit = true) : isPrintable c = true := by
  obtain ⟨hlow, hhigh⟩ := Bool.and_eq_true_iff.mp h
  have hlow : 48 ≤ c.toNat := of_decide_eq_true hlow
  have hhigh : c.toNat ≤ 57 := of_decide_eq_true hhigh
  rw [isPrintable, Bool.and_eq_true, decide_eq_true_iff, decide_eq_true_iff]
  omega

theorem allPrintable_toDigits (n : Nat) : AllPrintable (Nat.toDigits 10 n) := fun _ hc ↦
  isPrintable_of_isDigit (Nat.isDigit_of_mem_toDigits (by decide) (by decide) hc)

theorem allPrintable_intText (n : Int) : AllPrintable (intText n) := by
  cases n with
  | ofNat n => exact allPrintable_toDigits n
  | negSucc n => exact allPrintable_cons.mpr ⟨by decide, allPrintable_toDigits (n + 1)⟩

mutual

/-- The text is one line of printable ASCII characters. -/
theorem allPrintable_dumps (f : FloatText) : ∀ v, AllPrintable (dumps f v)
  | .null => allPrintable_of_all rfl
  | .bool true => allPrintable_of_all rfl
  | .bool false => allPrintable_of_all rfl
  | .int n => allPrintable_intText n
  | .float q => f.printable q
  | .str s => allPrintable_quote s
  | .arr [] => allPrintable_of_all rfl
  | .arr (v :: rest) => by
    rw [dumps, List.cons_append, List.cons_append, allPrintable_cons, allPrintable_append,
      allPrintable_append]
    exact ⟨by decide, ⟨allPrintable_dumps f v, allPrintable_dumpsItems f rest⟩,
      allPrintable_of_all (by decide)⟩
  | .obj [] => allPrintable_of_all rfl
  | .obj ((k, v) :: rest) => by
    rw [dumps, List.cons_append, List.cons_append, List.cons_append, List.cons_append,
      allPrintable_cons, allPrintable_append, allPrintable_append, allPrintable_append,
      allPrintable_append]
    exact ⟨by decide, ⟨⟨⟨allPrintable_quote k, allPrintable_of_all rfl⟩, allPrintable_dumps f v⟩,
      allPrintable_dumpsFields f rest⟩, allPrintable_of_all rfl⟩

theorem allPrintable_dumpsItems (f : FloatText) : ∀ items, AllPrintable (dumpsItems f items)
  | [] => List.forall_mem_nil _
  | v :: rest => by
    rw [dumpsItems, allPrintable_append, allPrintable_append]
    exact ⟨⟨allPrintable_of_all (by decide), allPrintable_dumps f v⟩,
      allPrintable_dumpsItems f rest⟩

theorem allPrintable_dumpsFields (f : FloatText) : ∀ fields, AllPrintable (dumpsFields f fields)
  | [] => List.forall_mem_nil _
  | (k, v) :: rest => by
    rw [dumpsFields]
    simp only [allPrintable_append]
    exact ⟨⟨⟨⟨allPrintable_of_all (by decide), allPrintable_quote k⟩,
      allPrintable_of_all (by decide)⟩, allPrintable_dumps f v⟩, allPrintable_dumpsFields f rest⟩

end

theorem newline_notMem_dumps (f : FloatText) (v : Json) : '\n' ∉ dumps f v := fun h ↦
  absurd (allPrintable_dumps f v '\n' h) (by decide)

/-! ### A text in a text -/

theorem escape_append (a b : List Char) : escape (a ++ b) = escape a ++ escape b :=
  List.flatMap_append

/-- A printable character that is written with a backslash. -/
def isEscaped (c : Char) : Bool := c = '"' || c = '\\'

theorem length_escapeChar {c : Char} (h : isPrintable c = true) :
    (escapeChar c).length = 1 + if isEscaped c then 1 else 0 := by
  have hne : ∀ d, isPrintable d = false → c ≠ d := fun d hd heq ↦
    Bool.false_ne_true (hd.symm.trans (heq ▸ h))
  have hcode : ∀ n < 32, c.toNat ≠ n := fun n hn heq ↦ by
    rw [isPrintable, heq, Bool.and_eq_true, decide_eq_true_iff] at h
    omega
  unfold escapeChar isEscaped
  by_cases hquote : c = '"'
  · rw [if_pos hquote, hquote]
    rfl
  · by_cases hslash : c = '\\'
    · rw [if_neg hquote, if_pos hslash, hslash]
      rfl
    · rw [if_neg hquote, if_neg hslash, if_neg (hne '\n' rfl), if_neg (hne '\r' rfl),
        if_neg (hne '\t' rfl), if_neg (hcode 12 (by decide)), if_neg (hcode 8 (by decide)),
        if_pos h, decide_eq_false hquote, decide_eq_false hslash]
      rfl

/-- A printable text grows by its quotes and backslashes. -/
theorem length_escape {text : List Char} (h : AllPrintable text) :
    (escape text).length = text.length + text.countP isEscaped := by
  induction text with
  | nil => rfl
  | cons c rest ih =>
    obtain ⟨hc, hrest⟩ := allPrintable_cons.mp h
    rw [escape, List.flatMap_cons, List.length_append, length_escapeChar hc, List.countP_cons,
      List.length_cons, ← escape, ih hrest]
    omega

end GithubAgent.Base.Json
