import Mathlib.Data.Rat.Defs

/-!
# JSON values as Python sees them

The values `json.loads` yields, with Python's equality and truth value on them. Numbers keep
Python's distinction between `int` and `float`; equality ignores it, and counts `True` and
`False` as 1 and 0. A serialised document is kept as the value it was dumped from, or as a
text that does not parse.
-/

namespace GithubAgent.Base

/-- A parsed JSON document; object fields are in insertion order. -/
inductive Json where
  | null
  | bool (b : Bool)
  | int (n : Int)
  | float (q : Rat)
  | str (s : String)
  | arr (items : List Json)
  | obj (fields : List (String × Json))

namespace Json

/-- The numeric value of `int`, `float` and `bool`, on which Python compares them. -/
def number : Json → Option Rat
  | .bool b => some (if b then 1 else 0)
  | .int n => some n
  | .float q => some q
  | _ => none

mutual

/-- Python's `==`; two dicts are equal when they agree field by field, in any order. -/
def eq : Json → Json → Bool
  | .null, .null => true
  | .str a, .str b => a == b
  | .arr xs, .arr ys => eqItems xs ys
  | .obj fs, .obj gs => fs.length == gs.length && eqFields fs gs
  | .bool a, w => (Json.bool a).number == w.number
  | .int a, w => (Json.int a).number == w.number
  | .float a, w => (Json.float a).number == w.number
  | _, _ => false

/-- Elementwise equality of two lists. -/
def eqItems : List Json → List Json → Bool
  | [], [] => true
  | x :: xs, y :: ys => eq x y && eqItems xs ys
  | _, _ => false

/-- Every field of the first dict has an equal field in the second. -/
def eqFields : List (String × Json) → List (String × Json) → Bool
  | [], _ => true
  | (k, v) :: fs, gs =>
    (match gs.lookup k with
      | some w => eq v w
      | none => false) && eqFields fs gs

end

/-- Python's truth value. -/
def truthy : Json → Bool
  | .null => false
  | .bool b => b
  | .int n => n != 0
  | .float q => q != 0
  | .str s => s != ""
  | .arr items => !items.isEmpty
  | .obj fields => !fields.isEmpty

/-- `dict.get`; only dicts have fields. -/
def get? : Json → String → Option Json
  | .obj fields, k => fields.lookup k
  | _, _ => none

/-- `dict.pop(key, None)`, for its effect on the dict. -/
def erase (k : String) (fields : List (String × Json)) : List (String × Json) :=
  fields.filter fun f ↦ f.1 != k

end Json

/-- A stored text: a document `json.dumps` produced, or a text `json.loads` rejects. -/
inductive JsonText where
  | dumps (v : Json)
  | malformed (text : String)

/-- Python's truth value of the text: only the empty string is false. -/
def JsonText.truthy : JsonText → Bool
  | .dumps _ => true
  | .malformed text => text != ""

/-- `json.loads`; `none` stands for `JSONDecodeError`. -/
def JsonText.loads : JsonText → Option Json
  | .dumps v => some v
  | .malformed _ => none

end GithubAgent.Base
