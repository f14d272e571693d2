import GithubAgent.Base.Json

/-!
# Webhook payloads

A parsed payload is a dict. The readers below are the accesses of the webhook service
(`data.get(..)`, chained or not) and `resolve_path` of `src/shared/utils.py`.
-/

namespace GithubAgent.Shared

open GithubAgent.Base

/-- A JSON object, with its fields in order. -/
abbrev Payload := List (String × Json)

namespace Payload

/-- `data.get(key, {})` where the next call is `.get`; `none` stands for the `AttributeError`
of a value that is not a dict. -/
def dict (data : Payload) (key : String) : Option Payload :=
  match data.lookup key with
  | none => some []
  | some (.obj fields) => some fields
  | some _ => none

/-- `data.get(key)`, which yields `None` for a missing field. -/
def value (data : Payload) (key : String) : Json := (data.lookup key).getD .null

/-- A field that GitHub only sends as a string. -/
def text? (data : Payload) (key : String) : Option String :=
  match data.lookup key with
  | some (.str s) => some s
  | _ => none

/-- The same with the default `""`. -/
def text (data : Payload) (key : String) : String := (data.text? key).getD ""

/-- A field that GitHub only sends as an integer. -/
def number? (data : Payload) (key : String) : Option Int :=
  match data.lookup key with
  | some (.int n) => some n
  | _ => none

/-- `dict.update`, up to the order of the fields. -/
def update (data new : Payload) : Payload :=
  data.filter (fun field ↦ (new.lookup field.1).isNone) ++ new

theorem lookup_update (data new : Payload) (key : String) :
    (data.update new).lookup key = (new.lookup key).or (data.lookup key) := by
  unfold update
  induction data with
  | nil => simp
  | cons field rest ih =>
    obtain ⟨k, v⟩ := field
    by_cases hk : key = k
    · subst hk
      cases hnew : new.lookup key with
      | none => simp [hnew]
      | some w =>
        simp only [hnew, Option.isNone_some, Bool.false_eq_true, not_false_eq_true,
          List.filter_cons_of_neg]
        rw [ih, hnew]
        rfl
    · have hbeq : (key == k) = false := by simpa using hk
      by_cases hnew : (new.lookup k).isNone = true
      · simp [hnew, List.lookup_cons, hbeq, ih]
      · simp [hnew, List.lookup_cons, hbeq, ih]

end Payload

/-- The segments of `path.split(".")`. -/
def splitDots (path : String) : List String :=
  go [] path.toList
where
  /-- The segments, the first of which continues `segment` (kept in reverse). -/
  go (segment : List Char) : List Char → List String
    | [] => [String.ofList segment.reverse]
    | c :: rest =>
      if c = '.' then String.ofList segment.reverse :: go [] rest else go (c :: segment) rest

/-- The walk of `resolve_path`: a missing key or a value that is not a dict ends it. -/
def walk (current : Json) : List String → Option Json
  | [] => some current
  | key :: rest => (current.get? key).bind fun next ↦ walk next rest

/-- `resolve_path` with its default `None` (`utils.py:73-101`). -/
def resolvePath (data : Payload) (path : String) : Json :=
  (walk (.obj data) (splitDots path)).getD .null

end GithubAgent.Shared
