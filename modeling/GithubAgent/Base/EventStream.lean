import GithubAgent.Base.Lines
import GithubAgent.Base.TextLines

/-!
# Event streams

The text format of server-sent events, and the parser that the standard gives for it. Events
that are written one after the other are read back, unless a text in them has an end of line.
-/

namespace GithubAgent.Base.EventStream

/-- An event with the data of its lines. -/
structure Event where
  type : List Char
  data : List Char
  deriving DecidableEq

/-- The parser's buffers; there is a line end behind each line of data. -/
structure Buffers where
  type : List Char
  data : List Char

/-- What follows the colon of a field, without the first space. -/
def fieldValue : List Char → List Char
  | ':' :: ' ' :: value => value
  | ':' :: value => value
  | _ => []

/-- A line that is not empty; other fields change neither buffer. -/
def Buffers.field (b : Buffers) (line : List Char) : Buffers :=
  let name := line.takeWhile (· ≠ ':')
  let value := fieldValue (line.dropWhile (· ≠ ':'))
  if name = ['e', 'v', 'e', 'n', 't'] then { b with type := value }
  else if name = ['d', 'a', 't', 'a'] then { b with data := b.data ++ value ++ ['\n'] }
  else b

/-- An empty line: an event without data is no event. -/
def Buffers.dispatch (b : Buffers) : List Event :=
  if b.data = [] then []
  else [⟨if b.type = [] then "message".toList else b.type, b.data.dropLast⟩]

/-- The events of the lines; what no empty line ends is discarded. -/
def parseLines : Buffers → List (List Char) → List Event
  | _, [] => []
  | b, line :: rest =>
    if line = [] then b.dispatch ++ parseLines ⟨[], []⟩ rest else parseLines (b.field line) rest

/-- The events of a stream, which may begin with a byte order mark. -/
def parse (text : List Char) : List Event :=
  parseLines ⟨[], []⟩ (finished (· = '\n') (universalNewlines
    (if text.head? = some (Char.ofNat 0xFEFF) then text.tail else text)))

/-- An event with one line of data. -/
def encode (e : Event) : List Char :=
  ('e' :: 'v' :: 'e' :: 'n' :: 't' :: ':' :: ' ' :: e.type) ++
    '\n' :: ('d' :: 'a' :: 't' :: 'a' :: ':' :: ' ' :: e.data) ++ ['\n', '\n']

/-- The event can be sent: it has a type, and no text has an end of line. -/
def Event.OneLine (e : Event) : Prop :=
  e.type ≠ [] ∧ '\n' ∉ e.type ∧ '\r' ∉ e.type ∧ '\n' ∉ e.data ∧ '\r' ∉ e.data

theorem finished_line {line : List Char} (h : '\n' ∉ line) (rest : List Char) :
    finished (· = '\n') (line ++ '\n' :: rest) = line :: finished (· = '\n') rest := by
  have hline : ∀ c ∈ line, decide (c = '\n') = false := by
    intro c hc
    refine decide_eq_false ?_
    rintro rfl
    exact h hc
  rw [finished, List.splitOnP_append_cons _ _ (by decide), List.splitOnP_eq_singleton hline,
    List.singleton_append, List.dropLast_cons_of_ne_nil (List.splitOnP_ne_nil _ rest), finished]

/-- An event is made of two lines and an empty one. -/
theorem finished_encode {e : Event} (h : e.OneLine) (rest : List Char) :
    finished (· = '\n') (encode e ++ rest) =
      ('e' :: 'v' :: 'e' :: 'n' :: 't' :: ':' :: ' ' :: e.type) ::
        ('d' :: 'a' :: 't' :: 'a' :: ':' :: ' ' :: e.data) :: [] :: finished (· = '\n') rest := by
  obtain ⟨-, htype, -, hdata, -⟩ := h
  have htypeLine : '\n' ∉ 'e' :: 'v' :: 'e' :: 'n' :: 't' :: ':' :: ' ' :: e.type := by
    simp [htype]
  have hdataLine : '\n' ∉ 'd' :: 'a' :: 't' :: 'a' :: ':' :: ' ' :: e.data := by
    simp [hdata]
  have hshape : encode e ++ rest = ('e' :: 'v' :: 'e' :: 'n' :: 't' :: ':' :: ' ' :: e.type) ++
      '\n' :: (('d' :: 'a' :: 't' :: 'a' :: ':' :: ' ' :: e.data) ++ '\n' :: ([] ++ '\n' :: rest)) := by
    simp [encode]
  rw [hshape, finished_line htypeLine, finished_line hdataLine, finished_line List.not_mem_nil]

theorem parseLines_event {e : Event} (h : e.OneLine) (lines : List (List Char)) :
    parseLines ⟨[], []⟩ (('e' :: 'v' :: 'e' :: 'n' :: 't' :: ':' :: ' ' :: e.type) ::
      ('d' :: 'a' :: 't' :: 'a' :: ':' :: ' ' :: e.data) :: [] :: lines) =
        e :: parseLines ⟨[], []⟩ lines := by
  have htype : (Buffers.mk [] []).field
      ('e' :: 'v' :: 'e' :: 'n' :: 't' :: ':' :: ' ' :: e.type) = ⟨e.type, []⟩ := by
    simp [Buffers.field, fieldValue]
  have hdata : (Buffers.mk e.type []).field
      ('d' :: 'a' :: 't' :: 'a' :: ':' :: ' ' :: e.data) = ⟨e.type, e.data ++ ['\n']⟩ := by
    simp [Buffers.field, fieldValue]
  have hdispatch : (Buffers.mk e.type (e.data ++ ['\n'])).dispatch = [e] := by
    simp [Buffers.dispatch, h.1]
  rw [parseLines, if_neg (List.cons_ne_nil _ _), htype, parseLines,
    if_neg (List.cons_ne_nil _ _), hdata, parseLines, if_pos rfl, hdispatch]
  rfl

/-- What is written is read back. -/
theorem parse_flatMap_encode {events : List Event} (h : ∀ e ∈ events, e.OneLine) :
    parse (events.flatMap encode) = events := by
  have hcr : '\r' ∉ events.flatMap encode := by
    intro hmem
    obtain ⟨e, he, hmem⟩ := List.mem_flatMap.mp hmem
    obtain ⟨-, -, htype, -, hdata⟩ := h e he
    simp [encode, htype, hdata] at hmem
  have hmark : (events.flatMap encode).head? ≠ some (Char.ofNat 0xFEFF) := by
    cases events with
    | nil => exact nofun
    | cons e rest =>
      intro heq
      exact absurd (Option.some.inj heq) (by decide)
  have hlines (events : List Event) (h : ∀ e ∈ events, e.OneLine) :
      parseLines ⟨[], []⟩ (finished (· = '\n') (events.flatMap encode)) = events := by
    induction events with
    | nil => rfl
    | cons e rest ih =>
      rw [List.flatMap_cons, finished_encode (h e List.mem_cons_self),
        parseLines_event (h e List.mem_cons_self),
        ih fun e he ↦ h e (List.mem_cons_of_mem _ he)]
  rw [parse, if_neg hmark, universalNewlines_of_notMem hcr, hlines events h]

end GithubAgent.Base.EventStream
