import GithubAgent.Base.JsonDumps
import GithubAgent.Base.Strings

/-!
# The loop of an MCP server

`run_server` of `src/mcp_servers/base.py` reads a line, calls the handler and writes a line. What
the handler does with each request is given.
-/

namespace GithubAgent.Mcp

open GithubAgent.Base

/-- What `json.loads` makes of a line: a value, `JSONDecodeError`, or another exception, for a value
that is nested too deeply or has a number with too many digits. -/
inductive Line where
  | value (v : Json)
  | malformed
  | refused (v : Json)

/-- What the handler does: it returns a dict, of which some values may have no JSON text, or raises.
-/
inductive Outcome where
  | returned (fields : List (String × Option Json))
  | raised

/-- `MAX_RESPONSE_BYTES` (`base.py:15`). -/
def maxResponseBytes : Nat := 1024 * 1024

/-! ### The answers -/

/-- The answer to a line that is no JSON (`base.py:94-98`). -/
def parseError : Json :=
  .obj [("jsonrpc", .str "2.0"),
    ("error", .obj [("code", .int (-32700)), ("message", .str "Parse error")]),
    ("id", .null)]

/-- The answer to any other exception (`base.py:103-107`). -/
def internalError : Json :=
  .obj [("jsonrpc", .str "2.0"),
    ("error", .obj [("code", .int (-32603)), ("message", .str "Internal error")]),
    ("id", .null)]

/-- `"id" in request`, or `none` where this raises. -/
def hasId : Json → Option Bool
  | .obj fields => some (fields.lookup "id").isSome
  | .arr items => some (items.any fun v ↦ v.eq (.str "id"))
  | .str s => some (occursIn "id" s)
  | _ => none

/-- `output`, if it has a JSON text (`base.py:59-63`). -/
def output (id : Json) (response : List (String × Option Json)) : Option (List (String × Json)) :=
  match response.lookup "error" with
  | some error => error.map fun error ↦ [("jsonrpc", .str "2.0"), ("id", id), ("error", error)]
  | none =>
    (response.mapM fun field : String × Option Json ↦ field.2.map (field.1, ·)).map fun result ↦
      [("jsonrpc", .str "2.0"), ("id", id), ("result", .obj result)]

/-- `fields[key] = value`. -/
def setField (key : String) (value : Json) : List (String × Json) → List (String × Json)
  | [] => [(key, value)]
  | (k, v) :: rest => if k = key then (k, value) :: rest else (k, v) :: setField key value rest

/-- What stands behind a text that was cut. -/
def truncatedNotice : List Char := "\n\n[RESPONSE TRUNCATED: exceeded 1MB limit]".toList

/-- The result that replaces one that is too long (`base.py:72-81`). -/
def truncatedResult (text : List Char) : Json :=
  .obj [("content", .arr [.obj [("type", .str "text"),
      ("text", .str (String.ofList (text ++ truncatedNotice)))]]),
    ("isError", .bool true)]

section Server

variable (f : Json.FloatText)

/-- The answer to a request that was handled, if it has a JSON text (`base.py:59-82`). -/
def answer (id : Json) (response : List (String × Option Json)) : Option Json :=
  (output id response).map fun fields ↦
    let encoded := (Json.obj fields).dumps f
    if maxResponseBytes < encoded.length then
      .obj (setField "result" (truncatedResult (encoded.take maxResponseBytes)) fields)
    else .obj fields

variable (handler : Nat → Json → Outcome)

/-- What is written for the line with this number (`base.py:47-109`). -/
def handleLine (i : Nat) : Line → List Json
  | .malformed => [parseError]
  | .refused _ => [internalError]
  | .value request =>
    match hasId request with
    | none => [internalError]
    | some false => []
    | some true =>
      match handler i request, request with
      | .returned response, .obj fields =>
        match answer f ((fields.lookup "id").getD .null) response with
        | some written => [written]
        | none => [internalError]
      -- only a dict has `get`
      | .returned _, _ => [internalError]
      | .raised, _ => [internalError]

/-- The loop, with what it writes for each line. -/
def serve (i : Nat) : List Line → List (List Json)
  | [] => []
  | line :: rest => handleLine f handler i line :: serve (i + 1) rest

/-- `run_server` (`base.py:24-115`) on the lines before the end of the input. -/
def runServer (lines : List Line) : List (List Json) := serve f handler 0 lines

/-- What `run_server` writes to its output. -/
def stdout (lines : List Line) : List Char :=
  (runServer f handler lines).flatten.flatMap fun v ↦ v.dumps f ++ ['\n']

/-! ### Answers to requests -/

/-- The id of a request that carries one. -/
def Line.requestId? : Line → Option Json
  | .value (.obj fields) | .refused (.obj fields) => fields.lookup "id"
  | _ => none

/-- An object without an id. -/
def Line.isNotification : Line → Bool
  | .value (.obj fields) | .refused (.obj fields) => (fields.lookup "id").isNone
  | _ => false

/-- An answer with this id: one line, with a result or an error, and not too long. -/
structure IsAnswer (overhead : Nat) (id written : Json) : Prop where
  id : written.get? "id" = some id
  oneOf : (written.get? "result").isSome = !(written.get? "error").isSome
  oneLine : '\n' ∉ written.dumps f
  size : (written.dumps f).length ≤ maxResponseBytes + overhead

/-- A request is answered once, a notification not at all. -/
structure Answered (overhead : Nat) (line : Line) (written : List Json) : Prop where
  request : ∀ id, line.requestId? = some id → ∃ v, written = [v] ∧ IsAnswer f overhead id v
  notification : line.isNotification = true → written = []

/-- All lines are read, and every one is answered. -/
structure AnswersAll (overhead : Nat) (lines : List Line) : Prop where
  reads : (runServer f handler lines).length = lines.length
  answers : ∀ (i : Nat) line written, lines[i]? = some line →
    (runServer f handler lines)[i]? = some written → Answered f overhead line written

/-- The size of an answer to this id that has nothing but the notice. -/
def frameSize (id : Json) : Nat :=
  ((Json.obj [("jsonrpc", .str "2.0"), ("id", id), ("result", truncatedResult [])]).dumps f).length

/-- The response has a JSON text, unless the id is null, and the answer is short enough, or is a
result whose first characters leave room to write their quotes and backslashes once more. -/
def Fits (overhead : Nat) (id : Json) (response : List (String × Option Json)) : Prop :=
  match output id response with
  | none => id = .null
  | some fields =>
    ((Json.obj fields).dumps f).length ≤ maxResponseBytes ∨
      response.lookup "error" = none ∧ frameSize f id +
        (((Json.obj fields).dumps f).take maxResponseBytes).countP Json.isEscaped ≤ overhead

/-- A request with an id that is not null is parsed and the handler returns a response that fits; a
notification is parsed. -/
def Serves (overhead i : Nat) : Line → Prop
  | .value (.obj fields) =>
    ∀ id, fields.lookup "id" = some id →
      match handler i (.obj fields) with
      | .raised => id = .null
      | .returned response => Fits f overhead id response
  | .refused (.obj fields) => ∃ id, fields.lookup "id" = some id ∧ id = .null
  | _ => True

/-! ### The answers, one by one -/

variable {f} {overhead : Nat} {id : Json}

theorem isAnswer_internalError_iff : IsAnswer f overhead id internalError ↔ id = .null := by
  constructor
  · intro h
    exact (Option.some.inj h.id).symm
  · rintro rfl
    exact
      { id := rfl
        oneOf := rfl
        oneLine := Json.newline_notMem_dumps f _
        size := (Nat.le_of_ble_eq_true rfl : _ ≤ maxResponseBytes).trans (Nat.le_add_right _ _) }

/-- What the answer to a request is made of. -/
theorem output_eq_some {response : List (String × Option Json)} {fields : List (String × Json)}
    (h : output id response = some fields) :
    (∃ error, (response.lookup "error").isSome = true ∧
      fields = [("jsonrpc", .str "2.0"), ("id", id), ("error", error)]) ∨
    ∃ result, response.lookup "error" = none ∧
      fields = [("jsonrpc", .str "2.0"), ("id", id), ("result", .obj result)] := by
  unfold output at h
  split at h
  · next found herror =>
    obtain ⟨error, _, rfl⟩ := Option.map_eq_some_iff.mp h
    exact Or.inl ⟨error, by rw [herror]; rfl, rfl⟩
  · next hnone =>
    obtain ⟨result, _, rfl⟩ := Option.map_eq_some_iff.mp h
    exact Or.inr ⟨result, hnone, rfl⟩

/-- An answer that is not cut needs to be short. -/
theorem isAnswer_of_output {response : List (String × Option Json)}
    {fields : List (String × Json)} (h : output id response = some fields)
    (hshort : ((Json.obj fields).dumps f).length ≤ maxResponseBytes) :
    IsAnswer f overhead id (.obj fields) where
  id := by rcases output_eq_some h with ⟨error, _, rfl⟩ | ⟨result, _, rfl⟩ <;> rfl
  oneOf := by rcases output_eq_some h with ⟨error, _, rfl⟩ | ⟨result, _, rfl⟩ <;> rfl
  oneLine := Json.newline_notMem_dumps f _
  size := hshort.trans (Nat.le_add_right _ _)

/-- A text in a result is escaped once more. -/
theorem length_dumps_truncated (f : Json.FloatText) (id : Json) (text : List Char) :
    ((Json.obj [("jsonrpc", .str "2.0"), ("id", id), ("result", truncatedResult text)]).dumps
      f).length = frameSize f id + (Json.escape text).length := by
  simp only [frameSize, truncatedResult, Json.dumps, Json.dumpsFields, Json.dumpsItems, Json.quote,
    String.toList_ofList, Json.escape_append, List.length_append, List.length_cons, List.nil_append]
  omega

/-- An answer that is cut has to be a result with room for its quotes and backslashes. -/
theorem isAnswer_truncated_iff {response : List (String × Option Json)}
    {fields : List (String × Json)} (h : output id response = some fields) {text : List Char}
    (hlen : text.length = maxResponseBytes) (hprintable : Json.AllPrintable text) :
    IsAnswer f overhead id (.obj (setField "result" (truncatedResult text) fields)) ↔
      response.lookup "error" = none ∧
        frameSize f id + text.countP Json.isEscaped ≤ overhead := by
  rcases output_eq_some h with ⟨error, herror, rfl⟩ | ⟨result, hnone, rfl⟩
  · constructor
    · intro hanswer
      -- the error is still there
      exact (Bool.false_ne_true hanswer.oneOf.symm).elim
    · rintro ⟨hnone, _⟩
      rw [hnone] at herror
      cases herror
  · have hset : setField "result" (truncatedResult text)
        [("jsonrpc", .str "2.0"), ("id", id), ("result", .obj result)] =
          [("jsonrpc", .str "2.0"), ("id", id), ("result", truncatedResult text)] := rfl
    have hsize := length_dumps_truncated f id text
    rw [Json.length_escape hprintable, hlen] at hsize
    rw [hset]
    constructor
    · intro hanswer
      have hroom := hanswer.size
      rw [hsize] at hroom
      exact ⟨hnone, by omega⟩
    · rintro ⟨_, hroom⟩
      exact
        { id := rfl
          oneOf := rfl
          oneLine := Json.newline_notMem_dumps f _
          size := by rw [hsize]; omega }

/-! ### The lines, one by one -/

variable {handler : Nat → Json → Outcome}

theorem exists_singleton_iff {P : Json → Prop} {v : Json} :
    (∃ w, [v] = [w] ∧ P w) ↔ P v := by
  constructor
  · rintro ⟨w, hw, h⟩
    exact (List.singleton_inj.mp hw).symm ▸ h
  · exact fun h ↦ ⟨v, rfl, h⟩

/-- A request that was handled is answered when the response fits. -/
theorem answered_returned_iff {response : List (String × Option Json)} :
    (∃ v, (match answer f id response with
        | some written => [written]
        | none => [internalError]) = [v] ∧ IsAnswer f overhead id v) ↔
      Fits f overhead id response := by
  unfold answer Fits
  cases houtput : output id response with
  | none => exact exists_singleton_iff.trans isAnswer_internalError_iff
  | some fields =>
    refine exists_singleton_iff.trans ?_
    dsimp only
    by_cases hlong : maxResponseBytes < ((Json.obj fields).dumps f).length
    · rw [if_pos hlong]
      have htake : (((Json.obj fields).dumps f).take maxResponseBytes).length = maxResponseBytes :=
        List.length_take_of_le hlong.le
      have hprintable : Json.AllPrintable (((Json.obj fields).dumps f).take maxResponseBytes) :=
        fun c hc ↦ Json.allPrintable_dumps f _ c (List.mem_of_mem_take hc)
      rw [isAnswer_truncated_iff houtput htake hprintable]
      exact (or_iff_right hlong.not_ge).symm
    · rw [if_neg hlong]
      have hshort := Nat.le_of_not_lt hlong
      exact iff_of_true (isAnswer_of_output houtput hshort) (Or.inl hshort)

/-- A request is answered when it is served. -/
theorem answered_request_iff {i : Nat} {fields : List (String × Json)}
    (hid : fields.lookup "id" = some id) :
    (∃ v, handleLine f handler i (.value (.obj fields)) = [v] ∧ IsAnswer f overhead id v) ↔
      match handler i (.obj fields) with
      | .raised => id = .null
      | .returned response => Fits f overhead id response := by
  unfold handleLine hasId
  dsimp only
  rw [hid]
  dsimp only [Option.isSome]
  cases handler i (.obj fields) with
  | raised => exact exists_singleton_iff.trans isAnswer_internalError_iff
  | returned response =>
    dsimp only
    rw [hid]
    exact answered_returned_iff

/-- Of any other line nothing is asked. -/
theorem answered_other {line : Line} (written : List Json) (hid : line.requestId? = none)
    (hnot : line.isNotification = false) : Answered f overhead line written where
  request := fun id h ↦ (Option.some_ne_none id (h.symm.trans hid)).elim
  notification := fun h ↦ (Bool.false_ne_true (hnot.symm.trans h)).elim

theorem answered_iff {i : Nat} {line : Line} :
    Answered f overhead line (handleLine f handler i line) ↔ Serves f handler overhead i line := by
  cases line with
  | malformed => exact ⟨fun _ ↦ trivial, fun _ ↦ answered_other _ rfl rfl⟩
  | refused v =>
    cases v with
    | obj fields =>
      constructor
      · intro h
        cases hid : fields.lookup "id" with
        | none =>
          have hnot : Line.isNotification (.refused (.obj fields)) = true := by
            rw [Line.isNotification, hid]
            rfl
          exact absurd (h.notification hnot) (List.cons_ne_nil _ _)
        | some id =>
          exact ⟨id, hid, isAnswer_internalError_iff.mp (exists_singleton_iff.mp (h.request id hid))⟩
      · rintro ⟨id, hid, hnull⟩
        refine ⟨fun id' hid' ↦ ?_, fun hnot ↦ ?_⟩
        · obtain rfl := Option.some.inj (hid.symm.trans hid')
          exact exists_singleton_iff.mpr (isAnswer_internalError_iff.mpr hnull)
        · rw [Line.isNotification, hid] at hnot
          cases hnot
    | _ => exact ⟨fun _ ↦ trivial, fun _ ↦ answered_other _ rfl rfl⟩
  | value v =>
    cases v with
    | obj fields =>
      constructor
      · intro h id hid
        exact (answered_request_iff hid).mp (h.request id hid)
      · intro h
        refine ⟨fun id hid ↦ (answered_request_iff hid).mpr (h id hid), fun hnot ↦ ?_⟩
        have hnone : fields.lookup "id" = none := Option.isNone_iff_eq_none.mp hnot
        unfold handleLine hasId
        dsimp only
        rw [hnone]
        rfl
    | _ => exact ⟨fun _ ↦ trivial, fun _ ↦ answered_other _ rfl rfl⟩

/-! ### The run -/

theorem getElem?_serve (i j : Nat) (lines : List Line) :
    (serve f handler i lines)[j]? = lines[j]?.map (handleLine f handler (i + j)) := by
  induction lines generalizing i j with
  | nil => rfl
  | cons line rest ih =>
    cases j with
    | zero => rfl
    | succ j =>
      rw [serve, List.getElem?_cons_succ, List.getElem?_cons_succ, ih, Nat.add_right_comm,
        Nat.add_assoc]

theorem length_serve (i : Nat) (lines : List Line) :
    (serve f handler i lines).length = lines.length := by
  induction lines generalizing i with
  | nil => rfl
  | cons line rest ih => rw [serve, List.length_cons, List.length_cons, ih]

end Server

/-- Every line is read, and every request has its own answer exactly when each line is served. -/
theorem answersAll_iff (f : Json.FloatText) (handler : Nat → Json → Outcome) (overhead : Nat)
    (lines : List Line) :
    AnswersAll f handler overhead lines ↔
      ∀ (i : Nat) line, lines[i]? = some line → Serves f handler overhead i line := by
  have hget : ∀ (i : Nat) line, lines[i]? = some line →
      (runServer f handler lines)[i]? = some (handleLine f handler i line) := by
    intro i line hline
    rw [runServer, getElem?_serve, hline, Nat.zero_add]
    rfl
  constructor
  · intro h i line hline
    exact answered_iff.mp (h.answers i line _ hline (hget i line hline))
  · intro h
    refine ⟨length_serve 0 lines, fun i line written hline hwritten ↦ ?_⟩
    obtain rfl := Option.some.inj ((hget i line hline).symm.trans hwritten)
    exact answered_iff.mpr (h i line hline)

/-- The answer to a request whose handler raises has no id. -/
theorem not_answersAll_raised :
    ¬ ∃ overhead, AnswersAll ⟨fun _ ↦ [], fun _ ↦ List.forall_mem_nil _⟩ (fun _ _ ↦ .raised) overhead
      [.value (.obj [("jsonrpc", .str "2.0"), ("id", .int 1), ("method", .str "test")])] := by
  rintro ⟨overhead, h⟩
  obtain ⟨v, hv, hanswer⟩ := (h.answers 0 _ [internalError] rfl rfl).request (.int 1) rfl
  obtain rfl := List.singleton_inj.mp hv
  cases hanswer.id

end GithubAgent.Mcp
