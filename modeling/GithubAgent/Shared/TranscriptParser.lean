import GithubAgent.Base.Attempt
import GithubAgent.Base.JsonDumps
import GithubAgent.Base.Strings
import GithubAgent.Webhook.Handler
import Mathlib.Data.List.DropRight
import Mathlib.Data.List.Dedup
import Mathlib.Data.List.Sort

/-!
# Parsing a transcript

`src/shared/transcript_parser.py` reads the lines of a transcript in one `try`, for the memory, for
the retrospector and for a session that starts again. A value that no access expects raises, and
nothing behind it is read. What `json.loads` makes of a line, `repr` and the text of a float are
given.
-/

namespace GithubAgent.Shared.Transcript

open GithubAgent.Base

/-- What `json.loads` makes of a line: a value, `JSONDecodeError`, or another exception, for a value
that is nested too deeply or has a number with too many digits. -/
inductive Loaded where
  | value (v : Json)
  | malformed
  | raised

/-! ### Accesses to a value -/

/-- `data.get(key, default)`. -/
def getOr (data : Payload) (key : String) (default : Json) : Json := (data.lookup key).getD default

/-- The characters of a string. -/
def text? : Json → Option String
  | .str s => some s
  | _ => none

/-- `separator.join(values)`, which raises unless all values are strings. -/
def join (separator : String) (values : List Json) : Option String :=
  (values.mapM text?).map separator.intercalate

/-- `text[:n]`. -/
def cut (n : Nat) (text : String) : String := String.ofList (text.toList.take n)

/-- A slice of a string or of a list. -/
inductive Slice where
  | text (s : String)
  | items (l : List Json)

/-- `value[:n]`, which raises for any other value. -/
def slice (n : Nat) : Json → Option Slice
  | .str s => some (.text (cut n s))
  | .arr items => some (.items (items.take n))
  | _ => none

/-- A slice of a slice. -/
def Slice.take (n : Nat) : Slice → Slice
  | .text s => .text (cut n s)
  | .items l => .items (l.take n)

/-- The value of a slice. -/
def Slice.value : Slice → Json
  | .text s => .str s
  | .items l => .arr l

/-- `len(value)`. -/
def len : Json → Option Nat
  | .str s => some s.length
  | .arr items => some items.length
  | .obj fields => some fields.length
  | _ => none

/-- A value that a set takes, which are all but dicts and lists. -/
def hashed : Json → Option Json
  | .arr _ | .obj _ => none
  | v => some v

/-- `key in value`. -/
def contains (key : String) : Json → Option Bool
  | .obj fields => some (fields.lookup key).isSome
  | .arr items => some (items.any fun v ↦ v.eq (.str key))
  | .str s => some (occursIn key s)
  | _ => none

/-- The dict that a value is, for its `get`. -/
def dict? : Json → Option Payload
  | .obj fields => some fields
  | _ => none

/-! ### The lines -/

section Lines

variable {E : Type} (loads : String → Loaded)

/-- What is done for a line, with blank ones and those that are no JSON left out
(`transcript_parser.py:22-29`). -/
def onLine (entry : Json → Attempt E) (line : String) : Attempt E :=
  if Webhook.strip line.toList = [] then .puts []
  else
    match loads (String.ofList (Webhook.strip line.toList)) with
    | .value v => entry v
    | .malformed => .puts []
    | .raised => .raise

/-- `msg.get("role") or entry_type`. -/
def roleOf (entry msg : Payload) : Json :=
  if (msg.value "role").truthy then msg.value "role" else entry.value "type"

/-- What is done for an entry, by the role of its message; entries of some types are skipped. -/
def onEntry (skipped : List String) (user assistant : Json → Attempt E) (entry : Json) :
    Attempt E :=
  .eval (dict? entry) fun entry ↦
    if skipped.any fun type ↦ (entry.value "type").eq (.str type) then .puts []
    else
      .eval (dict? (getOr entry "message" (.obj []))) fun msg ↦
        match roleOf entry msg with
        | .str "user" => user (getOr msg "content" (.str ""))
        | .str "assistant" => assistant (getOr msg "content" (.str ""))
        | _ => .puts []

/-- What is done for a block of a message, by its type, if it is a dict. -/
def onBlock (byType : List (String × (Payload → Attempt E))) : Json → Attempt E
  | .obj block =>
    match Payload.value block "type" with
    | .str type => ((byType.lookup type).map (· block)).getD (.puts [])
    | _ => .puts []
  | _ => .puts []

end Lines

/-- `b.get("text", "")` of the dicts in a list. -/
def textsOf (items : List Json) : List Json :=
  (items.filterMap dict?).map (getOr · "text" (.str ""))

section Parsers

variable (repr : Json → String) (f : Json.FloatText)

/-- `f"\x7bvalue\x7d"`, and `str(value)`. -/
def shown : Json → String
  | .str s => s
  | v => repr v

/-- The text of a tool result (`transcript_parser.py:61-68`). -/
def resultText (block : Payload) : Option String :=
  match getOr block "content" (.str "") with
  | .arr inner => join " " (textsOf inner)
  | inner => some (shown repr inner)

/-- `json.dumps(block.get("input", \x7b\x7d))`. -/
def toolInputText (block : Payload) : String :=
  String.ofList ((getOr block "input" (.obj [])).dumps f)

/-! ### The conversation -/

namespace Conversation

/-- The lines of what a user wrote (`transcript_parser.py:53-71`). -/
def user : Json → Attempt String
  | .str content => .puts ["User: " ++ content]
  | .arr blocks => .each (onBlock
      [("tool_result", fun block ↦ .eval (resultText repr block) fun text ↦
          .puts ["Tool result: " ++ cut 500 text]),
        ("text", fun block ↦ .puts ["User: " ++ shown repr (getOr block "text" (.str ""))])]) blocks
  | _ => .puts []

/-- The lines of an answer (`transcript_parser.py:73-86`). -/
def assistant : Json → Attempt String
  | .arr blocks => .each (onBlock
      [("text", fun block ↦ .puts ["Assistant: " ++ shown repr (getOr block "text" (.str ""))]),
        ("tool_use", fun block ↦ .puts ["Tool call: " ++ shown repr (block.value "name") ++ "(" ++
          cut 300 (toolInputText f block) ++ ")"])]) blocks
  | _ => .puts []

/-- The lines of an entry. -/
def entry : Json → Attempt String := onEntry ["queue-operation"] (user repr) (assistant repr f)

end Conversation

variable (loads : String → Loaded)

/-- The lines of the conversation, which an exception ends. -/
def conversation (lines : List String) : List String :=
  (Attempt.each (onLine loads (Conversation.entry repr f)) lines).out

/-- `extract_conversation` (`transcript_parser.py:32-91`). -/
def extractConversation (lines : List String) : String :=
  "\n".intercalate (conversation repr f loads lines)

/-! ### The summary for the retrospector -/

namespace Retrospect

/-- What is done to the summary. -/
inductive Note where
  | turn
  | line (lead text : String)
  | error (tool text : String)
  | subagent (name : String)

/-- The variables of `extract_retrospector_summary`; the set is kept as a list. -/
structure Summary where
  lines : List String := []
  turnCount : Nat := 0
  errorCount : Nat := 0
  toolErrors : List String := []
  subagentsUsed : List String := []

/-- A line with the number of its turn. -/
def numbered (turn : Nat) (lead text : String) : String :=
  lead ++ "[Turn " ++ toString turn ++ "] " ++ text

/-- What a note does. -/
def Summary.add (s : Summary) : Note → Summary
  | .turn => { s with turnCount := s.turnCount + 1 }
  | .line lead text => { s with lines := s.lines ++ [numbered s.turnCount lead text] }
  | .error tool text =>
    { s with
      errorCount := s.errorCount + 1
      toolErrors := s.toolErrors ++ ["Tool " ++ tool ++ ": " ++ text]
      lines := s.lines ++ [numbered s.turnCount "" ("Tool ERROR: " ++ text)] }
  | .subagent name => { s with subagentsUsed := s.subagentsUsed ++ [name] }

/-- A tool result (`transcript_parser.py:129-151`). -/
def toolResult (block : Payload) : Attempt Note :=
  .eval (resultText repr block) fun text ↦
    if (getOr block "is_error" (.bool false)).truthy then
      .puts [.error (shown repr (getOr block "tool_use_id" (.str ""))) (cut 300 text)]
    else .puts [.line "" ("Tool result: " ++ cut 300 text)]

/-- What a user wrote (`transcript_parser.py:123-155`). -/
def user : Json → Attempt Note
  | .str content => .puts [.line "\n" ("User: " ++ cut 500 content)]
  | .arr blocks => .each (onBlock
      [("tool_result", toolResult repr),
        ("text", fun block ↦ .eval (slice 500 (getOr block "text" (.str ""))) fun text ↦
          .puts [.line "" ("User: " ++ shown repr text.value)])]) blocks
  | _ => .puts []

/-- A call of an agent is noted with its name and type. -/
def agentCall (block : Payload) : Attempt Note :=
  .eval (dict? (getOr block "input" (.obj []))) fun agentInput ↦
    let agentName := getOr agentInput "name" (.str "unknown")
    .puts [.subagent (shown repr agentName ++ " (" ++
      shown repr (getOr agentInput "subagent_type" agentName) ++ ")")]

/-- A call of a tool (`transcript_parser.py:169-184`). -/
def toolUse (block : Payload) : Attempt Note :=
  let toolName := getOr block "name" (.str "")
  Attempt.andThen (if toolName.eq (.str "Agent") then agentCall repr block else .puts [])
    (.puts [.line "" ("Tool call: " ++ shown repr toolName ++ "(" ++
      cut 200 (toolInputText f block) ++ ")")])

/-- An answer (`transcript_parser.py:157-184`). -/
def assistant (content : Json) : Attempt Note :=
  Attempt.andThen (.puts [.turn]) <|
    match content with
    | .arr blocks => .each (onBlock
        [("text", fun block ↦ .eval (slice 500 (getOr block "text" (.str ""))) fun text ↦
            .puts [.line "\n" ("Assistant: " ++ shown repr text.value)]),
          ("tool_use", toolUse repr f)]) blocks
    | _ => .puts []

/-- The notes of an entry. -/
def entry : Json → Attempt Note := onEntry ["queue-operation"] (user repr) (assistant repr f)

/-- The text of the summary (`transcript_parser.py:190-203`). -/
def Summary.text (s : Summary) : String :=
  "# Session Transcript Summary\n\n**Total turns:** " ++ toString s.turnCount ++
    "\n**Tool errors:** " ++ toString s.errorCount ++ "\n**Subagents invoked:** " ++
    (if s.subagentsUsed = [] then "none"
      else ", ".intercalate (s.subagentsUsed.dedup.insertionSort (· ≤ ·))) ++
    "\n\n## Detailed Timeline\n\n" ++ "".intercalate s.lines ++ "\n\n## Tool Errors Summary\n\n" ++
    (if s.toolErrors = [] then "No tool errors"
      else "\n".intercalate (s.toolErrors.map ("- " ++ ·))) ++ "\n"

end Retrospect

/-- What the lines of a transcript do to the summary for the retrospector. -/
def retrospect (lines : List String) : Attempt Retrospect.Note :=
  .each (onLine loads (Retrospect.entry repr f)) lines

/-- `extract_retrospector_summary` (`transcript_parser.py:94-204`). -/
def extractRetrospectorSummary (lines : List String) : Option String :=
  if (retrospect repr f loads lines).raised then none
  else some ((retrospect repr f loads lines).out.foldl Retrospect.Summary.add {}).text

/-! ### The summary for a session that starts again -/

namespace Recap

/-- What is done to the variables. -/
inductive Note where
  | turn
  | query (text : Slice)
  | response (text : Slice)
  | action (text : String)
  | tool (name : Json)
  | examined (path : Json)
  | modified (path : Json)

/-- The variables of `extract_conversation_summary`; the sets are kept as lists. -/
structure Summary where
  turnCount : Nat := 0
  filesExamined : List Json := []
  filesModified : List Json := []
  toolsUsed : List Json := []
  lastAction : String := ""
  userQueries : List Slice := []
  assistantResponses : List Slice := []

/-- What a note does. -/
def Summary.add (s : Summary) : Note → Summary
  | .turn => { s with turnCount := s.turnCount + 1 }
  | .query text => { s with userQueries := s.userQueries ++ [text] }
  | .response text => { s with assistantResponses := s.assistantResponses ++ [text] }
  | .action text => { s with lastAction := text }
  | .tool name => { s with toolsUsed := s.toolsUsed ++ [name] }
  | .examined path => { s with filesExamined := s.filesExamined ++ [path] }
  | .modified path => { s with filesModified := s.filesModified ++ [path] }

/-- What a user wrote (`transcript_parser.py:234-240`). -/
def user : Json → Attempt Note
  | .str content => .puts [.query (.text (cut 200 content))]
  | .arr blocks => .each (onBlock
      [("text", fun block ↦ .eval (slice 200 (getOr block "text" (.str ""))) fun text ↦
        .puts [.query text])]) blocks
  | _ => .puts []

/-- A text of an answer (`transcript_parser.py:249-253`). -/
def answerText (block : Payload) : Attempt Note :=
  let text := getOr block "text" (.str "")
  Attempt.andThen
    (if text.truthy then .eval (slice 300 text) fun text ↦ .puts [.response text] else .puts [])
    (.eval (len text) fun n ↦ .puts [.action ("Assistant response (" ++ toString n ++ " chars)")])

/-- A call of a tool for a file. -/
def fileUse (note : Json → Note) (toolName : String) (toolInput : Json) : Attempt Note :=
  .eval (contains "file_path" toolInput) fun found ↦
    if found then
      .eval ((toolInput.get? "file_path").bind hashed) fun path ↦
        .puts [note path, .action (toolName ++ " " ++ shown repr path)]
    else .puts [.action toolName]

/-- A call of a tool (`transcript_parser.py:254-276`). -/
def toolUse (block : Payload) : Attempt Note :=
  let toolInput := getOr block "input" (.obj [])
  .eval (hashed (getOr block "name" (.str ""))) fun toolName ↦
    Attempt.andThen (.puts [.tool toolName]) <|
      match toolName with
      | .str "Read" => fileUse repr .examined "Read" toolInput
      | .str "Edit" => fileUse repr .modified "Edit" toolInput
      | .str "Write" => fileUse repr .modified "Write" toolInput
      | .str "Bash" =>
        .eval (dict? toolInput) fun toolInput ↦
          .eval (slice 100 (getOr toolInput "command" (.str ""))) fun cmd ↦
            .puts [.action ("Bash: " ++ shown repr cmd.value)]
      | .str "Agent" =>
        .eval (dict? toolInput) fun toolInput ↦
          .puts [.action ("Agent: " ++ shown repr (getOr toolInput "name" (.str "unknown")))]
      | toolName => .puts [.action (shown repr toolName)]

/-- An answer (`transcript_parser.py:242-276`). -/
def assistant (content : Json) : Attempt Note :=
  Attempt.andThen (.puts [.turn]) <|
    match content with
    | .arr blocks => .each (onBlock [("text", answerText), ("tool_use", toolUse repr)]) blocks
    | _ => .puts []

/-- The notes of an entry. -/
def entry : Json → Attempt Note := onEntry ["queue-operation"] user (assistant repr)

/-- `sorted` of a set whose values are then joined; of values that are not all strings, one of the
two raises. -/
def sortedTexts (values : List Json) : Option (List String) :=
  (values.mapM text?).map fun texts ↦ texts.dedup.insertionSort (· ≤ ·)

/-- A part for values, unless there are none. -/
def part (lead : String) {A : Type} (values : List A) (text : List A → Option String) :
    Option (List String) :=
  if values.isEmpty then some [] else (text values).map fun text ↦ [lead ++ text]

/-- The text of the summary, or `None` without a turn; it raises where it joins values that are not
strings (`transcript_parser.py:284-303`). -/
def Summary.text (s : Summary) : Option (Option String) :=
  if s.turnCount = 0 then some none
  else do
    let queries ← part "User queries: " s.userQueries fun texts ↦
      join "; " ((texts.rtake 5).map Slice.value)
    let examined ← part "Files examined: " s.filesExamined fun paths ↦
      (sortedTexts paths).map fun texts ↦ ", ".intercalate (texts.rtake 20)
    let modified ← part "Files modified: " s.filesModified fun paths ↦
      (sortedTexts paths).map fun texts ↦ ", ".intercalate (texts.rtake 10)
    let tools ← part "Tools used: " s.toolsUsed fun names ↦
      (sortedTexts names).map ", ".intercalate
    let action := if s.lastAction = "" then [] else ["Last action: " ++ s.lastAction]
    let response := s.assistantResponses.getLast?.toList.map fun text ↦
      "Last response excerpt: " ++ shown repr (text.take 500).value
    return some ("\n".intercalate (["Conversation had " ++ toString s.turnCount ++ " turns."] ++
      queries ++ examined ++ modified ++ tools ++ action ++ response))

end Recap

/-- What the lines of a transcript do to the summary for a session that starts again. -/
def recap (lines : List String) : Attempt Recap.Note :=
  .each (onLine loads (Recap.entry repr)) lines

/-- `extract_conversation_summary`, or `none` where it raises (`transcript_parser.py:207-303`). -/
def extractConversationSummary (lines : List String) : Option (Option String) :=
  if (recap repr loads lines).raised then some none
  else ((recap repr loads lines).out.foldl Recap.Summary.add {}).text repr

end Parsers

/-! ### What raises nothing -/

/-- A string. -/
def IsText (v : Json) : Prop := ∃ s, v = .str s

/-- A string or a list. -/
def Sliceable (v : Json) : Prop := IsText v ∨ ∃ items, v = .arr items

/-- A dict. -/
def IsDict (v : Json) : Prop := ∃ fields, v = .obj fields

/-- Neither a dict nor a list. -/
def Hashable (v : Json) : Prop := ¬ IsDict v ∧ ¬ ∃ items, v = .arr items

/-- The line is blank or no JSON, or its value can be read so. -/
def LineReads (loads : String → Loaded) (reads : Json → Prop) (line : String) : Prop :=
  Webhook.strip line.toList = [] ∨
    match loads (String.ofList (Webhook.strip line.toList)) with
    | .value v => reads v
    | .malformed => True
    | .raised => False

/-- The entry is a dict that is skipped, or that has a dict for its message, of which the content
can be read for the role. -/
def EntryReads (skipped : List String) (user assistant : Json → Prop) (entry : Json) : Prop :=
  ∃ fields : Payload, entry = .obj fields ∧
    ((skipped.any fun type ↦ (fields.value "type").eq (.str type)) = true ∨
      ∃ msg, getOr fields "message" (.obj []) = .obj msg ∧
        (roleOf fields msg = .str "user" → user (getOr msg "content" (.str ""))) ∧
          (roleOf fields msg = .str "assistant" → assistant (getOr msg "content" (.str ""))))

/-- If the content is a list, its dicts of this type can be read so. -/
def BlocksRead (type : String) (reads : Payload → Prop) (content : Json) : Prop :=
  ∀ blocks, content = .arr blocks → ∀ block, .obj block ∈ blocks →
    block.value "type" = .str type → reads block

/-- If the content of a tool result is a list, the texts in it are strings. -/
def ResultReads (block : Payload) : Prop :=
  ∀ inner, getOr block "content" (.str "") = .arr inner → ∀ v ∈ textsOf inner, IsText v

theorem isSome_slice {n : Nat} {v : Json} : (∃ t, slice n v = some t) ↔ Sliceable v := by
  cases v <;> simp [slice, Sliceable, IsText]

theorem dict?_eq_some {v : Json} {fields : Payload} : dict? v = some fields ↔ v = .obj fields := by
  cases v <;> simp [dict?]

theorem hashed_eq_some {v w : Json} : hashed v = some w ↔ Hashable v ∧ v = w := by
  cases v <;> simp [hashed, Hashable, IsDict]

theorem isSome_texts {values : List Json} :
    (∃ texts, values.mapM text? = some texts) ↔ ∀ v ∈ values, IsText v := by
  induction values with
  | nil => exact iff_of_true ⟨[], rfl⟩ (List.forall_mem_nil _)
  | cons v rest ih =>
    rw [List.forall_mem_cons, ← ih, List.mapM_cons]
    cases v with
    | str s => cases rest.mapM text? <;> simp [text?, IsText]
    | _ => simp [text?, IsText]

theorem isSome_join {separator : String} {values : List Json} :
    (∃ text, join separator values = some text) ↔ ∀ v ∈ values, IsText v := by
  rw [← isSome_texts, join]
  cases values.mapM text? <;> simp

theorem isSome_resultText (repr : Json → String) {block : Payload} :
    (∃ text, resultText repr block = some text) ↔ ResultReads block := by
  unfold resultText ResultReads
  split
  · next inner hinner =>
    rw [isSome_join, hinner]
    exact ⟨fun h _ heq ↦ Json.arr.inj heq ▸ h, fun h ↦ h inner rfl⟩
  · next hinner =>
    exact iff_of_true ⟨_, rfl⟩ fun inner heq ↦ (hinner inner heq).elim

section Raises

variable {E : Type} {loads : String → Loaded}

theorem not_raised_onLine {entry : Json → Attempt E} {reads : Json → Prop}
    (h : ∀ v, (entry v).raised = false ↔ reads v) (line : String) :
    (onLine loads entry line).raised = false ↔ LineReads loads reads line := by
  unfold onLine LineReads
  split
  · next hblank => exact iff_of_true rfl (Or.inl hblank)
  · next hblank =>
    rw [or_iff_right hblank]
    split
    · exact h _
    · exact iff_of_true rfl trivial
    · exact iff_of_false (Bool.false_ne_true ∘ Eq.symm) id

theorem not_raised_onEntry {skipped : List String} {user assistant : Json → Attempt E}
    {userReads assistantReads : Json → Prop}
    (huser : ∀ v, (user v).raised = false ↔ userReads v)
    (hassistant : ∀ v, (assistant v).raised = false ↔ assistantReads v) (entry : Json) :
    (onEntry skipped user assistant entry).raised = false ↔
      EntryReads skipped userReads assistantReads entry := by
  unfold onEntry EntryReads
  rw [Attempt.raised_eval]
  refine exists_congr fun fields ↦ and_congr (dict?_eq_some) ?_
  split
  · next hskipped => exact iff_of_true rfl (Or.inl hskipped)
  · next hskipped =>
    rw [or_iff_right hskipped, Attempt.raised_eval]
    refine exists_congr fun msg ↦ and_congr (dict?_eq_some) ?_
    split
    · next hrole =>
      rw [huser, hrole, eq_self, true_imp_iff, Json.str.injEq]
      exact (and_iff_left fun heq ↦ absurd heq (by decide)).symm
    · next hrole =>
      rw [hassistant, hrole, eq_self, true_imp_iff, Json.str.injEq]
      exact (and_iff_right fun heq ↦ absurd heq (by decide)).symm
    · next huser' hassistant' =>
      exact iff_of_true rfl ⟨fun hrole ↦ (huser' hrole).elim, fun hrole ↦ (hassistant' hrole).elim⟩

theorem not_raised_onBlock {byType : List (String × (Payload → Attempt E))} {v : Json} :
    (onBlock byType v).raised = false ↔ ∀ block : Payload, v = .obj block → ∀ type act,
      block.value "type" = .str type → byType.lookup type = some act →
        (act block).raised = false := by
  unfold onBlock
  split
  · next block =>
    split
    · next type htype =>
      constructor
      · intro h block' heq type' act htype' hact
        obtain rfl := Json.obj.inj heq
        obtain rfl := Json.str.inj (htype.symm.trans htype')
        rwa [hact] at h
      · intro h
        cases hact : byType.lookup type with
        | none => rfl
        | some act => exact h block rfl type act htype hact
    · next htype =>
      refine iff_of_true rfl fun block' heq type _ htype' ↦ ?_
      obtain rfl := Json.obj.inj heq
      exact (htype type htype').elim
  · next hdict => exact iff_of_true rfl fun block heq ↦ (hdict block heq).elim

theorem not_raised_blocks_nil (blocks : List Json) :
    (Attempt.each (onBlock ([] : List (String × (Payload → Attempt E)))) blocks).raised =
      false := by
  refine (Attempt.not_raised_each_iff _).mpr fun v _ ↦ not_raised_onBlock.mpr ?_
  intro block _ type act _ hact
  cases hact

/-- The blocks of one type, and those of the others. -/
theorem not_raised_blocks_cons {type : String} {act : Payload → Attempt E}
    {byType : List (String × (Payload → Attempt E))} (reads : Payload → Prop)
    (hact : ∀ block, (act block).raised = false ↔ reads block)
    (hnone : byType.lookup type = none) (blocks : List Json) :
    (Attempt.each (onBlock ((type, act) :: byType)) blocks).raised = false ↔
      BlocksRead type reads (.arr blocks) ∧
        (Attempt.each (onBlock byType) blocks).raised = false := by
  rw [Attempt.not_raised_each_iff, Attempt.not_raised_each_iff]
  constructor
  · intro h
    refine ⟨fun blocks' heq block hblock htype ↦ ?_, fun v hv ↦ not_raised_onBlock.mpr ?_⟩
    · obtain rfl := Json.arr.inj heq
      exact (hact block).mp (not_raised_onBlock.mp (h _ hblock) block rfl type act htype
        (by rw [List.lookup_cons, beq_self_eq_true]))
    · intro block hblock other found htype hfound
      refine not_raised_onBlock.mp (h v hv) block hblock other found htype ?_
      have hne : other ≠ type := fun heq ↦
        Option.some_ne_none found (hfound.symm.trans (heq ▸ hnone))
      rw [List.lookup_cons, beq_eq_false_iff_ne.mpr hne, hfound]
  · rintro ⟨hfirst, hrest⟩ v hv
    refine not_raised_onBlock.mpr ?_
    rintro block rfl other found htype hfound
    rw [List.lookup_cons] at hfound
    split at hfound
    · next heq =>
      cases hfound
      exact (hact block).mpr (hfirst blocks rfl block hv (eq_of_beq heq ▸ htype))
    · exact not_raised_onBlock.mp (hrest _ hv) block rfl other found htype hfound

/-- What is no list has no blocks. -/
theorem blocksRead_of_ne {type : String} {reads : Payload → Prop} {content : Json}
    (h : ∀ blocks, content ≠ .arr blocks) : BlocksRead type reads content :=
  fun blocks heq ↦ (h blocks heq).elim

end Raises

theorem blocksRead_trivial (type : String) (content : Json) :
    BlocksRead type (fun _ ↦ True) content := fun _ _ _ _ _ ↦ trivial

section Readable

variable {repr : Json → String} {f : Json.FloatText}

/-- What is done with the text of a tool result, if that raises nothing. -/
theorem not_raised_resultText {E : Type} {block : Payload} {act : String → Attempt E}
    (h : ∀ text, (act text).raised = false) :
    (Attempt.eval (resultText repr block) act).raised = false ↔ ResultReads block := by
  rw [Attempt.raised_eval, ← isSome_resultText repr]
  exact exists_congr fun text ↦ and_iff_left (h text)

theorem not_raised_slice {E : Type} {n : Nat} {v : Json} {act : Slice → Attempt E}
    (h : ∀ text, (act text).raised = false) :
    (Attempt.eval (slice n v) act).raised = false ↔ Sliceable v := by
  rw [Attempt.raised_eval, ← isSome_slice]
  exact exists_congr fun text ↦ and_iff_left (h text)

/-- The text of a block is a string or a list. -/
def TextSliceable (block : Payload) : Prop := Sliceable (getOr block "text" (.str ""))

theorem not_raised_textSlice {E : Type} {n : Nat} {block : Payload} {act : Slice → Attempt E}
    (h : ∀ text, (act text).raised = false) :
    (Attempt.eval (slice n (getOr block "text" (.str ""))) act).raised = false ↔
      TextSliceable block := not_raised_slice h

theorem not_raised_dict {E : Type} {v : Json} {act : Payload → Attempt E}
    (h : ∀ fields, (act fields).raised = false) :
    (Attempt.eval (dict? v) act).raised = false ↔ IsDict v := by
  rw [Attempt.raised_eval]
  exact exists_congr fun fields ↦ (and_iff_left (h fields)).trans dict?_eq_some

/-- A value that `extract_conversation` can read. -/
def Conversation.Reads : Json → Prop :=
  EntryReads ["queue-operation"] (BlocksRead "tool_result" ResultReads) fun _ ↦ True

theorem Conversation.not_raised_entry (v : Json) :
    (Conversation.entry repr f v).raised = false ↔ Conversation.Reads v := by
  refine not_raised_onEntry (fun content ↦ ?_) (fun content ↦ ?_) v
  · unfold Conversation.user
    split
    · next text => exact iff_of_true rfl (blocksRead_of_ne fun _ ↦ Json.noConfusion)
    · next blocks =>
      rw [not_raised_blocks_cons ResultReads (fun _ ↦ not_raised_resultText fun _ ↦ rfl) rfl,
        not_raised_blocks_cons (fun _ ↦ True) (fun _ ↦ iff_of_true rfl trivial) rfl]
      exact and_iff_left ⟨blocksRead_trivial _ _, not_raised_blocks_nil _⟩
    · next hother => exact iff_of_true rfl (blocksRead_of_ne hother)
  · unfold Conversation.assistant
    refine iff_of_true ?_ trivial
    split
    · next blocks =>
      rw [not_raised_blocks_cons (fun _ ↦ True) (fun _ ↦ iff_of_true rfl trivial) rfl,
        not_raised_blocks_cons (fun _ ↦ True) (fun _ ↦ iff_of_true rfl trivial) rfl]
      exact ⟨blocksRead_trivial _ _, blocksRead_trivial _ _, not_raised_blocks_nil _⟩
    · rfl

/-- An agent is called with a dict. -/
def AgentReads (block : Payload) : Prop :=
  getOr block "name" (.str "") = .str "Agent" → IsDict (getOr block "input" (.obj []))

/-- A value that `extract_retrospector_summary` can read. -/
def Retrospect.Reads : Json → Prop :=
  EntryReads ["queue-operation"]
    (fun content ↦ BlocksRead "tool_result" ResultReads content ∧
      BlocksRead "text" TextSliceable content)
    fun content ↦ BlocksRead "text" TextSliceable content ∧
      BlocksRead "tool_use" AgentReads content

theorem eq_str_iff {v : Json} {s : String} : v.eq (.str s) = true ↔ v = .str s := by
  cases v <;> simp [Json.eq, Json.number]

theorem Retrospect.not_raised_toolUse (block : Payload) :
    (Retrospect.toolUse repr f block).raised = false ↔ AgentReads block := by
  unfold Retrospect.toolUse AgentReads
  rw [Attempt.raised_andThen, Bool.or_eq_false_iff]
  refine (and_iff_left rfl).trans ?_
  split
  · next hagent =>
    rw [eq_str_iff] at hagent
    rw [Retrospect.agentCall, not_raised_dict fun _ ↦ rfl]
    exact (imp_iff_right hagent).symm
  · next hagent =>
    rw [eq_str_iff] at hagent
    exact iff_of_true rfl fun h ↦ (hagent h).elim

theorem Retrospect.not_raised_toolResult (block : Payload) :
    (Retrospect.toolResult repr block).raised = false ↔ ResultReads block := by
  refine not_raised_resultText fun text ↦ ?_
  split <;> rfl

theorem Retrospect.not_raised_entry (v : Json) :
    (Retrospect.entry repr f v).raised = false ↔ Retrospect.Reads v := by
  refine not_raised_onEntry (fun content ↦ ?_) (fun content ↦ ?_) v
  · unfold Retrospect.user
    split
    · next text =>
      exact iff_of_true rfl ⟨blocksRead_of_ne fun _ ↦ Json.noConfusion,
        blocksRead_of_ne fun _ ↦ Json.noConfusion⟩
    · next blocks =>
      rw [not_raised_blocks_cons ResultReads Retrospect.not_raised_toolResult rfl,
        not_raised_blocks_cons TextSliceable (fun _ ↦ not_raised_textSlice fun _ ↦ rfl) rfl,
        and_iff_left (not_raised_blocks_nil _)]
    · next hother => exact iff_of_true rfl ⟨blocksRead_of_ne hother, blocksRead_of_ne hother⟩
  · unfold Retrospect.assistant
    rw [Attempt.raised_andThen, Bool.or_eq_false_iff]
    refine (and_iff_right rfl).trans ?_
    split
    · next blocks =>
      rw [not_raised_blocks_cons TextSliceable (fun _ ↦ not_raised_textSlice fun _ ↦ rfl) rfl,
        not_raised_blocks_cons AgentReads Retrospect.not_raised_toolUse rfl,
        and_iff_left (not_raised_blocks_nil _)]
    · next hother => exact iff_of_true rfl ⟨blocksRead_of_ne hother, blocksRead_of_ne hother⟩

/-- The text of an answer has a length, and a slice unless it is empty. -/
def AnswerReads (block : Payload) : Prop :=
  Sliceable (getOr block "text" (.str "")) ∨ getOr block "text" (.str "") = .obj []

/-- The input of a tool for a file tells whether there is a path, and the path goes into a set. -/
def FileReads : Json → Prop
  | .obj fields => ∀ path, fields.lookup "file_path" = some path → Hashable path
  | .arr items => .str "file_path" ∉ items
  | .str s => occursIn "file_path" s = false
  | _ => False

/-- The name of a tool goes into a set, and its input is of the kind that is read for the name. -/
structure ToolReads (block : Payload) : Prop where
  name : Hashable (getOr block "name" (.str ""))
  file : ∀ tool ∈ ["Read", "Edit", "Write"], getOr block "name" (.str "") = .str tool →
    FileReads (getOr block "input" (.obj []))
  bash : getOr block "name" (.str "") = .str "Bash" → ∃ fields,
    getOr block "input" (.obj []) = .obj fields ∧ Sliceable (getOr fields "command" (.str ""))
  agent : getOr block "name" (.str "") = .str "Agent" → IsDict (getOr block "input" (.obj []))

/-- A value that `extract_conversation_summary` can read. -/
def Recap.Reads : Json → Prop :=
  EntryReads ["queue-operation"] (BlocksRead "text" TextSliceable)
    fun content ↦ BlocksRead "text" AnswerReads content ∧ BlocksRead "tool_use" ToolReads content

theorem Recap.not_raised_answerText (block : Payload) :
    (Recap.answerText block).raised = false ↔ AnswerReads block := by
  unfold Recap.answerText AnswerReads
  generalize getOr block "text" (.str "") = text
  rw [Attempt.raised_andThen, Bool.or_eq_false_iff, Attempt.raised_eval]
  cases text with
  | null | bool _ | int _ | float _ => simp [len, Sliceable, IsText]
  | str s =>
    refine iff_of_true ⟨?_, s.length, rfl, rfl⟩ (Or.inl (Or.inl ⟨s, rfl⟩))
    split <;> rfl
  | arr items =>
    refine iff_of_true ⟨?_, items.length, rfl, rfl⟩ (Or.inl (Or.inr ⟨items, rfl⟩))
    split <;> rfl
  | obj fields =>
    cases fields with
    | nil => exact iff_of_true ⟨rfl, 0, rfl, rfl⟩ (Or.inr rfl)
    | cons field rest =>
      refine iff_of_false (fun h ↦ ?_) ?_
      · exact Bool.false_ne_true h.1.symm
      · simp [Sliceable, IsText]

theorem Recap.not_raised_fileUse {note : Json → Recap.Note} {toolName : String} (input : Json) :
    (Recap.fileUse repr note toolName input).raised = false ↔ FileReads input := by
  unfold Recap.fileUse
  rw [Attempt.raised_eval]
  cases input with
  | null | bool _ | int _ | float _ => simp [contains, FileReads]
  | str s =>
    cases hfound : occursIn "file_path" s <;>
      simp [contains, FileReads, hfound, Attempt.eval, Attempt.puts, Attempt.raise, Json.get?]
  | arr items =>
    have hany : (items.any fun v ↦ v.eq (.str "file_path")) = true ↔ .str "file_path" ∈ items := by
      rw [List.any_eq_true]
      constructor
      · rintro ⟨v, hv, heq⟩
        exact eq_str_iff.mp heq ▸ hv
      · exact fun h ↦ ⟨_, h, eq_str_iff.mpr rfl⟩
    rw [FileReads, ← hany, contains]
    generalize (items.any fun v ↦ v.eq (.str "file_path")) = found
    cases found <;> simp [Attempt.eval, Attempt.puts, Attempt.raise, Json.get?]
  | obj fields =>
    rw [FileReads]
    cases hpath : fields.lookup "file_path" with
    | none => simp [contains, hpath, Attempt.puts]
    | some path =>
      simp only [contains, hpath, Json.get?, Option.isSome_some, Option.some.injEq, forall_eq',
        exists_eq_left', if_true, Option.bind_some, Attempt.raised_eval, hashed_eq_some]
      constructor
      · rintro ⟨_, h, _⟩
        exact h.1
      · exact fun h ↦ ⟨path, ⟨h, rfl⟩, rfl⟩

theorem Recap.not_raised_toolUse (block : Payload) :
    (Recap.toolUse repr block).raised = false ↔ ToolReads block := by
  unfold Recap.toolUse
  rw [Attempt.raised_eval]
  simp only [hashed_eq_some, Attempt.raised_andThen, Bool.or_eq_false_iff]
  constructor
  · rintro ⟨name, ⟨hhashed, rfl⟩, -, hname⟩
    refine ⟨hhashed, fun tool htool heq ↦ ?_, fun heq ↦ ?_, fun heq ↦ ?_⟩
    · rw [heq] at hname
      simp only [List.mem_cons, List.not_mem_nil, or_false] at htool
      rcases htool with rfl | rfl | rfl <;> exact (not_raised_fileUse _).mp hname
    · rw [heq] at hname
      obtain ⟨fields, hfields, hslice⟩ := Attempt.raised_eval.mp hname
      exact ⟨fields, dict?_eq_some.mp hfields, (not_raised_slice fun _ ↦ rfl).mp hslice⟩
    · rw [heq] at hname
      exact (not_raised_dict fun _ ↦ rfl).mp hname
  · intro h
    refine ⟨_, ⟨h.name, rfl⟩, rfl, ?_⟩
    split
    · next heq => exact (not_raised_fileUse _).mpr (h.file "Read" (by simp) heq)
    · next heq => exact (not_raised_fileUse _).mpr (h.file "Edit" (by simp) heq)
    · next heq => exact (not_raised_fileUse _).mpr (h.file "Write" (by simp) heq)
    · next heq =>
      obtain ⟨fields, hfields, hslice⟩ := h.bash heq
      exact Attempt.raised_eval.mpr
        ⟨fields, dict?_eq_some.mpr hfields, (not_raised_slice fun _ ↦ rfl).mpr hslice⟩
    · next heq => exact (not_raised_dict fun _ ↦ rfl).mpr (h.agent heq)
    · rfl

theorem Recap.not_raised_entry (v : Json) :
    (Recap.entry repr v).raised = false ↔ Recap.Reads v := by
  refine not_raised_onEntry (fun content ↦ ?_) (fun content ↦ ?_) v
  · unfold Recap.user
    split
    · next text => exact iff_of_true rfl (blocksRead_of_ne fun _ ↦ Json.noConfusion)
    · next blocks =>
      rw [not_raised_blocks_cons TextSliceable (fun _ ↦ not_raised_textSlice fun _ ↦ rfl) rfl,
        and_iff_left (not_raised_blocks_nil _)]
    · next hother => exact iff_of_true rfl (blocksRead_of_ne hother)
  · unfold Recap.assistant
    rw [Attempt.raised_andThen, Bool.or_eq_false_iff]
    refine (and_iff_right rfl).trans ?_
    split
    · next blocks =>
      rw [not_raised_blocks_cons AnswerReads Recap.not_raised_answerText rfl,
        not_raised_blocks_cons ToolReads Recap.not_raised_toolUse rfl,
        and_iff_left (not_raised_blocks_nil _)]
    · next hother => exact iff_of_true rfl ⟨blocksRead_of_ne hother, blocksRead_of_ne hother⟩

end Readable

end GithubAgent.Shared.Transcript
