import GithubAgent.Base.Lists
import GithubAgent.Shared.Payload
import Mathlib.Data.List.TakeWhile
import Mathlib.Logic.Function.Basic

/-!
# Assembling turns

`build_turns` of `src/hooks/langfuse_hook.py`, and the numbering of the turns over the runs of the
hook. A row is a dict; Python's `str` on the ids of tool results is a parameter, and a dict whose
order is not read is a function to optional values.
-/

namespace GithubAgent.Hook.Turns

open GithubAgent.Base GithubAgent.Shared

/-- `Turn` (`langfuse_hook.py:384-388`). -/
structure Turn where
  userMsg : Payload
  assistantMsgs : List Payload
  toolResultsById : String → Option Json

/-! ### Rows -/

/-- The role of a row. -/
inductive Role where
  | user
  | assistant
  deriving DecidableEq

/-- `"user"` or `"assistant"`. -/
def roleOf : Option Json → Option Role
  | some (.str "user") => some .user
  | some (.str "assistant") => some .assistant
  | _ => none

/-- The field `message`, if it is a dict. -/
def message (msg : Payload) : Option Payload :=
  match msg.lookup "message" with
  | some (.obj fields) => some fields
  | _ => none

/-- `get_content` (`langfuse_hook.py:213-216`). -/
def getContent (msg : Payload) : Json :=
  match message msg with
  | some m => (m.lookup "content").getD .null
  | none => (msg.lookup "content").getD .null

/-- `get_role` (`langfuse_hook.py:219-229`). -/
def getRole (msg : Payload) : Option Role :=
  match roleOf (msg.lookup "type") with
  | some role => some role
  | none => (message msg).bind fun m ↦ roleOf (m.lookup "role")

/-- `x.get("type") == "tool_result"` of a content block, if it is a dict. -/
def toolResult? : Json → Option Payload
  | .obj fields =>
    match fields.lookup "type" with
    | some (.str "tool_result") => some fields
    | _ => none
  | _ => none

/-- `iter_tool_results` (`langfuse_hook.py:244-250`). -/
def iterToolResults : Json → List Payload
  | .arr items => items.filterMap toolResult?
  | _ => []

/-- `is_tool_result` (`langfuse_hook.py:232-241`). -/
def isToolResult (msg : Payload) : Bool :=
  getRole msg = some .user ∧ (iterToolResults (getContent msg)).isEmpty = false

/-- `get_message_id` (`langfuse_hook.py:300-306`). -/
def getMessageId (msg : Payload) : Option String :=
  match (message msg).bind (·.lookup "id") with
  | some (.str mid) => if mid = "" then none else some mid
  | _ => none

/-! ### The loop -/

/-- The variables of `build_turns`; `assistant_latest` has the keys of `assistant_order`. -/
structure Assembly where
  turns : List Turn
  currentUser : Option Payload
  assistantOrder : List String
  assistantLatest : String → Option Payload
  toolResultsById : String → Option Json

/-- No turn, and no user message yet. -/
def Assembly.start : Assembly := ⟨[], none, [], fun _ ↦ none, fun _ ↦ none⟩

/-- `flush_turn` (`langfuse_hook.py:410-427`). -/
def Assembly.flushTurn (s : Assembly) : List Turn :=
  match s.currentUser with
  | none => s.turns
  | some user =>
    if s.assistantOrder.isEmpty then s.turns
    else s.turns ++ [⟨user, s.assistantOrder.filterMap s.assistantLatest, s.toolResultsById⟩]

section Loop

variable (str : Json → String)

/-- The ids and contents of the tool results of a row (`langfuse_hook.py:434-437`). -/
def toolResultsOf (msg : Payload) : List (String × Json) :=
  (iterToolResults (getContent msg)).filterMap fun tr ↦
    match tr.lookup "tool_use_id" with
    | none => none
    | some tid => if tid.truthy then some (str tid, (tr.lookup "content").getD .null) else none

/-- One row (`langfuse_hook.py:429-460`). -/
def addRow (s : Assembly) (msg : Payload) : Assembly :=
  if isToolResult msg then
    { s with
      toolResultsById := (toolResultsOf str msg).foldl
        (fun results tr ↦ Function.update results tr.1 (some tr.2)) s.toolResultsById }
  else
    match getRole msg with
    | some .user => ⟨s.flushTurn, some msg, [], fun _ ↦ none, fun _ ↦ none⟩
    | some .assistant =>
      if s.currentUser.isNone then s
      else
        let mid := (getMessageId msg).getD s!"noid:{s.assistantOrder.length}"
        { s with
          assistantOrder :=
            if (s.assistantLatest mid).isNone then s.assistantOrder ++ [mid] else s.assistantOrder
          assistantLatest := Function.update s.assistantLatest mid (some msg) }
    | none => s

/-- `build_turns` (`langfuse_hook.py:391-464`). -/
def buildTurns (messages : List Payload) : List Turn :=
  (messages.foldl (addRow str) .start).flushTurn

/-- The turns of one run with their numbers, and the new `turn_count` (`langfuse_hook.py:675-704`;
a run without turns changes nothing). -/
def emitTurns (turnCount : Nat) (msgs : List Payload) : List (Nat × Turn) × Nat :=
  let turns := buildTurns str msgs
  (turns.zipIdx.map fun (t, i) ↦ (turnCount + (i + 1), t), turnCount + turns.length)

/-- The turns that the runs of the hook emit. -/
def emitRuns : Nat → List (List Payload) → List (Nat × Turn)
  | _, [] => []
  | turnCount, msgs :: rest =>
    (emitTurns str turnCount msgs).1 ++ emitRuns (emitTurns str turnCount msgs).2 rest

end Loop

/-! ### The segments of a list of rows -/

/-- The row begins a turn. -/
def isUserRow (msg : Payload) : Bool := !isToolResult msg && getRole msg == some .user

/-- The row is a part of the assistant's answer. -/
def isAssistantRow (msg : Payload) : Bool := !isToolResult msg && getRole msg == some .assistant

/-- The user rows, each with the rows up to the next one. -/
def segments : List Payload → List (Payload × List Payload)
  | [] => []
  | msg :: rest =>
    if isUserRow msg then (msg, rest.takeWhile fun m ↦ !isUserRow m) :: segments rest
    else segments rest

/-- The different ids of named rows, in order of first appearance. -/
def ids (rows : List (String × Payload)) : List String := dedupBy id [] (rows.map Prod.fst)

/-- One more row, with its id, or with a synthetic one, if it is the assistant's. -/
def addNamed (rows : List (String × Payload)) (msg : Payload) : List (String × Payload) :=
  if isAssistantRow msg then
    rows ++ [((getMessageId msg).getD s!"noid:{(ids rows).length}", msg)]
  else rows

/-- The assistant's rows with their ids. -/
def named (body : List Payload) : List (String × Payload) := body.foldl addNamed []

section Segments

variable (str : Json → String)

/-- The tool results, with the ids of the uses. -/
def results (body : List Payload) : List (String × Json) :=
  (body.filter isToolResult).flatMap (toolResultsOf str)

/-- The rows `later` change nothing in the turn of `body`: the turn has no assistant row, or the
last row of every message id and the last content of every tool use are in `body`. -/
def SameTurn (body later : List Payload) : Prop :=
  named (body ++ later) = [] ∨
    (∀ mid, dictGet (named (body ++ later)) mid = dictGet (named body) mid) ∧
      ∀ tid, dictGet (results str (body ++ later)) tid = dictGet (results str body) tid

/-- In every run, what the later runs bring up to the next user row does not change the last turn
that has begun. -/
def Settles : List (List Payload) → Prop
  | [] => True
  | msgs :: rest =>
    (∀ segment ∈ (segments msgs).getLast?,
      SameTurn str segment.2 (rest.flatten.takeWhile fun m ↦ !isUserRow m)) ∧ Settles rest

/-- The turn of a segment, if the assistant answers in it. -/
def turnOf (segment : Payload × List Payload) : Option Turn :=
  if (named segment.2).isEmpty then none
  else some ⟨segment.1, (ids (named segment.2)).filterMap (dictGet (named segment.2)),
    dictGet (results str segment.2)⟩

end Segments

/-! ### What the loop collects -/

section Collect

variable {str : Json → String}

theorem dictGet_concat {V : Type} (pairs : List (String × V)) (key : String) (value : V) :
    dictGet (pairs ++ [(key, value)]) = Function.update (dictGet pairs) key (some value) := by
  funext other
  rw [dictGet_append, dictGet_cons]
  by_cases hkey : other = key
  · subst hkey
    simp [dictGet]
  · simp [hkey, dictGet]

theorem foldl_update_dictGet (pairs more : List (String × Json)) :
    more.foldl (fun (all : String → Option Json) tr ↦ Function.update all tr.1 (some tr.2))
        (dictGet pairs) =
      dictGet (pairs ++ more) := by
  induction more generalizing pairs with
  | nil => rw [List.append_nil, List.foldl_nil]
  | cons pair more ih =>
    rw [List.foldl_cons, ← dictGet_concat, ih, List.append_assoc, List.singleton_append]

theorem mem_dedupBy_id {l seen : List String} {mid : String} (h : mid ∈ l) (hseen : mid ∉ seen) :
    mid ∈ dedupBy id seen l := by
  induction l generalizing seen with
  | nil => cases h
  | cons a l ih =>
    rw [dedupBy_cons]
    split
    · next ha =>
      rcases List.mem_cons.mp h with rfl | h
      · exact absurd ha hseen
      · exact ih h hseen
    · by_cases hmid : mid = a
      · rw [hmid]
        exact List.mem_cons_self
      · refine List.mem_cons_of_mem _ (ih ((List.mem_cons.mp h).resolve_left hmid) ?_)
        simpa [hmid] using hseen

/-- The ids are those that have a row. -/
theorem mem_ids {rows : List (String × Payload)} {mid : String} :
    mid ∈ ids rows ↔ dictGet rows mid ≠ none := by
  constructor
  · intro h
    obtain ⟨row, hrow, rfl⟩ := List.mem_map.mp (mem_of_mem_dedupBy h)
    exact dictGet_ne_none hrow
  · intro h
    obtain ⟨msg, hmsg⟩ := Option.ne_none_iff_exists'.mp h
    exact mem_dedupBy_id (List.mem_map.mpr ⟨_, mem_of_dictGet hmsg, rfl⟩) List.not_mem_nil

theorem ids_append (rows more : List (String × Payload)) :
    ids (rows ++ more) =
      ids rows ++ dedupBy id ((rows.map Prod.fst).map id ++ []) (more.map Prod.fst) := by
  rw [ids, List.map_append, dedupBy_append]
  rfl

theorem ids_concat (rows : List (String × Payload)) (mid : String) (msg : Payload) :
    ids (rows ++ [(mid, msg)]) =
      if (dictGet rows mid).isNone then ids rows ++ [mid] else ids rows := by
  have hmem : mid ∈ rows.map Prod.fst ↔ dictGet rows mid ≠ none := by
    rw [← mem_ids]
    exact ⟨fun h ↦ mem_dedupBy_id h List.not_mem_nil, mem_of_mem_dedupBy⟩
  rw [ids_append]
  cases hget : dictGet rows mid with
  | none =>
    have hnot : mid ∉ rows.map Prod.fst := fun h ↦ hmem.mp h hget
    simpa [dedupBy] using hnot
  | some found =>
    have hin : mid ∈ rows.map Prod.fst := hmem.mpr (by simp [hget])
    simpa [dedupBy] using hin

theorem named_concat (body : List Payload) (msg : Payload) :
    named (body ++ [msg]) = addNamed (named body) msg := by
  rw [named, List.foldl_append]
  rfl

theorem results_concat (body : List Payload) (msg : Payload) :
    results str (body ++ [msg]) =
      if isToolResult msg then results str body ++ toolResultsOf str msg else results str body := by
  rw [results, List.filter_append, List.flatMap_append]
  cases h : isToolResult msg <;> simp [h, results]

/-- The loop inside a turn. -/
theorem foldl_addRow (turns : List Turn) (user : Payload) (body : List Payload)
    (h : ∀ m ∈ body, isUserRow m = false) :
    body.foldl (addRow str) ⟨turns, some user, [], fun _ ↦ none, fun _ ↦ none⟩ =
      ⟨turns, some user, ids (named body), dictGet (named body), dictGet (results str body)⟩ := by
  induction body using List.reverseRecOn with
  | nil => rfl
  | append_singleton body msg ih =>
    rw [List.foldl_append, ih fun m hm ↦ h m (List.mem_append_left _ hm), List.foldl_cons,
      List.foldl_nil, named_concat, results_concat, addRow, addNamed, isAssistantRow]
    have huser := h msg (List.mem_append_right _ List.mem_cons_self)
    cases htool : isToolResult msg with
    | true => simp [foldl_update_dictGet]
    | false =>
      rw [isUserRow, htool] at huser
      cases hrole : getRole msg with
      | none => simp
      | some role =>
        cases role with
        | user => simp [hrole] at huser
        | assistant =>
          simp only [Bool.false_eq_true, if_false, Option.isNone_some, Bool.not_false, Bool.true_and,
            beq_self_eq_true, if_true]
          rw [ids_concat, dictGet_concat]

theorem ids_isEmpty (rows : List (String × Payload)) : (ids rows).isEmpty = rows.isEmpty := by
  cases rows <;> rfl

/-- What the end of a turn adds. -/
theorem flushTurn_segment (turns : List Turn) (user : Payload) (body : List Payload)
    (h : ∀ m ∈ body, isUserRow m = false) :
    (body.foldl (addRow str) ⟨turns, some user, [], fun _ ↦ none, fun _ ↦ none⟩).flushTurn =
      turns ++ (turnOf str (user, body)).toList := by
  rw [foldl_addRow turns user body h, Assembly.flushTurn, turnOf, ids_isEmpty]
  cases (named body).isEmpty <;> simp

theorem isUserRow_of_mem_takeWhile {rows : List Payload} {m : Payload}
    (h : m ∈ rows.takeWhile fun m ↦ !isUserRow m) : isUserRow m = false := by
  have hnot := List.mem_takeWhile_imp (p := fun m ↦ !isUserRow m) h
  simpa using hnot

/-- A user row ends the turn before it and begins the next one. -/
theorem addRow_user {msg : Payload} (s : Assembly) (h : isUserRow msg = true) :
    addRow str s msg = ⟨s.flushTurn, some msg, [], fun _ ↦ none, fun _ ↦ none⟩ := by
  rw [isUserRow, Bool.and_eq_true, Bool.not_eq_true', beq_iff_eq] at h
  rw [addRow, h.1, h.2]
  rfl

/-- The rows up to the first user row belong to the turn that is open. -/
theorem flushTurn_foldl (rows : List Payload) (s : Assembly) :
    (rows.foldl (addRow str) s).flushTurn =
      ((rows.takeWhile fun m ↦ !isUserRow m).foldl (addRow str) s).flushTurn ++
        (segments rows).filterMap (turnOf str) := by
  induction rows generalizing s with
  | nil => simp [segments]
  | cons msg rest ih =>
    rw [List.foldl_cons, ih, segments, List.takeWhile_cons]
    cases huser : isUserRow msg with
    | true =>
      rw [addRow_user s huser, flushTurn_segment _ _ _ fun m ↦ isUserRow_of_mem_takeWhile]
      simp only [Bool.not_true, Bool.false_eq_true, if_false, if_true, List.foldl_nil,
        List.filterMap_cons, List.append_assoc]
      cases turnOf str (msg, rest.takeWhile fun m ↦ !isUserRow m) <;> rfl
    | false => simp

/-- Other rows leave the list of turns and the user message. -/
theorem addRow_other (str : Json → String) {msg : Payload} (s : Assembly)
    (h : isUserRow msg = false) :
    (addRow str s msg).turns = s.turns ∧ (addRow str s msg).currentUser = s.currentUser := by
  rw [addRow]
  split
  · exact ⟨rfl, rfl⟩
  · next htool =>
    split
    · next hrole => simp [isUserRow, htool, hrole] at h
    · split <;> exact ⟨rfl, rfl⟩
    · exact ⟨rfl, rfl⟩

/-- Rows before the first user row make no turn. -/
theorem flushTurn_prelude (rows : List Payload) (h : ∀ m ∈ rows, isUserRow m = false)
    {s : Assembly} (hturns : s.turns = []) (huser : s.currentUser = none) :
    (rows.foldl (addRow str) s).flushTurn = [] := by
  induction rows generalizing s with
  | nil => rw [List.foldl_nil, Assembly.flushTurn, huser, hturns]
  | cons msg rest ih =>
    obtain ⟨hturns', huser'⟩ := addRow_other str s (h msg List.mem_cons_self)
    exact ih (fun m hm ↦ h m (List.mem_cons_of_mem _ hm)) (hturns'.trans hturns)
      (huser'.trans huser)

/-- The turns are those of the segments. -/
theorem buildTurns_eq (rows : List Payload) :
    buildTurns str rows = (segments rows).filterMap (turnOf str) := by
  rw [buildTurns, flushTurn_foldl,
    flushTurn_prelude _ (fun m ↦ isUserRow_of_mem_takeWhile) rfl rfl, List.nil_append]

end Collect

/-! ### Turns over several runs -/

section Runs

variable {str : Json → String}

/-- The rows after a user row are not part of the segments before it. -/
theorem segments_append_user (before : List Payload) {user : Payload} (rest : List Payload)
    (h : isUserRow user = true) : segments (before ++ user :: rest) =
      segments before ++ (user, rest.takeWhile fun m ↦ !isUserRow m) :: segments rest := by
  induction before with
  | nil => simp [segments, h]
  | cons msg before ih =>
    rw [List.cons_append, segments, segments, ih]
    split
    · have hstop : (before ++ user :: rest).takeWhile (fun m ↦ !isUserRow m) =
          before.takeWhile fun m ↦ !isUserRow m := by
        rw [List.takeWhile_append]
        split
        · next hall =>
          rw [List.takeWhile_cons_of_neg (by simp [h]), List.append_nil]
          exact (List.takeWhile_prefix _).eq_of_length hall |>.symm
        · rfl
      rw [hstop, List.cons_append]
    · rfl

/-- Rows without a user row are not part of a new segment. -/
theorem segments_append_other {body : List Payload} (rest : List Payload)
    (h : ∀ m ∈ body, isUserRow m = false) : segments (body ++ rest) = segments rest := by
  induction body with
  | nil => rfl
  | cons msg body ih =>
    rw [List.cons_append, segments, if_neg (by simp [h msg List.mem_cons_self]),
      ih fun m hm ↦ h m (List.mem_cons_of_mem _ hm)]

theorem takeWhile_append_other {body : List Payload} (rest : List Payload)
    (h : ∀ m ∈ body, isUserRow m = false) : (body ++ rest).takeWhile (fun m ↦ !isUserRow m) =
      body ++ rest.takeWhile fun m ↦ !isUserRow m :=
  List.takeWhile_append_of_pos fun m hm ↦ by simp [h m hm]

/-- The rows of a run hold no user row, or a last one. -/
theorem exists_last_user (msgs : List Payload) :
    (∀ m ∈ msgs, isUserRow m = false) ∨ ∃ before user body, msgs = before ++ user :: body ∧
      isUserRow user = true ∧ ∀ m ∈ body, isUserRow m = false := by
  induction msgs with
  | nil => exact .inl nofun
  | cons msg msgs ih =>
    obtain hnone | ⟨before, user, body, rfl, huser, hbody⟩ := ih
    · cases hmsg : isUserRow msg with
      | true => exact .inr ⟨[], msg, msgs, rfl, hmsg, hnone⟩
      | false =>
        refine .inl fun m hm ↦ ?_
        rcases List.mem_cons.mp hm with rfl | hm
        · exact hmsg
        · exact hnone m hm
    · exact .inr ⟨msg :: before, user, body, rfl, huser, hbody⟩

/-- What a run emits, and what one run over it and later rows would emit: only the last turn that
has begun may differ. -/
theorem buildTurns_append (str : Json → String) (msgs : List Payload) :
    (segments msgs = [] ∧ buildTurns str msgs = [] ∧
      ∀ later, buildTurns str (msgs ++ later) = buildTurns str later) ∨
    ∃ turns user body, (segments msgs).getLast? = some (user, body) ∧
      buildTurns str msgs = turns ++ (turnOf str (user, body)).toList ∧
      ∀ later, buildTurns str (msgs ++ later) = turns ++
        (turnOf str (user, body ++ later.takeWhile fun m ↦ !isUserRow m)).toList ++
          buildTurns str later := by
  obtain hnone | ⟨before, user, body, rfl, huser, hbody⟩ := exists_last_user msgs
  · have hsegments : segments msgs = [] := by
      have happ := segments_append_other [] hnone
      rwa [List.append_nil] at happ
    refine .inl ⟨hsegments, by rw [buildTurns_eq, hsegments]; rfl, fun later ↦ ?_⟩
    rw [buildTurns_eq, buildTurns_eq, segments_append_other later hnone]
  · have hall (later : List Payload) : segments (before ++ user :: body ++ later) = segments before ++
        (user, body ++ later.takeWhile fun m ↦ !isUserRow m) :: segments later := by
      rw [List.append_assoc, List.cons_append, segments_append_user before _ huser,
        takeWhile_append_other later hbody, segments_append_other later hbody]
    have hself := hall []
    rw [List.append_nil, List.takeWhile_nil, List.append_nil] at hself
    refine .inr ⟨(segments before).filterMap (turnOf str), user, body, ?_, ?_, fun later ↦ ?_⟩
    · rw [hself]
      simp [segments]
    · rw [buildTurns_eq, hself, List.filterMap_append]
      cases hturn : turnOf str (user, body) <;> simp [segments, hturn]
    · rw [buildTurns_eq, buildTurns_eq, hall, List.filterMap_append, List.append_assoc]
      cases hturn : turnOf str (user, body ++ later.takeWhile fun m ↦ !isUserRow m) <;>
        simp [hturn]

theorem named_append (body later : List Payload) :
    ∃ more, named (body ++ later) = named body ++ more := by
  induction later using List.reverseRecOn with
  | nil => exact ⟨[], by rw [List.append_nil, List.append_nil]⟩
  | append_singleton later msg ih =>
    obtain ⟨more, hmore⟩ := ih
    rw [← List.append_assoc, named_concat, hmore, addNamed]
    split
    · exact ⟨_, List.append_assoc _ _ _⟩
    · exact ⟨more, rfl⟩

/-- More rows do not take a turn away. -/
theorem turnOf_append (str : Json → String) (user : Payload) (body later : List Payload) :
    (turnOf str (user, body)).toList.length ≤ (turnOf str (user, body ++ later)).toList.length := by
  obtain ⟨more, hmore⟩ := named_append body later
  simp only [turnOf, hmore]
  cases named body with
  | nil => exact Nat.zero_le _
  | cons => exact Nat.le_refl _

/-- Every id has a row. -/
theorem map_some_filterMap_ids (rows : List (String × Payload)) :
    ((ids rows).filterMap (dictGet rows)).map some = (ids rows).map (dictGet rows) := by
  have hall : ∀ mid ∈ ids rows, dictGet rows mid ≠ none := fun mid ↦ mem_ids.mp
  generalize ids rows = l at hall
  induction l with
  | nil => rfl
  | cons mid l ih =>
    obtain ⟨msg, hmsg⟩ := Option.ne_none_iff_exists'.mp (hall mid List.mem_cons_self)
    rw [List.filterMap_cons, hmsg, List.map_cons, List.map_cons, hmsg,
      ih fun x hx ↦ hall x (List.mem_cons_of_mem _ hx)]

theorem dedupBy_eq_nil {seen l : List String} (h : ∀ a ∈ l, a ∈ seen) :
    dedupBy id seen l = [] := by
  induction l with
  | nil => rfl
  | cons a l ih =>
    have ha : id a ∈ seen := h a List.mem_cons_self
    rw [dedupBy_cons, if_pos ha, ih fun b hb ↦ h b (List.mem_cons_of_mem _ hb)]

/-- The messages stay the same exactly if the last row of every id does. -/
theorem messages_eq_iff (rows more : List (String × Payload)) :
    (ids rows).filterMap (dictGet rows) =
        (ids (rows ++ more)).filterMap (dictGet (rows ++ more)) ↔
      ∀ mid, dictGet (rows ++ more) mid = dictGet rows mid := by
  constructor
  · intro heq mid
    have hmap := congrArg (List.map some) heq
    rw [map_some_filterMap_ids, map_some_filterMap_ids] at hmap
    have hids : ids (rows ++ more) = ids rows := by
      obtain ⟨extra, hextra⟩ : ∃ extra, ids (rows ++ more) = ids rows ++ extra :=
        ⟨_, ids_append rows more⟩
      have hlen := congrArg List.length hmap
      rw [List.length_map, List.length_map, hextra, List.length_append] at hlen
      obtain rfl : extra = [] := List.eq_nil_of_length_eq_zero (by omega)
      rw [hextra, List.append_nil]
    rw [hids, List.map_inj_left] at hmap
    by_cases hmid : mid ∈ ids rows
    · exact (hmap mid hmid).symm
    · have hold : dictGet rows mid = none := by
        by_contra hsome
        exact hmid (mem_ids.mpr hsome)
      have hnew : dictGet (rows ++ more) mid = none := by
        by_contra hsome
        exact hmid (hids ▸ mem_ids.mpr hsome)
      rw [hold, hnew]
  · intro hget
    have hids : ids (rows ++ more) = ids rows := by
      rw [ids_append, dedupBy_eq_nil, List.append_nil]
      intro mid hmid
      obtain ⟨row, hrow, rfl⟩ := List.mem_map.mp hmid
      have hsome : dictGet rows row.1 ≠ none := by
        rw [← hget]
        exact dictGet_ne_none (List.mem_append_right rows hrow)
      rw [List.append_nil, List.map_id]
      exact mem_of_mem_dedupBy (mem_ids.mpr hsome)
    rw [hids, funext hget]

/-- The last turn that has begun is the same with the later rows exactly if they do not change
it. -/
theorem turnOf_eq_iff (user : Payload) (body later : List Payload) :
    turnOf str (user, body) = turnOf str (user, body ++ later) ↔ SameTurn str body later := by
  obtain ⟨more, hmore⟩ := named_append body later
  rw [SameTurn, hmore, ← messages_eq_iff]
  simp only [turnOf, hmore]
  cases hbody : named body with
  | nil =>
    cases more with
    | nil => simp
    | cons row more =>
      -- a turn that only the later rows make
      have hfirst : dictGet (row :: more) row.1 ≠ none := dictGet_ne_none List.mem_cons_self
      rw [messages_eq_iff]
      simp only [List.nil_append, List.isEmpty_nil, if_true, List.isEmpty_cons, Bool.false_eq_true,
        if_false, reduceCtorEq, false_or, false_iff, not_and]
      intro hsame
      exact absurd (hsame row.1) hfirst
  | cons row rows =>
    simp only [List.cons_append, List.isEmpty_cons, Bool.false_eq_true, if_false, Option.some.injEq,
      Turn.mk.injEq, true_and, reduceCtorEq, false_or]
    refine and_congr_right fun _ ↦ ?_
    rw [eq_comm, funext_iff]

theorem length_flatMap_le (str : Json → String) (runs : List (List Payload)) :
    (runs.flatMap (buildTurns str)).length ≤ (buildTurns str runs.flatten).length := by
  induction runs with
  | nil => exact Nat.zero_le _
  | cons msgs rest ih =>
    rw [List.flatMap_cons, List.flatten_cons, List.length_append]
    obtain ⟨-, hnone, hlater⟩ | ⟨turns, user, body, -, hself, hlater⟩ :=
      buildTurns_append str msgs
    · rw [hnone, hlater, List.length_nil, Nat.zero_add]
      exact ih
    · have hturn := turnOf_append str user body
        (rest.flatten.takeWhile fun m ↦ !isUserRow m)
      rw [hself, hlater]
      simp only [List.length_append]
      omega

theorem toList_injective {A : Type} {o o' : Option A} (h : o.toList = o'.toList) : o = o' := by
  cases o <;> cases o' <;> simp_all

/-- The turns of the runs are those of one run exactly if the runs settle. -/
theorem flatMap_buildTurns_eq_iff (runs : List (List Payload)) :
    runs.flatMap (buildTurns str) = buildTurns str runs.flatten ↔ Settles str runs := by
  induction runs with
  | nil => exact iff_of_true rfl trivial
  | cons msgs rest ih =>
    rw [List.flatMap_cons, List.flatten_cons, Settles, ← ih]
    obtain ⟨hsegments, hnone, hlater⟩ | ⟨turns, user, body, hsegments, hself, hlater⟩ :=
      buildTurns_append str msgs
    · rw [hnone, hlater, hsegments, List.nil_append]
      simp
    · have hlast : (∀ segment ∈ (segments msgs).getLast?, SameTurn str segment.2
          (rest.flatten.takeWhile fun m ↦ !isUserRow m)) ↔
            turnOf str (user, body) = turnOf str
              (user, body ++ rest.flatten.takeWhile fun m ↦ !isUserRow m) := by
        rw [hsegments, turnOf_eq_iff]
        simp
      have hle := length_flatMap_le str rest
      have hturn := turnOf_append str user body
        (rest.flatten.takeWhile fun m ↦ !isUserRow m)
      rw [hlast, hself, hlater, List.append_assoc, List.append_assoc, List.append_cancel_left_eq]
      constructor
      · intro heq
        have hlen := congrArg List.length heq
        simp only [List.length_append] at hlen
        obtain ⟨hfirst, hrest⟩ := List.append_inj heq (by omega)
        exact ⟨toList_injective hfirst, hrest⟩
      · rintro ⟨hfirst, hrest⟩
        rw [hfirst, hrest]

/-- The turns of all runs are numbered one after the other. -/
theorem emitRuns_eq (turnCount : Nat) (runs : List (List Payload)) :
    emitRuns str turnCount runs = (runs.flatMap (buildTurns str)).zipIdx.map
      fun (t, i) ↦ (turnCount + (i + 1), t) := by
  induction runs generalizing turnCount with
  | nil => rfl
  | cons msgs rest ih =>
    rw [emitRuns, ih, List.flatMap_cons, List.zipIdx_append, List.map_append, emitTurns,
      Nat.zero_add, List.zipIdx_eq_map_add (i := (buildTurns str msgs).length), List.map_map]
    congr 1
    refine List.map_congr_left fun t _ ↦ ?_
    simp only [Function.comp_apply, Prod.mk.injEq, and_true]
    omega

/-- What the runs emit is what one run would emit exactly if the runs settle; the numbers are
1, 2, 3, .. in any case. -/
theorem emitRuns_eq_iff (str : Json → String) (runs : List (List Payload)) :
    (emitRuns str 0 runs = (emitTurns str 0 runs.flatten).1 ↔ Settles str runs) ∧
      (emitRuns str 0 runs).map Prod.fst = List.range' 1 (emitRuns str 0 runs).length := by
  have hone : (emitTurns str 0 runs.flatten).1 = emitRuns str 0 [runs.flatten] := by
    rw [emitRuns, emitRuns, List.append_nil]
  have hnumbers (turns : List Turn) :
      (turns.zipIdx.map fun (t, i) ↦ (0 + (i + 1), t)).map Prod.fst =
      List.range' 1 (turns.zipIdx.map fun (t, i) ↦ (0 + (i + 1), t)).length := by
    rw [List.map_map, List.length_map, List.length_zipIdx]
    calc turns.zipIdx.map (Prod.fst ∘ fun (t, i) ↦ (0 + (i + 1), t))
        = (turns.zipIdx.map Prod.snd).map (1 + ·) := by
          rw [List.map_map]
          exact List.map_congr_left fun t _ ↦ by simp only [Function.comp_apply]; omega
      _ = List.range' 1 turns.length := by rw [List.zipIdx_map_snd, List.map_add_range']
  have hturns (turns : List Turn) :
      (turns.zipIdx.map fun (t, i) ↦ (0 + (i + 1), t)).map Prod.snd = turns := by
    rw [List.map_map]
    exact List.zipIdx_map_fst 0 turns
  rw [hone, emitRuns_eq, emitRuns_eq, ← flatMap_buildTurns_eq_iff]
  refine ⟨⟨fun heq ↦ ?_, fun heq ↦ ?_⟩, hnumbers _⟩
  · have hsnd := congrArg (List.map Prod.snd) heq
    rwa [hturns, hturns, List.flatMap_cons, List.flatMap_nil, List.append_nil] at hsnd
  · rw [heq, List.flatMap_cons, List.flatMap_nil, List.append_nil]

end Runs

/-- `str` on the values that are ids. -/
def strOfText : Json → String
  | .str s => s
  | _ => ""

/-- A question in one run of the hook and its answer in the next. -/
theorem not_emitRuns_eq :
    emitRuns strOfText 0 [[[("type", .str "user"), ("content", .str "Hi")]],
        [[("type", .str "assistant"), ("content", .str "Hello")]]] = [] ∧
      (emitTurns strOfText 0 [[("type", .str "user"), ("content", .str "Hi")],
        [("type", .str "assistant"), ("content", .str "Hello")]]).1 ≠ [] := by
  constructor
  · rfl
  · intro h
    have hlen := congrArg List.length h
    revert hlen
    decide +kernel

end GithubAgent.Hook.Turns
