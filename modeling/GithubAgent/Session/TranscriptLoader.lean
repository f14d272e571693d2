import GithubAgent.Shared.TranscriptLines

/-!
# Loading a transcript for the browser

`load_transcript_history` of `src/services/session_proxy/transcript_loader.py` makes the messages of
a session page from the lines of a transcript, in one `try` like the parsers of
`src/shared/transcript_parser.py`. The time of a message is given.
-/

namespace GithubAgent.Session.Loader

open GithubAgent.Base GithubAgent.Shared GithubAgent.Shared.Transcript

/-- `_extract_user_text`; a dict is gone through by its keys (`transcript_loader.py:236-247`). -/
def extractUserText : Json → Option String
  | .str content => some content
  | .arr blocks => join " "
      (((blocks.filterMap dict?).filter fun block ↦ (block.value "type").eq (.str "text")).map
        (getOr · "text" (.str "")))
  | .obj _ => some ""
  | _ => none

/-- A block for the browser, by its type. -/
def assistantBlock (block : Payload) : Option Json :=
  match block.value "type" with
  | .str "text" =>
    some (.obj [("type", .str "text"), ("text", getOr block "text" (.str ""))])
  | .str "tool_use" =>
    some (.obj [("type", .str "tool_use"), ("name", getOr block "name" (.str "")),
      ("input", getOr block "input" (.obj []))])
  | .str "thinking" => some (.obj [("type", .str "thinking")])
  | _ => none

/-- `_extract_assistant_blocks` (`transcript_loader.py:250-274`). -/
def extractAssistantBlocks : Json → Option (List Json)
  | .str content => some [.obj [("type", .str "text"), ("text", .str content)]]
  | .arr blocks => some ((blocks.filterMap dict?).filterMap assistantBlock)
  | .obj _ => some []
  | _ => none

section Loader

variable (loads : String → Loaded) (nowIso : String)

/-- A message for the browser. -/
def message (type : String) (content : Json) : Json :=
  .obj [("type", .str type), ("data", .obj [("content", content)]), ("ts", .str nowIso)]

/-- The messages of an entry (`transcript_loader.py:198-228`). -/
def entry : Json → Attempt Json :=
  onEntry ["queue-operation", "progress", "system"]
    (fun content ↦ .eval (extractUserText content) fun text ↦
      if text = "" then .puts [] else .puts [message nowIso "user_message" (.str text)])
    (fun content ↦ .eval (extractAssistantBlocks content) fun blocks ↦
      if blocks.isEmpty then .puts [] else .puts [message nowIso "assistant_message" (.arr blocks)])

/-- `load_transcript_history` (`transcript_loader.py:175-233`); an exception ends the messages. -/
def loadTranscriptHistory (lines : List String) : List Json :=
  (Attempt.each (onLine loads (entry nowIso)) lines).out

end Loader

/-- A content from which a text can be made: it can be gone through, and the texts in a list are
strings. -/
def UserReads (content : Json) : Prop :=
  (Sliceable content ∨ IsDict content) ∧
    BlocksRead "text" (fun block ↦ IsText (getOr block "text" (.str ""))) content

/-- A value that `load_transcript_history` can read. -/
def Reads : Json → Prop :=
  EntryReads ["queue-operation", "progress", "system"] UserReads fun content ↦
    Sliceable content ∨ IsDict content

theorem isSome_extractUserText {content : Json} :
    (∃ text, extractUserText content = some text) ↔ UserReads content := by
  cases content with
  | null | bool _ | int _ | float _ => simp [extractUserText, UserReads, Sliceable, IsText, IsDict]
  | str s =>
    exact iff_of_true ⟨s, rfl⟩
      ⟨Or.inl (Or.inl ⟨s, rfl⟩), blocksRead_of_ne fun _ ↦ Json.noConfusion⟩
  | obj fields =>
    exact iff_of_true ⟨"", rfl⟩ ⟨Or.inr ⟨fields, rfl⟩, blocksRead_of_ne fun _ ↦ Json.noConfusion⟩
  | arr blocks =>
    have hlist : Sliceable (.arr blocks) ∨ IsDict (.arr blocks) := Or.inl (Or.inr ⟨blocks, rfl⟩)
    rw [extractUserText, isSome_join, List.forall_mem_map, UserReads, and_iff_right hlist]
    constructor
    · rintro h blocks' heq block hblock htype
      obtain rfl := Json.arr.inj heq
      exact h block (List.mem_filter.mpr
        ⟨List.mem_filterMap.mpr ⟨.obj block, hblock, rfl⟩, eq_str_iff.mpr htype⟩)
    · rintro h block hblock
      obtain ⟨hmem, htype⟩ := List.mem_filter.mp hblock
      obtain ⟨v, hv, hdict⟩ := List.mem_filterMap.mp hmem
      exact h blocks rfl block (dict?_eq_some.mp hdict ▸ hv) (eq_str_iff.mp htype)

theorem isSome_extractAssistantBlocks {content : Json} :
    (∃ blocks, extractAssistantBlocks content = some blocks) ↔
      Sliceable content ∨ IsDict content := by
  cases content <;> simp [extractAssistantBlocks, Sliceable, IsText, IsDict]

theorem not_raised_entry {nowIso : String} (v : Json) :
    (entry nowIso v).raised = false ↔ Reads v := by
  refine not_raised_onEntry (fun content ↦ ?_) (fun content ↦ ?_) v
  · rw [Attempt.raised_eval, ← isSome_extractUserText]
    refine exists_congr fun text ↦ and_iff_left ?_
    split <;> rfl
  · rw [Attempt.raised_eval, ← isSome_extractAssistantBlocks]
    refine exists_congr fun blocks ↦ and_iff_left ?_
    split <;> rfl

/-! ### One line more -/

section Line

variable (repr : Json → String) (f : Json.FloatText) (loads : String → Loaded) (nowIso : String)
  (before : List String) (x : String) (behind : List String)

theorem keepsHistory_iff :
    KeepsRest (loadTranscriptHistory loads nowIso) before x behind ↔
      (∃ l ∈ before, ¬ LineReads loads Reads l) ∨ LineReads loads Reads x ∨
        Attempt.Silent (onLine loads (entry nowIso)) behind :=
  Attempt.keepsRest_iff_of (not_raised_onLine not_raised_entry) before x behind

/-- One line more costs each parser only itself if and only if the parser can read it, or its `try`
has already ended or will not miss anything. In the timeline, an answer also changes the numbers of
the turns behind it; and for the summary of a session the values that are joined have to be strings.
-/
theorem oneLineMore_iff :
    (KeepsRest (conversation repr f loads) before x behind ↔
      (∃ l ∈ before, ¬ LineReads loads Conversation.Reads l) ∨
        LineReads loads Conversation.Reads x ∨
          Attempt.Silent (onLine loads (Conversation.entry repr f)) behind) ∧
    (CostsOneLine (fun lines ↦ (retrospect repr f loads lines).out)
        (extractRetrospectorSummary repr f loads · = none) before x behind ↔
      ((∀ l ∈ before ++ behind, LineReads loads Retrospect.Reads l) →
        LineReads loads Retrospect.Reads x)) ∧
    (CostsOneLine (timeline repr f loads)
        (extractRetrospectorSummary repr f loads · = none) before x behind ↔
      ((∀ l ∈ before ++ behind, LineReads loads Retrospect.Reads l) →
        LineReads loads Retrospect.Reads x ∧
          (.turn ∈ (onLine loads (Retrospect.entry repr f) x).out → ∀ l ∈ behind,
            ∀ note ∈ (onLine loads (Retrospect.entry repr f) l).out, note.isListed = false))) ∧
    (CostsOneLine (fun lines ↦ (recap repr loads lines).out) (RecapFails repr loads) before x
        behind ↔
      ((∀ l ∈ before ++ behind, LineReads loads Recap.Reads l) →
        Recap.Told (recapNotes repr loads (before ++ behind)) →
          LineReads loads Recap.Reads x ∧
            Recap.Told (recapNotes repr loads (before ++ x :: behind)))) ∧
    (KeepsRest (loadTranscriptHistory loads nowIso) before x behind ↔
      (∃ l ∈ before, ¬ LineReads loads Reads l) ∨ LineReads loads Reads x ∨
        Attempt.Silent (onLine loads (entry nowIso)) behind) :=
  ⟨keepsConversation_iff repr f loads before x behind,
    costsRetrospect_iff repr f loads before x behind,
    costsTimeline_iff repr f loads before x behind, costsRecap_iff repr loads before x behind,
    keepsHistory_iff loads nowIso before x behind⟩

end Line

/-- A line `null` before the text of a user. -/
def nullThenText (text : String) : Loaded :=
  if text = "null" then .value .null
  else .value (.obj [("type", .str "user"), ("message", .obj [("content", .str "hi")])])

theorem not_reads_null {skipped : List String} {user assistant : Json → Prop} :
    ¬ LineReads nullThenText (EntryReads skipped user assistant) "null" := by
  rintro (hblank | ⟨fields, heq, _⟩)
  · exact absurd hblank (by decide)
  · exact Json.noConfusion heq

/-- The line of a user's text. -/
def hiLine : String := "\x7b\"type\": \"user\", \"message\": \x7b\"content\": \"hi\"\x7d\x7d"

theorem loads_hiLine : Webhook.strip hiLine.toList ≠ [] ∧
    nullThenText (String.ofList (Webhook.strip hiLine.toList)) =
      .value (.obj [("type", .str "user"), ("message", .obj [("content", .str "hi")])]) :=
  ⟨by decide, if_neg (by decide)⟩

/-- A parser that can read the text of a user can read its line. -/
theorem reads_hiLine {skipped : List String} {user assistant : Json → Prop}
    (huser : user (.str "hi")) :
    LineReads nullThenText (EntryReads skipped user assistant) hiLine := by
  refine Or.inr ?_
  rw [loads_hiLine.2]
  refine ⟨_, rfl, Or.inr ⟨_, rfl, fun _ ↦ huser, fun hrole ↦ ?_⟩⟩
  exact absurd (Json.str.inj hrole) (by decide)

/-- A parser that puts something out for the text of a user does so for its line. -/
theorem not_silent_hiLine {E : Type} {entry : Json → Attempt E}
    (h : (entry (.obj [("type", .str "user"), ("message", .obj [("content", .str "hi")])])).out ≠
      []) :
    ¬ Attempt.Silent (onLine nullThenText entry) [hiLine] := by
  rintro ⟨hout, _⟩
  rw [onLine, if_neg loads_hiLine.1, loads_hiLine.2] at hout
  exact h hout

/-- Behind a line `null`, all parsers lose the text of a user. -/
theorem not_oneLineMore_null :
    ¬ KeepsRest (conversation (fun _ ↦ "") ⟨fun _ ↦ [], fun _ ↦ List.forall_mem_nil _⟩ nullThenText)
      [] "null" [hiLine] ∧
    ¬ CostsOneLine (fun lines ↦ (retrospect (fun _ ↦ "")
        ⟨fun _ ↦ [], fun _ ↦ List.forall_mem_nil _⟩ nullThenText lines).out)
      (extractRetrospectorSummary (fun _ ↦ "") ⟨fun _ ↦ [], fun _ ↦ List.forall_mem_nil _⟩
        nullThenText · = none) [] "null" [hiLine] ∧
    ¬ CostsOneLine (fun lines ↦ (recap (fun _ ↦ "") nullThenText lines).out)
      (RecapFails (fun _ ↦ "") nullThenText) [] "null" [hiLine] ∧
    ¬ KeepsRest (loadTranscriptHistory nullThenText "") [] "null" [hiLine] := by
  refine ⟨?_, ?_, ?_, ?_⟩
  · rw [keepsConversation_iff]
    rintro (⟨l, hl, _⟩ | hreads | hsilent)
    · cases hl
    · exact not_reads_null hreads
    · exact not_silent_hiLine (List.cons_ne_nil _ _) hsilent
  · rw [costsRetrospect_iff]
    intro h
    refine not_reads_null (h (List.forall_mem_singleton.mpr (reads_hiLine ?_)))
    exact ⟨blocksRead_of_ne fun _ ↦ Json.noConfusion, blocksRead_of_ne fun _ ↦ Json.noConfusion⟩
  · rw [costsRecap_iff]
    intro h
    refine not_reads_null (h (List.forall_mem_singleton.mpr (reads_hiLine ?_)) ?_).1
    · exact blocksRead_of_ne fun _ ↦ Json.noConfusion
    · intro hturn
      rw [recapNotes, List.nil_append, List.flatMap_singleton, onLine, if_neg loads_hiLine.1,
        loads_hiLine.2] at hturn
      cases List.mem_singleton.mp hturn
  · rw [keepsHistory_iff]
    rintro (⟨l, hl, _⟩ | hreads | hsilent)
    · cases hl
    · exact not_reads_null hreads
    · exact not_silent_hiLine (List.cons_ne_nil _ _) hsilent

end GithubAgent.Session.Loader
