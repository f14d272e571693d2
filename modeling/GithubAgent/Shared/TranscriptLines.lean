import GithubAgent.Base.Separators
import GithubAgent.Shared.TranscriptParser

/-!
# A transcript with one line more

What a line does to the parsers of `src/shared/transcript_parser.py` that follow it: to the lines of
the conversation, to the summary for the retrospector, and to the one for a session that starts
again.
-/

namespace GithubAgent.Shared.Transcript

open GithubAgent.Base

/-- Of a parser that may fail: it does not fail for one line more, and the other lines give what
they do without it. -/
def CostsOneLine {E : Type} (g : List String → List E) (fails : List String → Prop)
    (before : List String) (x : String) (behind : List String) : Prop :=
  ¬ fails (before ++ behind) → ¬ fails (before ++ x :: behind) ∧ KeepsRest g before x behind

section Fails

variable {E : Type} {f : String → Attempt E} {fails : List String → Prop} {reads : String → Prop}
  {told : List String → Prop}

/-- Where a parser fails for lines that it cannot read, or that give what it cannot tell, a line
costs only itself if it can be read and the whole can be told. -/
theorem costsOneLine_iff (hreads : ∀ l, (f l).raised = false ↔ reads l)
    (hfails : ∀ lines, ¬ fails lines ↔ (∀ l ∈ lines, reads l) ∧ told lines)
    (before : List String) (x : String) (behind : List String) :
    CostsOneLine (fun lines ↦ (Attempt.each f lines).out) fails before x behind ↔
      ((∀ l ∈ before ++ behind, reads l) → told (before ++ behind) →
        reads x ∧ told (before ++ x :: behind)) := by
  have hinsert : (∀ l ∈ before ++ x :: behind, reads l) ↔
      reads x ∧ ∀ l ∈ before ++ behind, reads l := by
    simp only [List.forall_mem_append, List.forall_mem_cons]
    exact and_left_comm
  rw [CostsOneLine, hfails, hfails, hinsert, Attempt.keepsRest_iff_of hreads, and_imp]
  refine imp_congr_right fun hbase ↦ imp_congr_right fun _ ↦ ?_
  constructor
  · rintro ⟨⟨⟨hx, _⟩, htold⟩, _⟩
    exact ⟨hx, htold⟩
  · rintro ⟨hx, htold⟩
    exact ⟨⟨⟨hx, hbase⟩, htold⟩, Or.inr (Or.inl hx)⟩

end Fails

/-! ### The numbers of the turns -/

namespace Retrospect

/-- A note that gets a line of the timeline. -/
def Note.isListed : Note → Bool
  | .line _ _ | .error _ _ => true
  | .turn | .subagent _ => false

/-- The lines of the timeline for notes, from this turn on. -/
def listed (turn : Nat) : List Note → List String
  | [] => []
  | .turn :: rest => listed (turn + 1) rest
  | .line lead text :: rest => numbered turn lead text :: listed turn rest
  | .error _ text :: rest => numbered turn "" ("Tool ERROR: " ++ text) :: listed turn rest
  | .subagent _ :: rest => listed turn rest

/-- The number of turns in notes. -/
def turns : List Note → Nat
  | [] => 0
  | .turn :: rest => turns rest + 1
  | _ :: rest => turns rest

theorem turns_eq_zero_iff (notes : List Note) : turns notes = 0 ↔ .turn ∉ notes := by
  induction notes with
  | nil => exact iff_of_true rfl List.not_mem_nil
  | cons note rest ih => cases note <;> simp [turns, ih]

theorem turns_append (notes more : List Note) :
    turns (notes ++ more) = turns notes + turns more := by
  induction notes with
  | nil => exact (Nat.zero_add _).symm
  | cons note rest ih => cases note <;> simp [turns, ih, Nat.add_right_comm]

theorem lines_foldl_add (notes : List Note) (s : Summary) :
    (notes.foldl Summary.add s).lines = s.lines ++ listed s.turnCount notes ∧
      (notes.foldl Summary.add s).turnCount = s.turnCount + turns notes := by
  induction notes generalizing s with
  | nil => exact ⟨(List.append_nil _).symm, rfl⟩
  | cons note rest ih =>
    rw [List.foldl_cons, (ih _).1, (ih _).2]
    cases note <;> simp [Summary.add, listed, turns, Nat.add_assoc, Nat.add_comm 1]

/-- A number is read off a line. -/
theorem numbered_inj {m n : Nat} {lead text : String}
    (h : numbered m lead text = numbered n lead text) : m = n := by
  have htext := congrArg String.toList h
  simp only [numbered, String.toList_append, List.append_assoc, List.append_cancel_left_eq] at htext
  simp only [← List.append_assoc, List.append_cancel_right_eq] at htext
  exact repr_injective (String.toList_inj.mp htext)

/-- With two numbers to start from, the lines are the same only if there are none. -/
theorem listed_eq_listed_iff {m n : Nat} (h : m ≠ n) (notes : List Note) :
    listed m notes = listed n notes ↔ ∀ note ∈ notes, note.isListed = false := by
  induction notes generalizing m n with
  | nil => exact iff_of_true rfl (List.forall_mem_nil _)
  | cons note rest ih =>
    rw [List.forall_mem_cons]
    cases note with
    | turn => exact (ih (by omega)).trans (and_iff_right rfl).symm
    | subagent name => exact (ih h).trans (and_iff_right rfl).symm
    | line lead text | error lead text =>
      refine iff_of_false (fun heq ↦ ?_) fun hlisted ↦ Bool.false_ne_true hlisted.1.symm
      exact h (numbered_inj (List.cons_eq_cons.mp heq).1)

end Retrospect

/-! ### What the summary of a session can tell -/

namespace Recap

/-- A name or a path that can be joined. -/
def Note.IsTold : Note → Prop
  | .tool v | .examined v | .modified v => IsText v
  | _ => True

/-- What a user wrote. -/
def Note.query? : Note → Option Slice
  | .query text => some text
  | _ => none

/-- If there is a turn, the names, the paths and the last five texts of users can be joined. -/
def Told (notes : List Note) : Prop :=
  .turn ∈ notes → (∀ note ∈ notes, note.IsTold) ∧
    ∀ text ∈ (notes.filterMap Note.query?).rtake 5, IsText text.value

/-- The values of the sets are strings. -/
def Summary.AllTexts (s : Summary) : Prop :=
  (∀ v ∈ s.toolsUsed, IsText v) ∧ (∀ v ∈ s.filesExamined, IsText v) ∧
    ∀ v ∈ s.filesModified, IsText v

theorem allTexts_foldl_add (notes : List Note) (s : Summary) :
    (notes.foldl Summary.add s).AllTexts ↔ s.AllTexts ∧ ∀ note ∈ notes, note.IsTold := by
  induction notes generalizing s with
  | nil => exact (and_iff_left (List.forall_mem_nil _)).symm
  | cons note rest ih =>
    rw [List.foldl_cons, ih, List.forall_mem_cons, ← and_assoc]
    refine and_congr_left' ?_
    cases note <;>
      simp only [Summary.add, Summary.AllTexts, Note.IsTold, List.forall_mem_append,
        List.forall_mem_singleton, and_true] <;> tauto

theorem userQueries_foldl_add (notes : List Note) (s : Summary) :
    (notes.foldl Summary.add s).userQueries = s.userQueries ++ notes.filterMap Note.query? := by
  induction notes generalizing s with
  | nil => exact (List.append_nil _).symm
  | cons note rest ih =>
    rw [List.foldl_cons, ih]
    cases note <;> simp [Summary.add, Note.query?, List.filterMap_cons]

theorem turnCount_foldl_add (notes : List Note) (s : Summary) :
    (notes.foldl Summary.add s).turnCount = 0 ↔ s.turnCount = 0 ∧ .turn ∉ notes := by
  induction notes generalizing s with
  | nil => exact (and_iff_left List.not_mem_nil).symm
  | cons note rest ih =>
    rw [List.foldl_cons, ih]
    cases note <;> simp [Summary.add]

theorem isSome_part {lead : String} {A : Type} {values : List A} {text : List A → Option String}
    {p : Prop} (h : (∃ t, text values = some t) ↔ p) (hnil : values = [] → p) :
    (∃ parts, part lead values text = some parts) ↔ p := by
  unfold part
  split
  · next hempty => exact iff_of_true ⟨[], rfl⟩ (hnil (List.isEmpty_iff.mp hempty))
  · rw [← h]
    simp only [Option.map_eq_some_iff, exists_comm, exists_and_left, exists_eq', and_true]

theorem isSome_sortedTexts {values : List Json} :
    (∃ texts, sortedTexts values = some texts) ↔ ∀ v ∈ values, IsText v := by
  rw [← isSome_texts, sortedTexts]
  cases values.mapM text? <;> simp

/-- The summary has a text, or is `None` for want of a turn, unless it joins other values. -/
theorem text_ne_none_iff (repr : Json → String) (s : Summary) :
    s.text repr ≠ none ↔ s.turnCount ≠ 0 →
      s.AllTexts ∧ ∀ text ∈ s.userQueries.rtake 5, IsText text.value := by
  have hsorted {lead : String} {values : List Json} (text : List String → String) :
      (∃ parts, part lead values (fun values ↦ (sortedTexts values).map text) = some parts) ↔
        ∀ v ∈ values, IsText v := by
    refine isSome_part ?_ (fun hnil ↦ hnil ▸ List.forall_mem_nil _)
    rw [← isSome_sortedTexts]
    simp only [Option.map_eq_some_iff, exists_comm, exists_and_left, exists_eq', and_true]
  have hqueries : (∃ parts, part "User queries: " s.userQueries (fun texts ↦
      join "; " ((texts.rtake 5).map Slice.value)) = some parts) ↔
        ∀ text ∈ s.userQueries.rtake 5, IsText text.value := by
    refine isSome_part (isSome_join.trans List.forall_mem_map) fun hnil ↦ ?_
    rw [hnil, List.rtake_nil]
    exact List.forall_mem_nil _
  unfold Summary.text
  split
  · next hturn => exact iff_of_true (Option.some_ne_none _) fun h ↦ (h hturn).elim
  · next hturn =>
    rw [imp_iff_right hturn, Option.ne_none_iff_exists']
    simp only [Option.bind_eq_bind, Option.bind_eq_some_iff, Option.pure_def]
    constructor
    · rintro ⟨_, _, htold, _, hexamined, _, hmodified, _, hnames, _⟩
      exact ⟨⟨(hsorted _).mp ⟨_, hnames⟩, (hsorted _).mp ⟨_, hexamined⟩,
        (hsorted _).mp ⟨_, hmodified⟩⟩, hqueries.mp ⟨_, htold⟩⟩
    · rintro ⟨⟨hnames, hexamined, hmodified⟩, htold⟩
      obtain ⟨queries, htold⟩ := hqueries.mpr htold
      obtain ⟨examined, hexamined⟩ := (hsorted _).mpr hexamined
      obtain ⟨modified, hmodified⟩ := (hsorted _).mpr hmodified
      obtain ⟨tools, hnames⟩ := (hsorted _).mpr hnames
      exact ⟨_, queries, htold, examined, hexamined, modified, hmodified, tools, hnames, rfl⟩

end Recap

section Summaries

variable (repr : Json → String) (f : Json.FloatText) (loads : String → Loaded)
  (before : List String) (x : String) (behind : List String)

/-! ### The conversation -/

/-- The lines of the conversation stay if and only if one before it already ends them, or the line
can be read, or nothing behind it is in the conversation. -/
theorem keepsConversation_iff :
    KeepsRest (conversation repr f loads) before x behind ↔
      (∃ l ∈ before, ¬ LineReads loads Conversation.Reads l) ∨
        LineReads loads Conversation.Reads x ∨
          Attempt.Silent (onLine loads (Conversation.entry repr f)) behind :=
  Attempt.keepsRest_iff_of (not_raised_onLine Conversation.not_raised_entry) before x behind

/-! ### The summary for the retrospector -/

theorem retrospect_fails_iff (lines : List String) :
    ¬ extractRetrospectorSummary repr f loads lines = none ↔
      (∀ l ∈ lines, LineReads loads Retrospect.Reads l) ∧ True := by
  have hreads := Attempt.not_raised_each_iff (onLine loads (Retrospect.entry repr f)) (l := lines)
  simp only [not_raised_onLine Retrospect.not_raised_entry] at hreads
  rw [and_true, ← hreads, extractRetrospectorSummary, retrospect]
  split
  · next hraised => exact iff_of_false (fun h ↦ h rfl) (Bool.eq_false_iff.mp · hraised)
  · next hraised => exact iff_of_true (Option.some_ne_none _) (Bool.eq_false_iff.mpr hraised)

/-- One line more costs only itself if and only if it can be read, or another cannot. -/
theorem costsRetrospect_iff :
    CostsOneLine (fun lines ↦ (retrospect repr f loads lines).out)
        (extractRetrospectorSummary repr f loads · = none) before x behind ↔
      ((∀ l ∈ before ++ behind, LineReads loads Retrospect.Reads l) →
        LineReads loads Retrospect.Reads x) := by
  refine (costsOneLine_iff (not_raised_onLine Retrospect.not_raised_entry)
    (retrospect_fails_iff repr f loads) before x behind).trans ?_
  exact imp_congr_right fun _ ↦ true_imp_iff.trans (and_iff_left trivial)

/-- The lines of the summary's timeline. -/
def timeline (lines : List String) : List String :=
  ((retrospect repr f loads lines).out.foldl Retrospect.Summary.add {}).lines

theorem not_raised_retrospect {lines : List String}
    (h : ∀ l ∈ lines, LineReads loads Retrospect.Reads l) :
    (retrospect repr f loads lines).raised = false :=
  (Attempt.not_raised_each_iff _).mpr fun l hl ↦
    (not_raised_onLine Retrospect.not_raised_entry l).mpr (h l hl)

theorem out_retrospect_append {lines : List String}
    (h : ∀ l ∈ lines, LineReads loads Retrospect.Reads l) (more : List String) :
    (retrospect repr f loads (lines ++ more)).out =
      (retrospect repr f loads lines).out ++ (retrospect repr f loads more).out :=
  congrArg Attempt.out ((Attempt.each_append _ lines more).trans
    (Attempt.andThen_of_not_raised (not_raised_retrospect repr f loads h) _))

/-- The timeline of lines that all can be read, with more lines behind them. -/
theorem timeline_append {lines : List String}
    (h : ∀ l ∈ lines, LineReads loads Retrospect.Reads l) (more : List String) :
    timeline repr f loads (lines ++ more) = timeline repr f loads lines ++
      Retrospect.listed (Retrospect.turns (retrospect repr f loads lines).out)
        (retrospect repr f loads more).out := by
  rw [timeline, out_retrospect_append repr f loads h, List.foldl_append,
    (Retrospect.lines_foldl_add _ _).1, (Retrospect.lines_foldl_add _ {}).2, Nat.zero_add]
  rfl

/-- The numbers stay if and only if, besides, the line adds no turn or no line is listed behind it.
-/
theorem costsTimeline_iff :
    CostsOneLine (timeline repr f loads) (extractRetrospectorSummary repr f loads · = none) before x
        behind ↔
      ((∀ l ∈ before ++ behind, LineReads loads Retrospect.Reads l) →
        LineReads loads Retrospect.Reads x ∧
          (.turn ∈ (onLine loads (Retrospect.entry repr f) x).out → ∀ l ∈ behind,
            ∀ note ∈ (onLine loads (Retrospect.entry repr f) l).out, note.isListed = false)) := by
  have hfails := fun lines ↦ (retrospect_fails_iff repr f loads lines).trans (and_iff_left trivial)
  rw [CostsOneLine, hfails, hfails]
  refine imp_congr_right fun hbase ↦ ?_
  obtain ⟨hbefore, hbehind⟩ := List.forall_mem_append.mp hbase
  have hread : (∀ l ∈ before ++ x :: behind, LineReads loads Retrospect.Reads l) ↔
      LineReads loads Retrospect.Reads x := by
    rw [List.forall_mem_append, List.forall_mem_cons]
    exact ⟨fun h ↦ h.2.1, fun hx ↦ ⟨hbefore, hx, hbehind⟩⟩
  rw [hread]
  refine and_congr_right fun hx ↦ ?_
  unfold KeepsRest
  have hwith : ∀ l ∈ before ++ [x], LineReads loads Retrospect.Reads l :=
    List.forall_mem_append.mpr ⟨hbefore, List.forall_mem_singleton.mpr hx⟩
  have hone : (retrospect repr f loads [x]).out =
      (onLine loads (Retrospect.entry repr f) x).out := by
    rw [retrospect, Attempt.out_each_of_not_raised _ (not_raised_retrospect repr f loads
      (List.forall_mem_singleton.mpr hx)), List.flatMap_singleton]
  have hturns : Retrospect.turns (retrospect repr f loads (before ++ [x])).out =
      Retrospect.turns (retrospect repr f loads before).out +
        Retrospect.turns (onLine loads (Retrospect.entry repr f) x).out := by
    rw [out_retrospect_append repr f loads hbefore, hone, Retrospect.turns_append]
  rw [timeline_append repr f loads hbefore, List.append_cons, timeline_append repr f loads hwith,
    hturns]
  simp only [List.append_cancel_left_eq, exists_eq_left']
  by_cases hturn : .turn ∈ (onLine loads (Retrospect.entry repr f) x).out
  · have hne : Retrospect.turns (onLine loads (Retrospect.entry repr f) x).out ≠ 0 := fun h ↦
      (Retrospect.turns_eq_zero_iff _).mp h hturn
    rw [imp_iff_right hturn, Retrospect.listed_eq_listed_iff (by omega), retrospect,
      Attempt.out_each_of_not_raised _ (not_raised_retrospect repr f loads hbehind),
      List.forall_mem_flatMap]
  · rw [(Retrospect.turns_eq_zero_iff _).mpr hturn]
    exact iff_of_true rfl fun h ↦ (hturn h).elim

/-! ### The summary for a session that starts again -/

/-- What all lines note for the summary. -/
def recapNotes (lines : List String) : List Recap.Note :=
  lines.flatMap fun l ↦ (onLine loads (Recap.entry repr) l).out

/-- The parse of the lines fails, or the summary of what they note raises. -/
def RecapFails (lines : List String) : Prop :=
  (recap repr loads lines).raised = true ∨ extractConversationSummary repr loads lines = none

theorem recap_fails_iff (lines : List String) :
    ¬ RecapFails repr loads lines ↔
      (∀ l ∈ lines, LineReads loads Recap.Reads l) ∧ Recap.Told (recapNotes repr loads lines) := by
  have hreads := Attempt.not_raised_each_iff (onLine loads (Recap.entry repr)) (l := lines)
  simp only [not_raised_onLine Recap.not_raised_entry] at hreads
  rw [← hreads, RecapFails, extractConversationSummary, not_or, Bool.not_eq_true]
  refine and_congr_right fun hraised ↦ ?_
  have hraised' : ¬ (recap repr loads lines).raised = true := Bool.eq_false_iff.mp hraised
  have hout : (recap repr loads lines).out = recapNotes repr loads lines :=
    Attempt.out_each_of_not_raised _ hraised
  have hnil : Recap.Summary.AllTexts {} :=
    ⟨List.forall_mem_nil _, List.forall_mem_nil _, List.forall_mem_nil _⟩
  rw [if_neg hraised', hout]
  refine (Recap.text_ne_none_iff repr _).trans ?_
  rw [ne_eq, Recap.turnCount_foldl_add, and_iff_right rfl, not_not, Recap.allTexts_foldl_add,
    and_iff_right hnil, Recap.userQueries_foldl_add]
  rfl

/-- One line more costs only itself if and only if, where the others do not fail, it can be read and
what is joined with it are strings. -/
theorem costsRecap_iff :
    CostsOneLine (fun lines ↦ (recap repr loads lines).out) (RecapFails repr loads) before x
        behind ↔
      ((∀ l ∈ before ++ behind, LineReads loads Recap.Reads l) →
        Recap.Told (recapNotes repr loads (before ++ behind)) →
          LineReads loads Recap.Reads x ∧
            Recap.Told (recapNotes repr loads (before ++ x :: behind))) :=
  costsOneLine_iff (not_raised_onLine Recap.not_raised_entry) (recap_fails_iff repr loads) before x
    behind

end Summaries

end GithubAgent.Shared.Transcript
