import GithubAgent.Base.Lines
import GithubAgent.Base.Utf8
import GithubAgent.Webhook.Handler
import Mathlib.Tactic

/-!
# Reading a transcript as it grows

`read_new_jsonl` of `src/hooks/langfuse_hook.py`, with the state file between two runs of the hook.
Every run decodes the bytes that are new to it. What `json.loads` makes of a line is a parameter:
the reader gives it the stripped text of the line and keeps what it returns.
-/

namespace GithubAgent.Hook

open GithubAgent.Base GithubAgent.Base.Utf8 GithubAgent.Shared

/-- `SessionState` (`langfuse_hook.py:310-314`). -/
structure SessionState where
  offset : Nat := 0
  buffer : String := ""
  turnCount : Nat := 0

/-- `int(..)` of a number that the hook has written. -/
def savedNat : Json → Option Nat
  | .int (.ofNat n) => some n
  | _ => none

/-- `str(..)` of a string. -/
def savedStr : Json → Option String
  | .str s => some s
  | _ => none

/-- `load_session_state` (`langfuse_hook.py:317-323`), for a state that the hook has written. -/
def loadSessionState (globalState : Payload) (key : String) : Option SessionState := do
  let s ← globalState.dict key
  let offset ← savedNat ((s.lookup "offset").getD (.int 0))
  let buffer ← savedStr ((s.lookup "buffer").getD (.str ""))
  let turnCount ← savedNat ((s.lookup "turn_count").getD (.int 0))
  return ⟨offset, buffer, turnCount⟩

/-- `write_session_state` (`langfuse_hook.py:326-334`). -/
def writeSessionState (globalState : Payload) (key : String) (ss : SessionState) : Payload :=
  globalState.update [(key, .obj [("offset", .int ss.offset), ("buffer", .str ss.buffer),
    ("turn_count", .int ss.turnCount)])]

/-- Where a line ends. -/
def newline (c : Char) : Bool := c = '\n'

section Reader

variable {J : Type} (loads : String → Option J)

/-- The message of a line, unless it is blank or does not parse (`langfuse_hook.py:371-378`). -/
def parseLine (line : List Char) : Option J :=
  if (Webhook.strip line).isEmpty then none else loads (String.ofList (Webhook.strip line))

/-- `read_new_jsonl` of a file that exists, with `lines[:-1]` finished and `lines[-1]` not
(`langfuse_hook.py:337-380`). -/
def readNewJsonl (file : List UInt8) (ss : SessionState) : List J × SessionState :=
  if (file.drop ss.offset).isEmpty then ([], ss)
  else
    let combined := ss.buffer.toList ++ decode (file.drop ss.offset)
    ((finished newline combined).filterMap (parseLine loads),
      { ss with
        offset := file.length
        buffer := String.ofList (unfinished newline combined) })

/-- What one run of the hook reads, and the state it leaves; a state that cannot be loaded ends
the run (`langfuse_hook.py:664-705`). -/
def hookRun (key : String) (file : List UInt8) (globalState : Payload) : List J × Payload :=
  match loadSessionState globalState key with
  | none => ([], globalState)
  | some ss =>
    ((readNewJsonl loads file ss).1,
      writeSessionState globalState key (readNewJsonl loads file ss).2)

/-- What the runs of the hook read together when each sees one piece more of the file. -/
def hookRuns (key : String) : List UInt8 → List (List UInt8) → Payload → List J
  | _, [], _ => []
  | seen, chunk :: rest, globalState =>
    (hookRun loads key (seen ++ chunk) globalState).1 ++
      hookRuns key (seen ++ chunk) rest (hookRun loads key (seen ++ chunk) globalState).2

end Reader

/-! ### The state between two runs -/

theorem load_write (globalState : Payload) (key : String) (ss : SessionState) :
    loadSessionState (writeSessionState globalState key ss) key = some ss := by
  have hlookup : (writeSessionState globalState key ss).lookup key =
      some (.obj [("offset", .int ss.offset), ("buffer", .str ss.buffer),
        ("turn_count", .int ss.turnCount)]) := by
    rw [writeSessionState, Payload.lookup_update, List.lookup_cons_self, Option.some_or]
  rw [loadSessionState, Payload.dict, hlookup]
  rfl

/-- Without an entry for the key the state is a new one. -/
theorem load_fresh {globalState : Payload} {key : String} (h : globalState.lookup key = none) :
    loadSessionState globalState key = some {} := by
  rw [loadSessionState, Payload.dict, h]
  rfl

section Runs

variable {J : Type} (loads : String → Option J) {key : String}

/-- One run after others: `buffer` is what they left unfinished of the bytes `seen`. -/
theorem readNewJsonl_append {seen : List UInt8} (chunk : List UInt8) {ss : SessionState}
    (hoffset : ss.offset = seen.length)
    (hbuffer : ∀ c ∈ ss.buffer.toList, newline c = false) :
    (readNewJsonl loads (seen ++ chunk) ss).1 =
        (finished newline (ss.buffer.toList ++ decode chunk)).filterMap (parseLine loads) ∧
      (readNewJsonl loads (seen ++ chunk) ss).2 =
        ⟨(seen ++ chunk).length,
          String.ofList (unfinished newline (ss.buffer.toList ++ decode chunk)),
          ss.turnCount⟩ := by
  have hdrop : (seen ++ chunk).drop ss.offset = chunk := by rw [hoffset, List.drop_left]
  unfold readNewJsonl
  rw [hdrop]
  split
  · next hempty =>
    obtain rfl : chunk = [] := List.isEmpty_iff.mp hempty
    have hsplit : ss.buffer.toList.splitOnP newline =
        [] ++ [ss.buffer.toList] := List.splitOnP_eq_singleton hbuffer
    obtain ⟨hfinished, hunfinished⟩ := of_splitOnP_eq [] hsplit
    rw [show decode [] = [] from rfl, List.append_nil, List.append_nil, hfinished, hunfinished,
      ← hoffset, String.ofList_toList]
    exact ⟨rfl, rfl⟩
  · exact ⟨rfl, rfl⟩

/-- The runs together read the finished lines of what their pieces are decoded to. -/
theorem hookRuns_eq {seen : List UInt8} (chunks : List (List UInt8)) {globalState : Payload}
    {ss : SessionState} (hload : loadSessionState globalState key = some ss)
    (hoffset : ss.offset = seen.length)
    (hbuffer : ∀ c ∈ ss.buffer.toList, newline c = false) :
    hookRuns loads key seen chunks globalState =
      (finished newline (ss.buffer.toList ++ chunks.flatMap decode)).filterMap
        (parseLine loads) := by
  induction chunks generalizing seen globalState ss with
  | nil =>
    rw [List.flatMap_nil, List.append_nil, finished_eq_nil hbuffer]
    rfl
  | cons chunk rest ih =>
    obtain ⟨hmsgs, hstate⟩ := readNewJsonl_append loads chunk hoffset hbuffer
    have hrun : hookRun loads key (seen ++ chunk) globalState =
        ((readNewJsonl loads (seen ++ chunk) ss).1,
          writeSessionState globalState key (readNewJsonl loads (seen ++ chunk) ss).2) := by
      rw [hookRun, hload]
    rw [hookRuns, hrun, hstate, hmsgs, ih (load_write _ _ _) rfl ?_, String.toList_ofList,
      List.flatMap_cons, ← List.append_assoc, finished_append (ss.buffer.toList ++ decode chunk),
      List.filterMap_append]
    rw [String.toList_ofList]
    exact fun c hc ↦ not_of_mem_unfinished hc

/-- The first runs of a session. -/
theorem hookRuns_fresh (chunks : List (List UInt8)) {globalState : Payload}
    (h : globalState.lookup key = none) : hookRuns loads key [] chunks globalState =
      (finished newline (chunks.flatMap decode)).filterMap (parseLine loads) :=
  hookRuns_eq loads chunks (load_fresh h) rfl nofun

/-- One run over the whole text. -/
theorem hookRun_fresh (text : List Char) {globalState : Payload}
    (h : globalState.lookup key = none) : (hookRun loads key (encode text) globalState).1 =
      (finished newline text).filterMap (parseLine loads) := by
  have hruns := hookRuns_fresh loads [encode text] h
  rwa [hookRuns, hookRuns, List.append_nil, List.nil_append, List.flatMap_cons, List.flatMap_nil,
    List.append_nil, decode_encode] at hruns

end Runs

/-! ### Torn characters -/

/-- A run ends strictly inside the bytes of a character that has a newline behind it. -/
def Tears (text : List Char) (chunks : List (List UInt8)) : Prop :=
  ∃ before c after, text = before ++ c :: after ∧ '\n' ∈ after ∧
    ∃ n ∈ ends chunks, (encode before).length < n ∧
      n < (encode before).length + (String.utf8EncodeChar c).length

theorem map_fst_marked (start : Nat) (cuts : List Nat) (text : List Char) :
    (marked start cuts text).map Prod.fst = text := by
  induction text generalizing start with
  | nil => rfl
  | cons c rest ih => rw [marked, List.map_cons, ih]

theorem newline_mem_marked {start : Nat} {cuts : List Nat} {text : List Char} :
    (∃ m ∈ marked start cuts text, (newline ∘ Prod.fst) m = true) ↔ '\n' ∈ text := by
  conv_rhs => rw [← map_fst_marked start cuts text, List.mem_map]
  refine exists_congr fun m ↦ and_congr_right fun _ ↦ ?_
  rw [Function.comp_apply, newline, decide_eq_true_eq]

/-- A newline is one byte and cannot be torn. -/
theorem newline_of_torn {start : Nat} {cuts : List Nat} (text : List Char) :
    ∀ m ∈ marked start cuts text, m.2 = true → newline m.1 = false := by
  induction text generalizing start with
  | nil => nofun
  | cons c rest ih =>
    intro m hm htorn
    rcases List.mem_cons.mp hm with rfl | hm
    · rw [newline, decide_eq_false_iff_not]
      rintro rfl
      obtain ⟨n, -, hn⟩ := List.any_eq_true.mp htorn
      obtain ⟨hlow, hhigh⟩ := of_decide_eq_true hn
      rw [show (String.utf8EncodeChar '\n').length = 1 from rfl] at hhigh
      omega
    · exact ih m hm htorn

/-- The text is torn exactly if a torn character is in a finished line. -/
theorem tears_iff (text : List Char) (chunks : List (List UInt8)) :
    Tears text chunks ↔ ∃ part ∈ finished (newline ∘ Prod.fst) (marked 0 (ends chunks) text),
      ∃ m ∈ part, m.2 = true := by
  have hsplit (start : Nat) (cuts : List Nat) : (∃ before c after, text = before ++ c :: after ∧
      '\n' ∈ after ∧ ∃ n ∈ cuts, start + (encode before).length < n ∧
        n < start + (encode before).length + (String.utf8EncodeChar c).length) ↔
      ∃ before m after, marked start cuts text = before ++ m :: after ∧ m.2 = true ∧
        ∃ b ∈ after, (newline ∘ Prod.fst) b = true := by
    induction text generalizing start with
    | nil => simp [marked]
    | cons c rest ih =>
      rw [marked, exists_split_cons, exists_split_cons, ← ih, newline_mem_marked, and_comm]
      refine or_congr (and_congr_left' ?_) ?_
      · simp [torn, encode]
      · simp only [encode, List.flatMap_cons, List.length_append, Nat.add_assoc]
  rw [mem_finished_iff (p := newline ∘ Prod.fst) _ (newline_of_torn text), ← hsplit]
  simp only [Nat.zero_add, Tears]

/-- What is decoded line by line: the lines of the text, some of their characters torn. -/
theorem decoded_lines {marks : List (Char × Bool)} {text : List Char} (h : Decoded marks text)
    (hmarks : ∀ m ∈ marks, m.2 = true → newline m.1 = false) :
    List.Forall₂ Decoded (finished (newline ∘ Prod.fst) marks) (finished newline text) ∧
      Decoded (unfinished (newline ∘ Prod.fst) marks) (unfinished newline text) := by
  induction h with
  | nil => exact ⟨.nil, .nil⟩
  | @whole c marks text hrest ih =>
    obtain ⟨hlines, hline⟩ := ih fun m hm ↦ hmarks m (List.mem_cons_of_mem _ hm)
    cases hc : newline c with
    | true =>
      rw [finished_cons_of_pos text hc, unfinished_cons_of_pos text hc,
        finished_cons_of_pos marks (by exact hc), unfinished_cons_of_pos marks (by exact hc)]
      exact ⟨.cons .nil hlines, hline⟩
    | false =>
      obtain ⟨hfin, hunfin⟩ := finished_append_of_forall (p := newline) (l := [c])
        (by simpa using hc) text
      obtain ⟨hfin', hunfin'⟩ := finished_append_of_forall (p := newline ∘ Prod.fst)
        (l := [(c, false)]) (by simpa using hc) marks
      rw [List.singleton_append] at hfin hunfin hfin' hunfin'
      rw [hfin, hunfin, hfin', hunfin']
      exact forall₂_modifyHead hlines hline fun l m hlm ↦ .whole hlm
  | @torn c marks text k hrest ih =>
    obtain ⟨hlines, hline⟩ := ih fun m hm ↦ hmarks m (List.mem_cons_of_mem _ hm)
    have hc : newline c = false := hmarks _ List.mem_cons_self rfl
    obtain ⟨hfin, hunfin⟩ := finished_append_of_forall (p := newline)
      (l := List.replicate (k + 2) replacement)
      (fun a ha ↦ by rw [List.eq_of_mem_replicate ha]; rfl) text
    obtain ⟨hfin', hunfin'⟩ := finished_append_of_forall (p := newline ∘ Prod.fst)
      (l := [(c, true)]) (by simpa using hc) marks
    rw [List.singleton_append] at hfin' hunfin'
    rw [hfin, hunfin, hfin', hunfin']
    exact forall₂_modifyHead hlines hline fun l m hlm ↦ .torn k hlm

/-! ### What torn characters change -/

/-- The replacements in a list of lines. -/
def replacements (lines : List (List Char)) : Nat := (lines.map (·.count replacement)).sum

/-- Lines without torn characters are decoded to themselves. -/
theorem lines_eq_of_whole {parts : List (List (Char × Bool))} {lines : List (List Char)}
    (h : List.Forall₂ Decoded parts lines) (hwhole : ∀ part ∈ parts, ∀ m ∈ part, m.2 = false) :
    lines = parts.map (·.map Prod.fst) := by
  induction h with
  | nil => rfl
  | cons hline _ ih =>
    rw [List.map_cons, ← hline.eq_of_whole (hwhole _ List.mem_cons_self),
      ← ih fun part hpart ↦ hwhole part (List.mem_cons_of_mem _ hpart)]

theorem replacements_decoded {parts : List (List (Char × Bool))} {lines : List (List Char)}
    (h : List.Forall₂ Decoded parts lines) :
    replacements (parts.map (·.map Prod.fst)) ≤ replacements lines ∧
      ((∃ part ∈ parts, ∃ m ∈ part, m.2 = true) →
        replacements (parts.map (·.map Prod.fst)) < replacements lines) := by
  induction h with
  | nil => simp
  | @cons part line parts lines hline _ ih =>
    obtain ⟨hle, hlt⟩ := ih
    obtain ⟨hle', hlt'⟩ := hline.count_replacement
    simp only [replacements, List.map_cons, List.sum_cons] at hle hlt ⊢
    refine ⟨by omega, ?_⟩
    rintro ⟨torn, hmem, htorn⟩
    rcases List.mem_cons.mp hmem with rfl | hmem
    · have hmore := hlt' htorn
      omega
    · have hmore := hlt ⟨torn, hmem, htorn⟩
      omega

/-- Stripping removes no replacement. -/
theorem count_strip (line : List Char) :
    (Webhook.strip line).count replacement = line.count replacement := by
  have hdrop (l : List Char) :
      (l.dropWhile Webhook.isSpace).count replacement = l.count replacement := by
    induction l with
    | nil => rfl
    | cons c l ih =>
      rw [List.dropWhile_cons]
      split
      · next hspace =>
        have hne : c ≠ replacement := by
          rintro rfl
          revert hspace
          decide
        rw [ih, List.count_cons_of_ne hne]
      · rfl
  rw [Webhook.strip, List.count_reverse, hdrop, List.count_reverse, hdrop]

/-- The texts of the lines keep the replacements. -/
theorem replacements_texts (lines : List (List Char)) :
    replacements ((lines.filterMap (parseLine some)).map String.toList) = replacements lines := by
  induction lines with
  | nil => rfl
  | cons line lines ih =>
    have hcount := count_strip line
    rw [List.filterMap_cons, parseLine]
    cases hblank : (Webhook.strip line).isEmpty with
    | true =>
      rw [List.isEmpty_iff.mp hblank] at hcount
      simp only [if_true, ih]
      simp [replacements, ← hcount]
    | false =>
      simp only [Bool.false_eq_true, if_false, List.map_cons, String.toList_ofList]
      simp only [replacements, List.map_cons, List.sum_cons, hcount] at ih ⊢
      rw [ih]

/-- The runs of the hook read what one run reads, whatever `json.loads` makes of a line, exactly
if none of them ends inside a character of a finished line. -/
theorem hookRuns_eq_iff {text : List Char} {chunks : List (List UInt8)}
    (h : chunks.flatten = encode text) :
    (∀ (J : Type) (loads : String → Option J) (key : String) (globalState : Payload),
      globalState.lookup key = none → hookRuns loads key [] chunks globalState =
        (hookRun loads key chunks.flatten globalState).1) ↔ ¬ Tears text chunks := by
  have hdecoded : Decoded (marked 0 (ends chunks) text) (chunks.flatMap decode) :=
    decoded_marked text chunks h fun n _ ↦ by rw [Nat.zero_add]
  obtain ⟨hlines, -⟩ := decoded_lines hdecoded (newline_of_torn text)
  have htext : finished newline text =
      (finished (newline ∘ Prod.fst) (marked 0 (ends chunks) text)).map (·.map Prod.fst) := by
    conv_lhs => rw [← map_fst_marked 0 (ends chunks) text]
    exact finished_map Prod.fst (fun _ ↦ rfl) _
  rw [tears_iff]
  constructor
  · intro hall htorn
    have hsame := hall String some "" [] rfl
    rw [h, hookRun_fresh some text rfl, hookRuns_fresh some chunks rfl] at hsame
    have hcount := congrArg (fun l ↦ replacements (l.map String.toList)) hsame
    simp only [replacements_texts] at hcount
    have hmore := (replacements_decoded hlines).2 htorn
    rw [← htext] at hmore
    omega
  · intro hwhole J loads key globalState hfresh
    rw [h, hookRun_fresh loads text hfresh, hookRuns_fresh loads chunks hfresh, htext]
    rw [lines_eq_of_whole hlines fun part hpart m hm ↦ ?_]
    cases htorn : m.2 with
    | false => rfl
    | true => exact absurd ⟨part, hpart, m, hm, htorn⟩ hwhole

/-- The bytes of `"é"` and a newline, in two runs that end between characters. -/
theorem hookRuns_eq_iff_accent :
    [[0x22, 0xC3, 0xA9], [0x22, 0x0A]].flatten = encode ['"', 'é', '"', '\n'] ∧
    ∀ (J : Type) (loads : String → Option J) (key : String) (globalState : Payload),
      globalState.lookup key = none →
        hookRuns loads key [] [[0x22, 0xC3, 0xA9], [0x22, 0x0A]] globalState =
          (hookRun loads key [[0x22, 0xC3, 0xA9], [0x22, 0x0A]].flatten globalState).1 := by
  have hflat : [[0x22, 0xC3, 0xA9], [0x22, 0x0A]].flatten = encode ['"', 'é', '"', '\n'] := by
    decide
  refine ⟨hflat, (hookRuns_eq_iff hflat).mpr ?_⟩
  rw [tears_iff]
  decide +kernel

/-- `json.loads` of a string literal without escapes. -/
def loadsLiteral (line : String) : Option String :=
  match line.toList with
  | '"' :: rest =>
    if rest.getLast? = some '"' then some (String.ofList rest.dropLast) else none
  | _ => none

/-- The same bytes, in two runs of which the first ends inside the `é`. -/
theorem not_hookRuns_eq :
    [[0x22, 0xC3], [0xA9, 0x22, 0x0A]].flatten = encode ['"', 'é', '"', '\n'] ∧
      (hookRun loadsLiteral "key" [[0x22, 0xC3], [0xA9, 0x22, 0x0A]].flatten []).1 = ["é"] ∧
      hookRuns loadsLiteral "key" [] [[0x22, 0xC3], [0xA9, 0x22, 0x0A]] [] ≠ ["é"] := by
  decide +kernel

end GithubAgent.Hook
