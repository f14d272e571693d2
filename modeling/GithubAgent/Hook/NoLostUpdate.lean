import GithubAgent.Hook.Parallel

/-!
# No update of the state is lost

The runs of the hook that have the lock, one after the other: each loads what the last one has
saved, and reads the piece of its transcript that is behind the pieces read before.
-/

namespace GithubAgent.Hook.Parallel

open GithubAgent.Base GithubAgent.Base.Utf8 GithubAgent.Shared GithubAgent.Hook.Turns

/-! ### The pieces of a transcript -/

section Pieces

variable (loads : String → Option Payload) (str : Json → String)

/-- The rows of each piece, the first of which continues the text `buffer`. -/
def batches : List Char → List (List UInt8) → List (List Payload)
  | _, [] => []
  | buffer, chunk :: rest =>
    (finished newline (buffer ++ decode chunk)).filterMap (parseLine loads) ::
      batches (unfinished newline (buffer ++ decode chunk)) rest

/-- The state behind the pieces. -/
def position (chunks : List (List UInt8)) : SessionState where
  offset := chunks.flatten.length
  buffer := String.ofList (unfinished newline (chunks.flatMap decode))
  turnCount := ((batches loads [] chunks).flatMap (buildTurns str)).length

theorem unfinished_append (text more : List Char) :
    unfinished newline (unfinished newline text ++ more) = unfinished newline (text ++ more) := by
  have hsplit : (text ++ more).splitOnP newline =
      (finished newline text ++ finished newline (unfinished newline text ++ more)) ++
        [unfinished newline (unfinished newline text ++ more)] := by
    rw [splitOnP_append, splitOnP_eq (unfinished newline text ++ more), List.append_assoc]
  exact (of_splitOnP_eq _ hsplit).2.symm

/-- The rows of all pieces are those of their text. -/
theorem flatten_batches {buffer : List Char} (hbuffer : ∀ c ∈ buffer, newline c = false)
    (chunks : List (List UInt8)) : (batches loads buffer chunks).flatten =
      (finished newline (buffer ++ chunks.flatMap decode)).filterMap (parseLine loads) := by
  induction chunks generalizing buffer with
  | nil => rw [List.flatMap_nil, List.append_nil, finished_eq_nil hbuffer]; rfl
  | cons chunk rest ih =>
    rw [batches, List.flatten_cons, ih fun c hc ↦ not_of_mem_unfinished hc, List.flatMap_cons,
      ← List.append_assoc, finished_append (buffer ++ decode chunk), List.filterMap_append]

theorem batches_concat (text : List Char) (chunks : List (List UInt8)) (chunk : List UInt8) :
    batches loads (unfinished newline text) (chunks ++ [chunk]) =
      batches loads (unfinished newline text) chunks ++
        [(finished newline (unfinished newline (text ++ chunks.flatMap decode) ++
          decode chunk)).filterMap (parseLine loads)] := by
  induction chunks generalizing text with
  | nil => rw [List.flatMap_nil, List.append_nil]; rfl
  | cons c rest ih =>
    rw [List.cons_append, batches, batches, unfinished_append, ih, List.flatMap_cons,
      List.append_assoc, List.cons_append]

/-- The turns of one more run follow those of the runs before it. -/
theorem emitRuns_concat (turnCount : Nat) (runs : List (List Payload)) (msgs : List Payload) :
    emitRuns str turnCount (runs ++ [msgs]) = emitRuns str turnCount runs ++
      (emitTurns str (turnCount + (runs.flatMap (buildTurns str)).length) msgs).1 := by
  induction runs generalizing turnCount with
  | nil => rw [List.nil_append, emitRuns, emitRuns, emitRuns, List.append_nil]; rfl
  | cons first rest ih =>
    rw [List.cons_append, emitRuns, emitRuns, ih, List.flatMap_cons, List.length_append,
      List.append_assoc, ← Nat.add_assoc]
    rfl

/-- The rows that a run finds in the piece behind the others. -/
def newRows (chunks : List (List UInt8)) (chunk : List UInt8) : List Payload :=
  (finished newline (unfinished newline (chunks.flatMap decode) ++ decode chunk)).filterMap
    (parseLine loads)

theorem batches_nil_concat (chunks : List (List UInt8)) (chunk : List UInt8) :
    batches loads [] (chunks ++ [chunk]) =
      batches loads [] chunks ++ [newRows loads chunks chunk] :=
  batches_concat loads [] chunks chunk

theorem turnCount_concat (chunks : List (List UInt8)) (chunk : List UInt8) :
    (position loads str (chunks ++ [chunk])).turnCount = (position loads str chunks).turnCount +
      (buildTurns str (newRows loads chunks chunk)).length := by
  show ((batches loads [] (chunks ++ [chunk])).flatMap (buildTurns str)).length = _
  rw [batches_nil_concat, List.flatMap_append, List.length_append, List.flatMap_cons,
    List.flatMap_nil, List.append_nil]
  rfl

/-- What a run reads that has loaded the state behind the pieces. -/
theorem readNewJsonl_position (chunks : List (List UInt8)) (chunk : List UInt8) :
    readNewJsonl loads (chunks.flatten ++ chunk) (position loads str chunks) =
      (newRows loads chunks chunk,
        { position loads str (chunks ++ [chunk]) with
          turnCount := (position loads str chunks).turnCount }) := by
  have hoffset : (position loads str chunks).offset = chunks.flatten.length := rfl
  have hbuffer : (position loads str chunks).buffer.toList =
      unfinished newline (chunks.flatMap decode) := String.toList_ofList
  have hread := readNewJsonl_append loads chunk hoffset (by
    rw [hbuffer]
    exact fun c hc ↦ not_of_mem_unfinished hc)
  rw [hbuffer, unfinished_append] at hread
  apply Prod.ext
  · exact hread.1
  · rw [hread.2]
    simp only [position, List.flatMap_append, List.flatMap_cons, List.flatMap_nil, List.append_nil,
      List.flatten_append, List.flatten_cons, List.flatten_nil]

end Pieces

/-- The entries of the other sessions stay. -/
theorem load_write_of_ne (globalState : Payload) {key key' : String} (ss : SessionState)
    (hkey : key' ≠ key) : loadSessionState (writeSessionState globalState key' ss) key =
      loadSessionState globalState key := by
  have hbeq : (key == key') = false := beq_false_of_ne (Ne.symm hkey)
  have hlookup : (writeSessionState globalState key' ss).lookup key = globalState.lookup key := by
    rw [writeSessionState, Payload.lookup_update, List.lookup_cons, hbeq]
    rfl
  rw [loadSessionState, loadSessionState, Payload.dict, hlookup]
  rfl

/-! ### What is kept -/

section Safety

variable {R F : Type} [DecidableEq R]

/-- Turns with their numbers. -/
def numbered (turnCount : Nat) (turns : List Turn) : List (Nat × Turn) :=
  turns.zipIdx.map fun p ↦ (turnCount + (p.2 + 1), p.1)

/-- What becomes of the key's entry if the run saves `globalState`. -/
def Saves (h : Hooks R F) (key : String) (path : F) (s : State R F) (chunks : List (List UInt8))
    (r : R) (globalState : Payload) : Prop :=
  if h.key r = key then
    ∃ chunk, chunks.flatten ++ chunk <+: s.bytes path ∧
      loadSessionState globalState key = some (position h.loads h.str (chunks ++ [chunk])) ∧
      s.turnsOf r = numbered (position h.loads h.str chunks).turnCount
        (buildTurns h.str (newRows h.loads chunks chunk))
  else loadSessionState globalState key = loadSessionState s.files.loadState key

/-- What a run has done so far that is in this stage, `chunks` being the pieces that are saved. -/
def Fits (h : Hooks R F) (key : String) (path : F) (s : State R F) (chunks : List (List UInt8))
    (r : R) : Stage → Prop
  | .idle | .waiting | .entered => r ∉ s.saved ∧ s.turnsOf r = []
  | .loaded globalState ss => r ∉ s.saved ∧ s.turnsOf r = [] ∧
      globalState = s.files.loadState ∧ loadSessionState globalState (h.key r) = some ss
  | .emitting globalState ss turns emitted => r ∉ s.saved ∧ globalState = s.files.loadState ∧
      (h.key r = key → ∃ chunk, chunks.flatten ++ chunk <+: s.bytes path ∧
        ss = { position h.loads h.str (chunks ++ [chunk]) with
          turnCount := (position h.loads h.str chunks).turnCount } ∧
        ∃ done, done.length = emitted ∧
          done ++ turns = buildTurns h.str (newRows h.loads chunks chunk) ∧
          s.turnsOf r = numbered (position h.loads h.str chunks).turnCount done)
  | .writing globalState file => r ∉ s.saved ∧ s.files.tmp = some file ∧
      s.files.contents file = .empty ∧ Saves h key path s chunks r globalState
  | .written => r ∉ s.saved ∧ ∃ file globalState, s.files.tmp = some file ∧
      s.files.contents file = .state globalState ∧ Saves h key path s chunks r globalState
  | .leaving | .ended => True

/-- One run at a time is in the block, and the entry of the key is that of the saved pieces. -/
structure Kept (h : Hooks R F) (key : String) (path : F) (s : State R F)
    (chunks : List (List UInt8)) : Prop where
  alone : ∀ r, (s.stages r).inside = true → s.held = some r
  old : ∀ file, s.files.tmp = some file ∨ s.files.stateFile = some file → file < s.files.next
  apart : ∀ file, s.files.tmp = some file → s.files.stateFile ≠ some file
  whole : ∀ file, s.files.stateFile = some file →
    ∃ globalState, s.files.contents file = .state globalState
  pieces : chunks.flatten <+: s.bytes path
  stored : loadSessionState s.files.loadState key = some (position h.loads h.str chunks)
  runs : chunks.length = (s.saved.filter fun r ↦ h.key r = key).length
  turns : (s.saved.filter fun r ↦ h.key r = key).flatMap s.turnsOf =
    emitRuns h.str 0 (batches h.loads [] chunks)
  fits : ∀ r, Fits h key path s chunks r (s.stages r)

variable {h : Hooks R F} {key : String} {path : F} {s s' : State R F}
  {chunks : List (List UInt8)} {r : R} {stage : Stage}

/-- A run that is not in the block does not depend on the files. -/
theorem Fits.of_outside {chunks' : List (List UInt8)} (hfits : Fits h key path s chunks r stage)
    (hout : stage.inside = false) (hsaved : r ∈ s'.saved → r ∈ s.saved)
    (hturns : s'.turnsOf r = s.turnsOf r) : Fits h key path s' chunks' r stage := by
  cases stage with
  | idle => exact ⟨fun hr ↦ hfits.1 (hsaved hr), hturns.trans hfits.2⟩
  | waiting => exact ⟨fun hr ↦ hfits.1 (hsaved hr), hturns.trans hfits.2⟩
  | ended => exact hfits
  | entered => cases hout
  | loaded => cases hout
  | emitting => cases hout
  | writing => cases hout
  | written => cases hout
  | leaving => cases hout

/-- A transcript may grow meanwhile. -/
theorem Saves.mono {globalState : Payload} (hsaves : Saves h key path s chunks r globalState)
    (hbytes : s.bytes path <+: s'.bytes path) (hturns : s'.turnsOf r = s.turnsOf r)
    (hload : s'.files.loadState = s.files.loadState) :
    Saves h key path s' chunks r globalState := by
  unfold Saves at hsaves ⊢
  split at hsaves
  · next hkey =>
    obtain ⟨chunk, hprefix, hstored, hown⟩ := hsaves
    rw [if_pos hkey]
    exact ⟨chunk, hprefix.trans hbytes, hstored, hturns.trans hown⟩
  · next hkey =>
    rw [if_neg hkey, hload]
    exact hsaves

/-- Only the stage of a run changes. -/
theorem Kept.setStage (hk : Kept h key path s chunks) (hfits : Fits h key path s chunks r stage)
    (hin : stage.inside = true → s.held = some r) :
    Kept h key path (s.setStage r stage) chunks where
  alone r' hr' := by
    by_cases hr : r' = r
    · subst hr
      rw [State.stages_setStage_self] at hr'
      exact hin hr'
    · rw [State.stages_setStage_of_ne s stage hr] at hr'
      exact hk.alone r' hr'
  old := hk.old
  apart := hk.apart
  whole := hk.whole
  pieces := hk.pieces
  stored := hk.stored
  runs := hk.runs
  turns := hk.turns
  fits r' := by
    by_cases hr : r' = r
    · subst hr
      rw [State.stages_setStage_self]
      exact hfits
    · rw [State.stages_setStage_of_ne s stage hr]
      exact hk.fits r'

/-- A run in the block is the only one there. -/
theorem Kept.outside (hk : Kept h key path s chunks) (hin : (s.stages r).inside = true) {r' : R}
    (hr : r' ≠ r) : (s.stages r').inside = false := by
  by_contra hne
  have heq := (hk.alone r' (Bool.not_eq_false _ ▸ hne)).symm.trans (hk.alone r hin)
  exact hr (Option.some.inj heq)

theorem Kept.alone_of_inside (hk : Kept h key path s chunks) (hin : (s.stages r).inside = true)
    (stage : Stage) (r' : R) (hr' : ((s.setStage r stage).stages r').inside = true) :
    s.held = some r' := by
  by_cases hr : r' = r
  · rw [hr]
    exact hk.alone r hin
  · rw [State.stages_setStage_of_ne s stage hr, hk.outside hin hr] at hr'
    cases hr'

/-- While a run is in the block, the others have done nothing or are over. -/
theorem Kept.fits_of_inside (hk : Kept h key path s chunks) (hin : (s.stages r).inside = true)
    {chunks' : List (List UInt8)} (hstages : s'.stages = (s.setStage r stage).stages)
    (hsaved : ∀ r', r' ≠ r → r' ∈ s'.saved → r' ∈ s.saved)
    (hturns : ∀ r', r' ≠ r → s'.turnsOf r' = s.turnsOf r')
    (hfits : Fits h key path s' chunks' r stage) (r' : R) :
    Fits h key path s' chunks' r' (s'.stages r') := by
  rw [hstages]
  by_cases hr : r' = r
  · subst hr
    rw [State.stages_setStage_self]
    exact hfits
  · rw [State.stages_setStage_of_ne s stage hr]
    exact (hk.fits r').of_outside (hk.outside hin hr) (hsaved r' hr) (hturns r' hr)

/-- The run in the block changes the files, but not the state that is loaded from them. -/
theorem Kept.setFiles (hk : Kept h key path s chunks) (hin : (s.stages r).inside = true)
    {files : Files}
    (hold : ∀ file, files.tmp = some file ∨ files.stateFile = some file → file < files.next)
    (hapart : ∀ file, files.tmp = some file → files.stateFile ≠ some file)
    (hname : files.stateFile = s.files.stateFile)
    (hcontents : ∀ i, s.files.stateFile = some i → files.contents i = s.files.contents i)
    (hfits : Fits h key path { s with files := files } chunks r stage) :
    Kept h key path { s.setStage r stage with files := files } chunks where
  alone := hk.alone_of_inside hin stage
  old := hold
  apart := hapart
  pieces := hk.pieces
  whole := by
    intro i hi
    have hstate : s.files.stateFile = some i := hname.symm.trans hi
    obtain ⟨globalState, hglobal⟩ := hk.whole i hstate
    exact ⟨globalState, (hcontents i hstate).trans hglobal⟩
  stored := by rw [← hk.stored, ← Files.loadState_congr hname hcontents]
  runs := hk.runs
  turns := hk.turns
  fits := hk.fits_of_inside hin rfl (fun _ _ ↦ id) (fun _ _ ↦ rfl) hfits

theorem Kept.handle_ne (hk : Kept h key path s chunks) :
    s.files.stateFile ≠ some s.files.handle := by
  cases htmp : s.files.tmp with
  | none =>
    intro hstate
    rw [Files.handle, htmp, Option.getD_none] at hstate
    exact absurd (hk.old _ (.inr hstate)) (Nat.lt_irrefl _)
  | some file =>
    rw [Files.handle, htmp, Option.getD_some]
    exact hk.apart file htmp

theorem Kept.acquire (hk : Kept h key path s chunks) (hstage : s.stages r = .waiting)
    (hheld : s.held = none) :
    Kept h key path { s.setStage r .entered with held := some r } chunks := by
  have hfits := hk.fits r
  rw [hstage] at hfits
  have hout (r' : R) : (s.stages r').inside = false := by
    by_contra hne
    have hin := hk.alone r' (Bool.not_eq_false _ ▸ hne)
    rw [hheld] at hin
    cases hin
  exact {
    old := hk.old
    apart := hk.apart
    whole := hk.whole
    pieces := hk.pieces
    stored := hk.stored
    runs := hk.runs
    turns := hk.turns
    alone := by
      intro r' hr'
      by_cases hr : r' = r
      · rw [hr]
      · have hin : ((s.setStage r .entered).stages r').inside = true := hr'
        rw [State.stages_setStage_of_ne s .entered hr, hout r'] at hin
        cases hin
    fits := by
      intro r'
      by_cases hr : r' = r
      · subst hr
        show Fits h key path _ chunks r' ((s.setStage r' .entered).stages r')
        rw [State.stages_setStage_self]
        exact hfits
      · show Fits h key path _ chunks r' ((s.setStage r .entered).stages r')
        rw [State.stages_setStage_of_ne s .entered hr]
        exact hk.fits r' }

/-- A run outside the block gives the lock back, if it has it. -/
theorem Kept.unlock (hk : Kept h key path s chunks) (hout : (s.stages r).inside = false) :
    Kept h key path (s.unlock r) chunks where
  alone r' hr' := by
    have hin : (s.stages r').inside = true := hr'
    have hr : r' ≠ r := by
      rintro rfl
      rw [hout] at hin
      cases hin
    have hheld := hk.alone r' hin
    rw [State.unlock, if_neg]
    · exact hheld
    · rw [hheld]
      exact fun heq ↦ hr (Option.some.inj heq)
  old := hk.old
  apart := hk.apart
  whole := hk.whole
  pieces := hk.pieces
  stored := hk.stored
  runs := hk.runs
  turns := hk.turns
  fits := hk.fits

theorem turnsOf_concat_self (s : State R F) (r : R) (entry : Nat × Turn) :
    { s with emitted := s.emitted ++ [(r, entry)] }.turnsOf r = s.turnsOf r ++ [entry] := by
  show ((s.emitted ++ [(r, entry)]).filter fun e ↦ e.1 = r).map Prod.snd = _
  rw [List.filter_append, List.map_append, List.filter_cons_of_pos (by exact decide_eq_true rfl)]
  rfl

theorem turnsOf_concat_of_ne (s : State R F) {r r' : R} (entry : Nat × Turn) (hr : r ≠ r') :
    { s with emitted := s.emitted ++ [(r, entry)] }.turnsOf r' = s.turnsOf r' := by
  show ((s.emitted ++ [(r, entry)]).filter fun e ↦ e.1 = r').map Prod.snd = _
  rw [List.filter_append, List.filter_cons_of_neg (by simpa using hr), List.filter_nil,
    List.append_nil]
  rfl

theorem numbered_concat (turnCount : Nat) (turns : List Turn) (turn : Turn) :
    numbered turnCount (turns ++ [turn]) =
      numbered turnCount turns ++ [(turnCount + (turns.length + 1), turn)] := by
  rw [numbered, List.zipIdx_append, List.map_append, Nat.zero_add]
  rfl

/-- The run that holds the lock emits a turn. -/
theorem Kept.emit (hk : Kept h key path s chunks) {globalState : Payload} {ss : SessionState}
    {turn : Turn} {rest : List Turn} {emitted : Nat}
    (hstage : s.stages r = .emitting globalState ss (turn :: rest) emitted) :
    Kept h key path { s.setStage r (.emitting globalState ss rest (emitted + 1)) with
      emitted := s.emitted ++ [(r, ss.turnCount + (emitted + 1), turn)] } chunks := by
  have hin : (s.stages r).inside = true := by rw [hstage]; rfl
  obtain ⟨hsaved, hload, hpiece⟩ : Fits h key path s chunks r (.emitting globalState ss _ _) :=
    hstage ▸ hk.fits r
  have hfits : Fits h key path
      { s with emitted := s.emitted ++ [(r, ss.turnCount + (emitted + 1), turn)] } chunks r
      (.emitting globalState ss rest (emitted + 1)) := by
    refine ⟨hsaved, hload, fun hkey ↦ ?_⟩
    obtain ⟨chunk, hprefix, hss, done, hlen, hdone, hturns⟩ := hpiece hkey
    refine ⟨chunk, hprefix, hss, done ++ [turn], ?_, ?_, ?_⟩
    · rw [List.length_append, hlen]
      rfl
    · rw [List.append_assoc, ← hdone]
      rfl
    · rw [turnsOf_concat_self, hturns, numbered_concat, hlen, hss]
  exact {
    alone := hk.alone_of_inside hin _
    old := hk.old
    apart := hk.apart
    whole := hk.whole
    pieces := hk.pieces
    stored := hk.stored
    runs := hk.runs
    turns := by
      rw [← hk.turns]
      apply List.flatMap_congr
      intro r' hr'
      apply turnsOf_concat_of_ne s
      rintro rfl
      exact hsaved (List.mem_filter.mp hr').1
    fits := hk.fits_of_inside hin rfl (fun _ _ ↦ id)
      (fun r' hr ↦ turnsOf_concat_of_ne s _ (Ne.symm hr)) hfits }

theorem Kept.load (hk : Kept h key path s chunks) {ss : SessionState}
    (hstage : s.stages r = .entered)
    (hss : loadSessionState s.files.loadState (h.key r) = some ss) :
    Kept h key path (s.setStage r (.loaded s.files.loadState ss)) chunks := by
  have hfits := hk.fits r
  rw [hstage] at hfits
  apply hk.setStage
  · exact ⟨hfits.1, hfits.2, rfl, hss⟩
  · exact fun _ ↦ hk.alone r (by rw [hstage]; rfl)

/-- A run reads the piece behind those that are saved. -/
theorem Kept.read (hk : Kept h key path s chunks) (hpath : h.key r = key → h.path r = path)
    {globalState : Payload} {ss : SessionState} (hstage : s.stages r = .loaded globalState ss) :
    Kept h key path (s.setStage r (.emitting globalState
      (readNewJsonl h.loads (s.bytes (h.path r)) ss).2
      (buildTurns h.str (readNewJsonl h.loads (s.bytes (h.path r)) ss).1) 0)) chunks := by
  have hfits := hk.fits r
  rw [hstage] at hfits
  obtain ⟨hsaved, hturns, rfl, hss⟩ := hfits
  apply hk.setStage
  · refine ⟨hsaved, rfl, fun hkey ↦ ?_⟩
    obtain ⟨chunk, hchunk⟩ := hk.pieces
    have hposition : ss = position h.loads h.str chunks := by
      rw [hkey, hk.stored] at hss
      exact (Option.some.inj hss).symm
    rw [hpath hkey, ← hchunk, hposition, readNewJsonl_position]
    exact ⟨chunk, List.prefix_rfl, rfl, [], rfl, rfl, hturns⟩
  · exact fun _ ↦ hk.alone r (by rw [hstage]; rfl)

theorem Kept.save (hk : Kept h key path s chunks) {globalState : Payload} {ss : SessionState}
    {emitted : Nat} (hstage : s.stages r = .emitting globalState ss [] emitted) :
    Kept h key path { s.setStage r (.writing (writeSessionState globalState (h.key r)
        { ss with turnCount := ss.turnCount + emitted }) s.files.handle) with
      files := s.files.openTmp } chunks := by
  have hin : (s.stages r).inside = true := by rw [hstage]; rfl
  have hfits := hk.fits r
  rw [hstage] at hfits
  obtain ⟨hsaved, rfl, hpiece⟩ := hfits
  have hcontents (i : Nat) (hi : s.files.stateFile = some i) :
      s.files.openTmp.contents i = s.files.contents i := Files.contents_write _ hk.handle_ne hi
  apply hk.setFiles hin
  · exact Files.old_openTmp hk.old
  · intro file htmp
    cases htmp
    exact hk.handle_ne
  · rfl
  · exact hcontents
  · refine ⟨hsaved, rfl, Files.contents_write_self _ _ _, ?_⟩
    unfold Saves
    split
    · next hkey =>
      obtain ⟨chunk, hprefix, hss, done, hlen, hdone, hturns⟩ := hpiece hkey
      rw [List.append_nil] at hdone
      refine ⟨chunk, hprefix, ?_, ?_⟩
      · rw [hkey, load_write, hss, ← hlen, hdone, ← turnCount_concat]
      · rw [← hdone]
        exact hturns
    · next hkey =>
      rw [load_write_of_ne _ _ hkey]
      have hload : s.files.openTmp.loadState = s.files.loadState :=
        Files.loadState_congr rfl hcontents
      exact congrArg (loadSessionState · key) hload.symm

theorem Kept.flush (hk : Kept h key path s chunks) {globalState : Payload} {file : Nat}
    (hstage : s.stages r = .writing globalState file) (mixed : Content) :
    Kept h key path { s.setStage r .written with
      files := s.files.write file (match s.files.contents file with
        | .empty => .state globalState
        | _ => mixed) } chunks := by
  have hin : (s.stages r).inside = true := by rw [hstage]; rfl
  have hfits := hk.fits r
  rw [hstage] at hfits
  obtain ⟨hsaved, htmp, hempty, hsaves⟩ := hfits
  rw [hempty]
  have hcontents (i : Nat) (hi : s.files.stateFile = some i) :
      (s.files.write file (.state globalState)).contents i = s.files.contents i :=
    Files.contents_write _ (hk.apart file htmp) hi
  apply hk.setFiles hin
  · exact hk.old
  · exact hk.apart
  · rfl
  · exact hcontents
  · exact ⟨hsaved, file, globalState, htmp, Files.contents_write_self _ _ _,
      hsaves.mono List.prefix_rfl rfl (Files.loadState_congr rfl hcontents)⟩

/-- What was saved is the state from now on. -/
theorem Kept.replace (hk : Kept h key path s chunks) (hstage : s.stages r = .written)
    {files : Files} (hreplace : s.files.replace = some files) :
    ∃ chunks', Kept h key path { s.setStage r .leaving with
      files := files, saved := s.saved ++ [r] } chunks' := by
  have hin : (s.stages r).inside = true := by rw [hstage]; rfl
  have hfits := hk.fits r
  rw [hstage] at hfits
  obtain ⟨hsaved, file, globalState, htmp, hcontents, hsaves⟩ := hfits
  rw [Files.replace, htmp] at hreplace
  cases hreplace
  have hload : { s.files with tmp := none, stateFile := some file }.loadState = globalState :=
    Files.loadState_of_contents rfl hcontents
  have hold (i : Nat) (hi : none = some i ∨ some file = some i) : i < s.files.next := by
    rcases hi with hi | hi
    · cases hi
    · cases hi
      exact hk.old file (.inl htmp)
  have hwhole (i : Nat) (hi : some file = some i) :
      ∃ globalState, s.files.contents i = .state globalState := by
    cases hi
    exact ⟨globalState, hcontents⟩
  have hothers (r' : R) (hr : r' ≠ r) (hmem : r' ∈ s.saved ++ [r]) : r' ∈ s.saved := by
    rcases List.mem_append.mp hmem with hmem | hmem
    · exact hmem
    · exact absurd (List.mem_singleton.mp hmem) hr
  unfold Saves at hsaves
  split at hsaves
  · next hkey =>
    obtain ⟨chunk, hprefix, hstored, hturns⟩ := hsaves
    have hfilter : ((s.saved ++ [r]).filter fun r ↦ h.key r = key) =
        (s.saved.filter fun r ↦ h.key r = key) ++ [r] := by
      rw [List.filter_append, List.filter_cons_of_pos (by exact decide_eq_true hkey),
        List.filter_nil]
    exact ⟨chunks ++ [chunk], {
      alone := hk.alone_of_inside hin .leaving
      old := hold
      apart := nofun
      whole := hwhole
      pieces := by
        rw [List.flatten_append, List.flatten_cons, List.flatten_nil, List.append_nil]
        exact hprefix
      stored := (congrArg (loadSessionState · key) hload).trans hstored
      runs := by
        rw [hfilter, List.length_append, List.length_append, hk.runs]
        rfl
      turns := by
        rw [hfilter, List.flatMap_append, List.flatMap_cons, List.flatMap_nil, List.append_nil,
          batches_nil_concat, emitRuns_concat, Nat.zero_add, ← hk.turns]
        exact congrArg _ hturns
      fits := hk.fits_of_inside hin rfl hothers (fun _ _ ↦ rfl) trivial }⟩
  · next hkey =>
    have hfilter : ((s.saved ++ [r]).filter fun r ↦ h.key r = key) =
        s.saved.filter fun r ↦ h.key r = key := by
      rw [List.filter_append, List.filter_cons_of_neg (by simpa using hkey), List.filter_nil,
        List.append_nil]
    exact ⟨chunks, {
      alone := hk.alone_of_inside hin .leaving
      old := hold
      apart := nofun
      whole := hwhole
      pieces := hk.pieces
      stored := (congrArg (loadSessionState · key) hload).trans (hsaves.trans hk.stored)
      runs := by rw [hfilter, hk.runs]
      turns := by
        rw [hfilter]
        exact hk.turns
      fits := hk.fits_of_inside hin rfl hothers (fun _ _ ↦ rfl) trivial }⟩

/-- A run in the block stops, whatever it was writing. -/
theorem Kept.stop (hk : Kept h key path s chunks) (hin : (s.stages r).inside = true)
    (partly : Bool) (hfits : ∀ t : State R F, Fits h key path t chunks r stage) :
    Kept h key path ((s.tear r partly).setStage r stage) chunks := by
  have hplain : Kept h key path (s.setStage r stage) chunks :=
    hk.setStage (hfits s) fun _ ↦ hk.alone r hin
  unfold State.tear
  split
  · next globalState file hstage =>
    split
    · have hwriting := hk.fits r
      rw [hstage] at hwriting
      apply hk.setFiles hin
      · exact hk.old
      · exact hk.apart
      · rfl
      · exact fun i ↦ Files.contents_write _ (hk.apart file hwriting.2.1)
      · exact hfits _
    · exact hplain
  · exact hplain

theorem Kept.unlockEnded (hk : Kept h key path (s.setStage r .ended) chunks) :
    Kept h key path ((s.setStage r .ended).unlock r) chunks := by
  apply hk.unlock
  rw [State.stages_setStage_self]
  rfl

variable [DecidableEq F]

theorem Kept.grow (hk : Kept h key path s chunks) (path' : F) (bytes : List UInt8) :
    Kept h key path { s with
      transcripts := Function.update s.transcripts path' (some (s.bytes path' ++ bytes)) }
      chunks := by
  have hbytes : s.bytes path <+: ({ s with
      transcripts := Function.update s.transcripts path' (some (s.bytes path' ++ bytes)) } :
      State R F).bytes path := by
    show s.bytes path <+:
      (Function.update s.transcripts path' (some (s.bytes path' ++ bytes)) path).getD []
    by_cases hpath : path = path'
    · subst hpath
      rw [Function.update_self]
      exact List.prefix_append _ _
    · rw [Function.update_of_ne hpath]
      exact List.prefix_rfl
  exact {
    alone := hk.alone
    old := hk.old
    apart := hk.apart
    whole := hk.whole
    pieces := hk.pieces.trans hbytes
    stored := hk.stored
    runs := hk.runs
    turns := hk.turns
    fits := by
      intro r
      have hfits := hk.fits r
      show Fits h key path _ chunks r (s.stages r)
      cases hstage : s.stages r with
      | emitting globalState ss turns emitted =>
        rw [hstage] at hfits
        refine ⟨hfits.1, hfits.2.1, fun hkey ↦ ?_⟩
        obtain ⟨chunk, hprefix, hrest⟩ := hfits.2.2 hkey
        exact ⟨chunk, hprefix.trans hbytes, hrest⟩
      | writing globalState file =>
        rw [hstage] at hfits
        obtain ⟨hsaved, htmp, hempty, hsaves⟩ := hfits
        exact ⟨hsaved, htmp, hempty, hsaves.mono hbytes rfl rfl⟩
      | written =>
        rw [hstage] at hfits
        obtain ⟨hsaved, file, globalState, htmp, hcontents, hsaves⟩ := hfits
        exact ⟨hsaved, file, globalState, htmp, hcontents, hsaves.mono hbytes rfl rfl⟩
      | _ =>
        rw [hstage] at hfits
        exact hfits }

/-- What one step keeps. -/
theorem Kept.step (hk : Kept h key path s chunks) (hpath : ∀ r, h.key r = key → h.path r = path)
    {e : Event R F} (hok : patient s e) (hstep : State.step h s e = some s') :
    ∃ chunks', Kept h key path s' chunks' := by
  cases e with
  | start r =>
    simp only [State.step] at hstep
    split at hstep
    · next hstage =>
      have hfits := hk.fits r
      rw [hstage] at hfits
      cases hstep
      refine ⟨chunks, hk.setStage ?_ ?_⟩
      · split
        · trivial
        · exact hfits
      · split
        · nofun
        · nofun
    · cases hstep
  | acquire r =>
    simp only [State.step] at hstep
    split at hstep
    · next hstage hheld =>
      cases hstep
      exact ⟨chunks, hk.acquire hstage hheld⟩
    · cases hstep
  | giveUp r => cases hok
  | load r =>
    simp only [State.step] at hstep
    split at hstep
    · next hstage =>
      split at hstep
      · next ss hss =>
        cases hstep
        exact ⟨chunks, hk.load hstage hss⟩
      · cases hstep
        exact ⟨chunks, hk.setStage trivial fun _ ↦ hk.alone r (by rw [hstage]; rfl)⟩
    · cases hstep
  | read r =>
    simp only [State.step] at hstep
    split at hstep
    · next globalState ss hstage =>
      cases hstep
      exact ⟨chunks, hk.read (hpath r) hstage⟩
    · cases hstep
  | emit r =>
    simp only [State.step] at hstep
    split at hstep
    · next globalState ss turn rest emitted hstage =>
      cases hstep
      exact ⟨chunks, hk.emit hstage⟩
    · cases hstep
  | save r =>
    simp only [State.step] at hstep
    split at hstep
    · next globalState ss emitted hstage =>
      cases hstep
      exact ⟨chunks, hk.save hstage⟩
    · cases hstep
  | flush r mixed =>
    simp only [State.step] at hstep
    split at hstep
    · next globalState file hstage =>
      cases hstep
      exact ⟨chunks, hk.flush hstage mixed⟩
    · cases hstep
  | replace r =>
    simp only [State.step] at hstep
    split at hstep
    · next hstage =>
      split at hstep
      · next files hreplace =>
        cases hstep
        exact hk.replace hstage hreplace
      · cases hstep
        exact ⟨chunks, hk.setStage trivial fun _ ↦ hk.alone r (by rw [hstage]; rfl)⟩
    · cases hstep
  | fail r partly =>
    cases hstage : s.stages r with
    | idle => simp only [State.step, hstage] at hstep; cases hstep
    | waiting => simp only [State.step, hstage] at hstep; cases hstep
    | leaving => simp only [State.step, hstage] at hstep; cases hstep
    | ended => simp only [State.step, hstage] at hstep; cases hstep
    | _ =>
      simp only [State.step, hstage] at hstep
      cases hstep
      exact ⟨chunks, hk.stop (by rw [hstage]; rfl) partly fun _ ↦ trivial⟩
  | leave r =>
    simp only [State.step] at hstep
    split at hstep
    · next hstage =>
      cases hstep
      exact ⟨chunks, Kept.unlockEnded (hk.setStage trivial nofun)⟩
    · cases hstep
  | kill r partly =>
    cases hstage : s.stages r with
    | idle => simp only [State.step, hstage] at hstep; cases hstep
    | ended => simp only [State.step, hstage] at hstep; cases hstep
    | waiting =>
      simp only [State.step, hstage, State.tear] at hstep
      cases hstep
      exact ⟨chunks, Kept.unlockEnded (hk.setStage trivial nofun)⟩
    | _ =>
      simp only [State.step, hstage] at hstep
      cases hstep
      exact ⟨chunks, Kept.unlockEnded (hk.stop (by rw [hstage]; rfl) partly fun _ ↦ trivial)⟩
  | grow path' bytes =>
    cases hstep
    exact ⟨chunks, hk.grow path' bytes⟩

/-- What was saved for a key, whose runs read one transcript, when `chunks` are the pieces of it
that its runs found new: the rows are those of the pieces' text, and every turn is emitted
once, under the next number. -/
structure Reported (h : Hooks R F) (key : String) (path : F) (s : State R F)
    (chunks : List (List UInt8)) : Prop where
  whole : ∀ file, s.files.stateFile = some file →
    ∃ globalState, s.files.contents file = .state globalState
  runs : chunks.length = (s.saved.filter fun r ↦ h.key r = key).length
  pieces : chunks.flatten <+: s.bytes path
  stored : loadSessionState s.files.loadState key = some (position h.loads h.str chunks)
  rows : (batches h.loads [] chunks).flatten =
    (finished newline (chunks.flatMap decode)).filterMap (parseLine h.loads)
  turns : (s.saved.filter fun r ↦ h.key r = key).flatMap s.turnsOf =
    emitRuns h.str 0 (batches h.loads [] chunks)
  numbers : ((s.saved.filter fun r ↦ h.key r = key).flatMap s.turnsOf).map Prod.fst =
    List.range' 1 (position h.loads h.str chunks).turnCount

end Safety

/-- A question and its answer. -/
def sampleRows : List Char :=
  "\x7b\"type\": \"user\", \"content\": \"Hi\"\x7d\n".toList ++
    "\x7b\"type\": \"assistant\", \"content\": \"Hello\"\x7d\n".toList

def sampleHooks : Hooks (Fin 3) Unit where
  key _ := "k"
  path _ := ()
  loads line :=
    if line = "\x7b\"type\": \"user\", \"content\": \"Hi\"\x7d" then
      some [("type", .str "user"), ("content", .str "Hi")]
    else if line = "\x7b\"type\": \"assistant\", \"content\": \"Hello\"\x7d" then
      some [("type", .str "assistant"), ("content", .str "Hello")]
    else none
  str := strOfText

def sampleStart : State (Fin 3) Unit where
  held := none
  files := ⟨fun _ ↦ .empty, 0, none, none⟩
  transcripts _ := none
  stages _ := .idle
  emitted := []
  saved := []

end GithubAgent.Hook.Parallel
