import GithubAgent.Base.Transition
import GithubAgent.Hook.Reader
import GithubAgent.Hook.Turns

/-!
# Runs of the hook side by side

`main` of `src/hooks/langfuse_hook.py` with `FileLock`, `load_state` and `save_state`: any number
of runs, of any sessions, interleaved at every access to the directory of the state. A run may be
killed, and may raise, at any point. What `json.dumps` has written `json.loads`
reads back, an existing state file can be read, and the transcripts only grow. The environment
that turns the hook off, the log and the flush of the client are left out.
-/

namespace GithubAgent.Hook.Parallel

open GithubAgent.Base GithubAgent.Base.Utf8 GithubAgent.Shared GithubAgent.Hook.Turns

/-- The text of a file: nothing, what was written in part or by several, or a complete state. -/
inductive Content where
  | empty
  | broken
  | state (globalState : Payload)

/-- `STATE_DIR`: the files, and which of them the names of `tmp` and `STATE_FILE` stand for. -/
structure Files where
  contents : Nat → Content
  next : Nat
  tmp : Option Nat
  stateFile : Option Nat

namespace Files

/-- `load_state` (`langfuse_hook.py:120-127`). -/
def loadState (fs : Files) : Payload :=
  match fs.stateFile.map fs.contents with
  | some (.state globalState) => globalState
  | _ => []

def write (fs : Files) (file : Nat) (content : Content) : Files :=
  { fs with contents := Function.update fs.contents file content }

/-- The file that `tmp` is opened as to be written. -/
def handle (fs : Files) : Nat := fs.tmp.getD fs.next

/-- The opening of `tmp` truncates it, or creates it (`langfuse_hook.py:134`). -/
def openTmp (fs : Files) : Files :=
  { fs.write fs.handle .empty with
    next := if fs.tmp.isNone then fs.next + 1 else fs.next
    tmp := some fs.handle }

/-- `os.replace(tmp, STATE_FILE)`; `none` if there is no `tmp`. -/
def replace (fs : Files) : Option Files :=
  fs.tmp.map fun file ↦ { fs with tmp := none, stateFile := some file }

theorem contents_write_self (fs : Files) (file : Nat) (content : Content) :
    (fs.write file content).contents file = content := by
  rw [write]
  exact Function.update_self file content fs.contents

/-- Another file keeps its text. -/
theorem contents_write {fs : Files} {file : Nat} (content : Content)
    (h : fs.stateFile ≠ some file) {i : Nat} (hi : fs.stateFile = some i) :
    (fs.write file content).contents i = fs.contents i := by
  have hne : i ≠ file := fun heq ↦ h (hi.trans (congrArg some heq))
  rw [write]
  exact Function.update_of_ne hne content fs.contents

/-- Only the state file is loaded. -/
theorem loadState_congr {fs fs' : Files} (hname : fs'.stateFile = fs.stateFile)
    (hcontents : ∀ i, fs.stateFile = some i → fs'.contents i = fs.contents i) :
    fs'.loadState = fs.loadState := by
  have hmap : fs'.stateFile.map fs'.contents = fs.stateFile.map fs.contents := by
    rw [hname]
    exact Option.map_congr fun i hi ↦ hcontents i hi
  rw [loadState, loadState, hmap]

theorem loadState_of_contents {fs : Files} {file : Nat} {globalState : Payload}
    (hfile : fs.stateFile = some file) (hcontents : fs.contents file = .state globalState) :
    fs.loadState = globalState := by
  rw [loadState, hfile, Option.map_some, hcontents]

/-- A new file has a new number. -/
theorem old_openTmp {fs : Files}
    (hold : ∀ file, fs.tmp = some file ∨ fs.stateFile = some file → file < fs.next)
    (file : Nat) (hfile : fs.openTmp.tmp = some file ∨ fs.openTmp.stateFile = some file) :
    file < fs.openTmp.next := by
  show file < if fs.tmp.isNone then fs.next + 1 else fs.next
  have hhandle : fs.openTmp.tmp = some fs.handle := rfl
  cases htmp : fs.tmp with
  | none =>
    show file < fs.next + 1
    rcases hfile with hfile | hfile
    · rw [hhandle, handle, htmp] at hfile
      cases hfile
      exact Nat.lt_succ_self fs.next
    · exact Nat.lt_succ_of_lt (hold file (.inr hfile))
  | some i =>
    show file < fs.next
    rcases hfile with hfile | hfile
    · rw [hhandle, handle, htmp] at hfile
      cases hfile
      exact hold i (.inl htmp)
    · exact hold file (.inr hfile)

end Files

/-- Where a run is in `main`. -/
inductive Stage where
  | idle
  | waiting
  | entered
  | loaded (globalState : Payload) (ss : SessionState)
  | emitting (globalState : Payload) (ss : SessionState) (turns : List Turn) (emitted : Nat)
  | writing (globalState : Payload) (file : Nat)
  | written
  | leaving
  | ended

/-- The run is in the block of the lock. -/
def Stage.inside : Stage → Bool
  | .idle | .waiting | .ended => false
  | .entered | .loaded _ _ | .emitting _ _ _ _ | .writing _ _ | .written | .leaving => true

/-- The runs: the key and the transcript of each, `json.loads` of a line, and `str`. -/
structure Hooks (R F : Type) where
  key : R → String
  path : R → F
  loads : String → Option Payload
  str : Json → String

/-- Who has the lock, the files, the turns that were emitted, and the runs that have saved. -/
structure State (R F : Type) where
  held : Option R
  files : Files
  transcripts : F → Option (List UInt8)
  stages : R → Stage
  emitted : List (R × Nat × Turn)
  saved : List R

/-- What happens: the steps of a run, and a transcript that grows. `mixed` is what a text becomes
that is written over another one; `partly` tells whether a part of a text has reached its file. -/
inductive Event (R F : Type) where
  | start (r : R)
  | acquire (r : R)
  | giveUp (r : R)
  | load (r : R)
  | read (r : R)
  | emit (r : R)
  | save (r : R)
  | flush (r : R) (mixed : Content)
  | replace (r : R)
  | fail (r : R) (partly : Bool)
  | leave (r : R)
  | kill (r : R) (partly : Bool)
  | grow (path : F) (bytes : List UInt8)

section Model

variable {R F : Type} [DecidableEq R]

def State.setStage (s : State R F) (r : R) (stage : Stage) : State R F :=
  { s with stages := Function.update s.stages r stage }

/-- `flock(.., LOCK_UN)`, or the end of the process. -/
def State.unlock (s : State R F) (r : R) : State R F :=
  { s with held := if s.held = some r then none else s.held }

/-- The text that a run was writing when it stopped. -/
def State.tear (s : State R F) (r : R) (partly : Bool) : State R F :=
  match s.stages r with
  | .writing _ file => if partly = true then { s with files := s.files.write file .broken } else s
  | _ => s

/-- The turns of a run, with their numbers. -/
def State.turnsOf (s : State R F) (r : R) : List (Nat × Turn) :=
  (s.emitted.filter fun e ↦ e.1 = r).map Prod.snd

/-- The bytes of a transcript, none if it does not exist. -/
def State.bytes (s : State R F) (path : F) : List UInt8 := (s.transcripts path).getD []

theorem State.stages_setStage_self (s : State R F) (r : R) (stage : Stage) :
    (s.setStage r stage).stages r = stage := by
  rw [State.setStage]
  exact Function.update_self r stage s.stages

theorem State.stages_setStage_of_ne (s : State R F) {r r' : R} (stage : Stage) (hr : r' ≠ r) :
    (s.setStage r stage).stages r' = s.stages r' := by
  rw [State.setStage]
  exact Function.update_of_ne hr stage s.stages

variable [DecidableEq F]

/-- One step. -/
def State.step (h : Hooks R F) (s : State R F) : Event R F → Option (State R F)
  -- `langfuse_hook.py:651-653`
  | .start r =>
    match s.stages r with
    | .idle =>
      some (s.setStage r (if (s.transcripts (h.path r)).isNone then .ended else .waiting))
    | _ => none
  -- `langfuse_hook.py:89-101`
  | .acquire r =>
    match s.stages r, s.held with
    | .waiting, none => some { s.setStage r .entered with held := some r }
    | _, _ => none
  | .giveUp r =>
    match s.stages r with
    | .waiting => some (s.setStage r .entered)
    | _ => none
  -- `langfuse_hook.py:666-668`; an exception leaves the block
  | .load r =>
    match s.stages r with
    | .entered =>
      match loadSessionState s.files.loadState (h.key r) with
      | some ss => some (s.setStage r (.loaded s.files.loadState ss))
      | none => some (s.setStage r .leaving)
    | _ => none
  -- `langfuse_hook.py:670-676`
  | .read r =>
    match s.stages r with
    | .loaded globalState ss =>
      let (msgs, ss) := readNewJsonl h.loads (s.bytes (h.path r)) ss
      some (s.setStage r (.emitting globalState ss (buildTurns h.str msgs) 0))
    | _ => none
  -- `langfuse_hook.py:684-701`
  | .emit r =>
    match s.stages r with
    | .emitting globalState ss (turn :: rest) emitted =>
      some { s.setStage r (.emitting globalState ss rest (emitted + 1)) with
        emitted := s.emitted ++ [(r, ss.turnCount + (emitted + 1), turn)] }
    | _ => none
  -- `langfuse_hook.py:703-705`, `130-137`
  | .save r =>
    match s.stages r with
    | .emitting globalState ss [] emitted =>
      some { s.setStage r (.writing (writeSessionState globalState (h.key r)
          { ss with turnCount := ss.turnCount + emitted }) s.files.handle) with
        files := s.files.openTmp }
    | _ => none
  | .flush r mixed =>
    match s.stages r with
    | .writing globalState file =>
      some { s.setStage r .written with
        files := s.files.write file (match s.files.contents file with
          | .empty => .state globalState
          | _ => mixed) }
    | _ => none
  | .replace r =>
    match s.stages r with
    | .written =>
      match s.files.replace with
      | some files => some { s.setStage r .leaving with files := files, saved := s.saved ++ [r] }
      | none => some (s.setStage r .leaving)
    | _ => none
  -- an exception, in `save_state` or before
  | .fail r partly =>
    match s.stages r with
    | .idle | .waiting | .leaving | .ended => none
    | _ => some ((s.tear r partly).setStage r .leaving)
  -- `langfuse_hook.py:107-117`
  | .leave r =>
    match s.stages r with
    | .leaving => some ((s.setStage r .ended).unlock r)
    | _ => none
  | .kill r partly =>
    match s.stages r with
    | .idle | .ended => none
    | _ => some (((s.tear r partly).setStage r .ended).unlock r)
  | .grow path bytes =>
    some { s with transcripts := Function.update s.transcripts path (some (s.bytes path ++ bytes)) }

/-- The hook, before its first run. -/
def hooks (h : Hooks R F) : System (State R F) (Event R F) where
  init s := s.held = none ∧ s.files.tmp = none ∧ s.files.stateFile = none ∧
    (∀ r, s.stages r = .idle) ∧ s.emitted = [] ∧ s.saved = []
  step := State.step h

end Model

/-- No run enters the block without the lock. -/
def patient {R F : Type} (_ : State R F) : Event R F → Prop
  | .giveUp _ => False
  | _ => True

instance {R F : Type} (s : State R F) : (e : Event R F) → Decidable (patient s e)
  | .giveUp _ => .isFalse id
  | .start _ | .acquire _ | .load _ | .read _ | .emit _ | .save _ | .flush _ _ | .replace _
  | .fail _ _ | .leave _ | .kill _ _ | .grow _ _ => .isTrue trivial

end GithubAgent.Hook.Parallel
