import GithubAgent.Base.Strings
import Mathlib.Algebra.Order.Ring.Rat
import Mathlib.Tactic.Linarith

/-!
# The setup commands of a repository

`RepoSetupEngine.run_setup` of `src/repo_setup/engine.py` runs the commands one after the other on
one budget of time. What becomes of each process and what the clock reads are given.
-/

namespace GithubAgent.Setup

open GithubAgent.Base

/-- `RepoConfig` (`engine.py:18-32`). -/
structure RepoConfig where
  setupCommands : List String := []
  timeout : Int := 300
  env : Option (List (String × String)) := none
  stopOnFailure : Bool := true

/-- What becomes of a process: it ends, it is still running when its time is over, or an exception
is raised. -/
inductive ProcessOutcome where
  | exited (returncode : Int) (stdout stderr : String)
  | timedOut
  | osError (message : String)
  | memoryError (message : String)
  | exception (message typeName : String)

/-- The dict that describes a command, with the keys it may have. -/
structure CommandResult where
  command : String
  success : Bool
  exitCode : Option Int := none
  stdout : Option String := none
  stderr : Option String := none
  error : Option String := none
  errorCategory : Option String := none
  errorType : Option String := none
  timeout : Option ℚ := none

/-- The readings of the clock: at the start, before each command, and at the end. -/
structure Clock where
  reading : Nat → ℚ
  monotone : Monotone reading

/-- The environment variables of a process. -/
abbrev Env := String → Option String

/-- The arguments that a command is started with. -/
structure CommandCall where
  command : String
  workspace : String
  env : Env
  timeout : ℚ

/-- What `run_setup` has done: the commands it started, and the dict that it returns. `skipping` is
the number in the warning about the commands that are not started. -/
structure SetupRun where
  calls : List CommandCall := []
  results : List CommandResult := []
  allSuccessful : Bool := true
  skipping : Option Nat := none
  completed : Bool := true
  elapsedSeconds : Option ℚ := none
  skipped : Bool := false

/-! ### The commands -/

/-- `_run_command` (`engine.py:167-279`). -/
def runCommand (cmd : String) (timeout : ℚ) : ProcessOutcome → CommandResult
  | .exited returncode stdout stderr =>
    { command := cmd
      success := returncode == 0
      exitCode := some returncode
      stdout := some stdout
      stderr := some stderr }
  | .timedOut =>
    { command := cmd
      success := false
      error := some "timeout"
      errorCategory := some "timeout"
      timeout := some timeout }
  | .osError message =>
    { command := cmd
      success := false
      error := some message
      errorCategory := some "os_error"
      errorType := some "OSError" }
  | .memoryError message =>
    { command := cmd
      success := false
      error := some message
      errorCategory := some "resource_exhaustion"
      errorType := some "MemoryError" }
  | .exception message typeName =>
    { command := cmd
      success := false
      error := some message
      errorCategory := some "unknown"
      errorType := some typeName }

/-- The variables of the configuration, where `$PATH` stands for the path so far
(`engine.py:313-319`). -/
def addCustom (env : Env) : List (String × String) → Env
  | [] => env
  | (key, value) :: rest =>
    let value := if key = "PATH" ∧ occursIn "$PATH" value then
      value.replace "$PATH" ((env "PATH").getD "") else value
    addCustom (Function.update env key (some value)) rest

/-- The environment of every command (`engine.py:312-332`). The directory of the cache is given
where its volume exists. -/
def setupEnv (environ : Env) (custom : Option (List (String × String)))
    (fastCacheDir : Option String) : Env :=
  let env := addCustom environ (custom.getD [])
  match fastCacheDir with
  | some dir => Function.update env "FAST_CACHE" (some dir)
  | none => env

/-- The dict of the command that the budget does not reach (`engine.py:344`). -/
def timeoutEntry (cmd : String) : CommandResult :=
  { command := cmd
    success := false
    error := some "timeout" }

/-- The process ends with exit code 0. -/
def ProcessOutcome.succeeded : ProcessOutcome → Bool
  | .exited returncode _ _ => returncode == 0
  | _ => false

@[simp]
theorem runCommand_success (cmd : String) (timeout : ℚ) (outcome : ProcessOutcome) :
    (runCommand cmd timeout outcome).success = outcome.succeeded := by
  cases outcome <;> rfl

section Run

variable (workspace : String) (env : Env) (config : RepoConfig) (clock : Clock)
  (outcome : Nat → ProcessOutcome)

/-- The time from the start to the command with this number. -/
def elapsed (i : Nat) : ℚ := clock.reading (i + 1) - clock.reading 0

/-- `config.timeout - elapsed`. -/
def remaining (i : Nat) : ℚ := config.timeout - elapsed clock i

/-- The loop over the commands, from the command with this number (`engine.py:338-361`). -/
def commandLoop (i : Nat) (run : SetupRun) : List String → SetupRun
  | [] => run
  | cmd :: rest =>
    if remaining config clock i ≤ 0 then
      { run with results := run.results ++ [timeoutEntry cmd], allSuccessful := false }
    else
      let result := runCommand cmd (remaining config clock i) (outcome i)
      let run := { run with
        calls := run.calls ++ [⟨cmd, workspace, env, remaining config clock i⟩]
        results := run.results ++ [result] }
      if result.success then commandLoop (i + 1) run rest
      else
        let run := { run with allSuccessful := false }
        if config.stopOnFailure then
          let skipped := config.setupCommands.drop run.results.length
          { run with skipping := if skipped = [] then none else some skipped.length }
        else commandLoop (i + 1) run rest

/-- `run_setup` (`engine.py:281-376`). -/
def runSetup (environ : Env) (fastCacheDir : Option String) : SetupRun :=
  if config.setupCommands = [] then { skipped := true }
  else
    let env := setupEnv environ config.env fastCacheDir
    let run := commandLoop workspace env config clock outcome 0 {} config.setupCommands
    { run with elapsedSeconds := some (elapsed clock run.results.length) }

/-! ### A prefix of the commands -/

/-- Every command with a number below `n` succeeds. -/
def AllSucceed (n : Nat) : Prop := ∀ i < n, (outcome i).succeeded = true

/-- Nothing but the budget stands against the next command, and the budget is used up. -/
def RanOut (started : List String) : Prop :=
  started.length < config.setupCommands.length ∧
    (config.stopOnFailure = true → AllSucceed outcome started.length) ∧
    config.timeout ≤ elapsed clock started.length

/-- What the commands that were started are called with. -/
def callsOf (started : List String) : List CommandCall :=
  started.mapIdx fun i cmd ↦ ⟨cmd, workspace, env, remaining config clock i⟩

/-- What becomes of the commands that were started. -/
def resultsOf (started : List String) : List CommandResult :=
  started.mapIdx fun i cmd ↦ runCommand cmd (remaining config clock i) (outcome i)

/-- The commands that were started come first in the configuration, and a command is one of them
exactly when there is time left and, where a failure stops the run, none has failed before. The
results are theirs, with one more exactly when the budget ran out. A warning about commands that are
skipped has the number of those that were not started. -/
structure RunsPrefix (started : List String) (run : SetupRun) : Prop where
  isPrefix : started <+: config.setupCommands
  calls : run.calls = callsOf workspace env config clock started
  started_iff : ∀ i < config.setupCommands.length, i < started.length ↔
    elapsed clock i < config.timeout ∧ (config.stopOnFailure = true → AllSucceed outcome i)
  results : ¬ RanOut config clock outcome started →
    run.results = resultsOf config clock outcome started
  exhausted : RanOut config clock outcome started →
    ∃ next, config.setupCommands[started.length]? = some next ∧
      run.results = resultsOf config clock outcome started ++ [timeoutEntry next]
  allSuccessful : run.allSuccessful = true ↔
    started = config.setupCommands ∧ AllSucceed outcome config.setupCommands.length
  skipping : ∀ n, run.skipping = some n → started.length + n = config.setupCommands.length

/-- The loop has started these commands and goes on. -/
structure AtCommand (started : List String) (run : SetupRun) : Prop where
  calls : run.calls = callsOf workspace env config clock started
  results : run.results = resultsOf config clock outcome started
  inTime : ∀ i < started.length, elapsed clock i < config.timeout
  unstopped : config.stopOnFailure = true → AllSucceed outcome started.length
  allSuccessful : run.allSuccessful = true ↔ AllSucceed outcome started.length
  skipping : run.skipping = none

variable {workspace env config clock outcome}

theorem elapsed_mono (clock : Clock) : Monotone (elapsed clock) :=
  fun _ _ h ↦ sub_le_sub_right (clock.monotone (Nat.succ_le_succ h)) _

theorem remaining_pos {i : Nat} : 0 < remaining config clock i ↔ elapsed clock i < config.timeout :=
  sub_pos

theorem allSucceed_succ {n : Nat} :
    AllSucceed outcome (n + 1) ↔ AllSucceed outcome n ∧ (outcome n).succeeded = true := by
  refine ⟨fun h ↦ ⟨fun i hi ↦ h i (Nat.lt_succ_of_lt hi), h n (Nat.lt_succ_self n)⟩, ?_⟩
  rintro ⟨hbelow, hlast⟩ i hi
  rcases Nat.lt_succ_iff_lt_or_eq.mp hi with hlt | rfl
  · exact hbelow i hlt
  · exact hlast

theorem atCommand_nil : AtCommand workspace env config clock outcome [] {} where
  calls := rfl
  results := rfl
  inTime := fun i hi ↦ (Nat.not_lt_zero i hi).elim
  unstopped := fun _ i hi ↦ (Nat.not_lt_zero i hi).elim
  allSuccessful := ⟨fun _ i hi ↦ (Nat.not_lt_zero i hi).elim, fun _ ↦ rfl⟩
  skipping := rfl

section Step

variable {started : List String} {run : SetupRun}

/-- A command is started in time and does not stop the run. -/
theorem AtCommand.next (h : AtCommand workspace env config clock outcome started run)
    (cmd : String) {next : SetupRun} (htime : elapsed clock started.length < config.timeout)
    (hcalls : next.calls = run.calls ++
      [⟨cmd, workspace, env, remaining config clock started.length⟩])
    (hresults : next.results = run.results ++
      [runCommand cmd (remaining config clock started.length) (outcome started.length)])
    (hstop : config.stopOnFailure = true → (outcome started.length).succeeded = true)
    (hall : next.allSuccessful = (run.allSuccessful && (outcome started.length).succeeded))
    (hskipping : next.skipping = run.skipping) :
    AtCommand workspace env config clock outcome (started ++ [cmd]) next where
  calls := by rw [hcalls, h.calls, callsOf, callsOf, List.mapIdx_concat]
  results := by rw [hresults, h.results, resultsOf, resultsOf, List.mapIdx_concat]
  inTime := by
    intro i hi
    rw [List.length_append, List.length_singleton] at hi
    rcases Nat.lt_succ_iff_lt_or_eq.mp hi with hlt | rfl
    · exact h.inTime i hlt
    · exact htime
  unstopped := by
    intro hs
    rw [List.length_append, List.length_singleton, allSucceed_succ]
    exact ⟨h.unstopped hs, hstop hs⟩
  allSuccessful := by
    rw [hall, Bool.and_eq_true, h.allSuccessful, List.length_append, List.length_singleton,
      allSucceed_succ]
  skipping := hskipping.trans h.skipping

/-- The commands that were started are in time, and none of them but the last failed. -/
theorem AtCommand.meets (h : AtCommand workspace env config clock outcome started run) {i : Nat}
    (hi : i < started.length) :
    elapsed clock i < config.timeout ∧ (config.stopOnFailure = true → AllSucceed outcome i) :=
  ⟨h.inTime i hi, fun hs j hj ↦ h.unstopped hs j (hj.trans hi)⟩

/-- There is no command left. -/
theorem AtCommand.finished (h : AtCommand workspace env config clock outcome started run)
    (hcommands : started = config.setupCommands) :
    RunsPrefix workspace env config clock outcome started run where
  isPrefix := hcommands ▸ List.prefix_rfl
  calls := h.calls
  started_iff := fun i hi ↦ ⟨fun hlt ↦ h.meets hlt, fun _ ↦ hcommands ▸ hi⟩
  results := fun _ ↦ h.results
  exhausted := fun hout ↦ absurd (congrArg List.length hcommands) hout.1.ne
  allSuccessful := by rw [h.allSuccessful, ← hcommands, eq_self, true_and]
  skipping := fun _ hn ↦ (Option.some_ne_none _ (hn.symm.trans h.skipping)).elim

/-- The budget does not reach the next command. -/
theorem AtCommand.ranOut (h : AtCommand workspace env config clock outcome started run)
    {cmd : String} {rest : List String} (hcommands : started ++ cmd :: rest = config.setupCommands)
    (htime : config.timeout ≤ elapsed clock started.length) :
    RunsPrefix workspace env config clock outcome started
      { run with results := run.results ++ [timeoutEntry cmd], allSuccessful := false } := by
  have hlt : started.length < config.setupCommands.length := by
    rw [← hcommands, List.length_append, List.length_cons]
    exact Nat.lt_add_of_pos_right (Nat.succ_pos _)
  have hout : RanOut config clock outcome started := ⟨hlt, h.unstopped, htime⟩
  exact
    { isPrefix := ⟨_, hcommands⟩
      calls := h.calls
      started_iff := fun i _ ↦ ⟨fun hi ↦ h.meets hi, fun hi ↦ by
        by_contra hlate
        exact absurd (htime.trans (elapsed_mono clock (Nat.le_of_not_lt hlate))) hi.1.not_ge⟩
      results := fun hnot ↦ (hnot hout).elim
      exhausted := fun _ ↦ ⟨cmd, by rw [← hcommands, List.getElem?_append_right le_rfl,
        Nat.sub_self, List.getElem?_cons_zero], congrArg (· ++ [timeoutEntry cmd]) h.results⟩
      allSuccessful := ⟨fun hfalse ↦ (Bool.false_ne_true hfalse).elim,
        fun hall ↦ absurd (congrArg List.length hall.1) hlt.ne⟩
      skipping := fun _ hn ↦ (Option.some_ne_none _ (hn.symm.trans h.skipping)).elim }

/-- A command fails, and a failure stops the run. -/
theorem AtCommand.stopped (h : AtCommand workspace env config clock outcome started run)
    {cmd : String} {rest : List String} (hcommands : started ++ cmd :: rest = config.setupCommands)
    {last : SetupRun} (htime : elapsed clock started.length < config.timeout)
    (hcalls : last.calls = run.calls ++
      [⟨cmd, workspace, env, remaining config clock started.length⟩])
    (hresults : last.results = run.results ++
      [runCommand cmd (remaining config clock started.length) (outcome started.length)])
    (hstop : config.stopOnFailure = true) (hfailed : (outcome started.length).succeeded = false)
    (hall : last.allSuccessful = false)
    (hskipping : last.skipping = if config.setupCommands.drop last.results.length = [] then none
      else some (config.setupCommands.drop last.results.length).length) :
    RunsPrefix workspace env config clock outcome (started ++ [cmd]) last := by
  have hnone : ∀ n, started.length < n → ¬ AllSucceed outcome n := fun n hn hn' ↦
    Bool.false_ne_true (hfailed.symm.trans (hn' _ hn))
  have hlen : started.length < (started ++ [cmd]).length := by
    rw [List.length_append, List.length_singleton]
    exact Nat.lt_succ_self _
  have hsplit : (started ++ [cmd]) ++ rest = config.setupCommands := by
    rw [List.append_assoc, List.singleton_append, hcommands]
  have hresults : last.results = resultsOf config clock outcome (started ++ [cmd]) := by
    rw [hresults, h.results, resultsOf, resultsOf, List.mapIdx_concat]
  -- there is one result for each command that was started
  have hdrop : config.setupCommands.drop last.results.length = rest := by
    rw [hresults, resultsOf, List.length_mapIdx, ← hsplit, List.drop_left]
  refine
    { isPrefix := ⟨rest, hsplit⟩
      calls := by rw [hcalls, h.calls, callsOf, callsOf, List.mapIdx_concat]
      started_iff := fun i _ ↦ ⟨fun hi ↦ ?_, fun hi ↦ ?_⟩
      results := fun _ ↦ hresults
      exhausted := fun hout ↦ (hnone _ hlen (hout.2.1 hstop)).elim
      allSuccessful := ⟨fun htrue ↦ (Bool.false_ne_true (hall.symm.trans htrue)).elim,
        fun hsome ↦ (hnone _ (hlen.trans_eq (congrArg List.length hsome.1)) hsome.2).elim⟩
      skipping := fun n hn ↦ ?_ }
  · rw [List.length_append, List.length_singleton] at hi
    rcases Nat.lt_succ_iff_lt_or_eq.mp hi with hlt | rfl
    · exact h.meets hlt
    · exact ⟨htime, h.unstopped⟩
  · by_contra hlate
    exact hnone i (hlen.trans_le (Nat.le_of_not_lt hlate)) (hi.2 hstop)
  · rw [hskipping, hdrop] at hn
    split at hn
    · cases hn
    · next hsome =>
      rw [← Option.some.inj hn, ← hsplit]
      exact List.length_append.symm

end Step

/-- From any command on, the loop goes on to run a prefix. -/
theorem AtCommand.runsPrefix {rest started : List String} {run : SetupRun}
    (h : AtCommand workspace env config clock outcome started run)
    (hcommands : started ++ rest = config.setupCommands) :
    ∃ all, RunsPrefix workspace env config clock outcome all
      (commandLoop workspace env config clock outcome started.length run rest) := by
  induction rest generalizing started run with
  | nil => exact ⟨started, h.finished (by rw [← hcommands, List.append_nil])⟩
  | cons cmd rest ih =>
    have hnext : (started ++ [cmd]) ++ rest = config.setupCommands := by
      rw [List.append_assoc, List.singleton_append, hcommands]
    have hlen : (started ++ [cmd]).length = started.length + 1 := by
      rw [List.length_append, List.length_singleton]
    rw [commandLoop]
    split
    · next hspent => exact ⟨started, h.ranOut hcommands (sub_nonpos.mp hspent)⟩
    · next htime =>
      have htime := remaining_pos.mp (not_le.mp htime)
      simp only [runCommand_success]
      split
      · next hok =>
        exact hlen ▸ ih (h.next cmd htime rfl rfl (fun _ ↦ hok) (by rw [hok, Bool.and_true])
          rfl) hnext
      · next hfailed =>
        have hfailed := Bool.eq_false_of_not_eq_true hfailed
        split
        · next hstop => exact ⟨_, h.stopped hcommands htime rfl rfl hstop hfailed rfl rfl⟩
        · next hgoes =>
          exact hlen ▸ ih (h.next cmd htime rfl rfl (fun hstop ↦ (hgoes hstop).elim)
            (by rw [hfailed, Bool.and_false]) rfl) hnext

end Run

/-- The setup runs a prefix of its commands and reports what became of each. -/
theorem runSetup_runsPrefix (workspace : String) (config : RepoConfig) (clock : Clock)
    (outcome : Nat → ProcessOutcome) (environ : Env) (fastCacheDir : Option String) :
    ∃ started, RunsPrefix workspace (setupEnv environ config.env fastCacheDir) config clock outcome
      started (runSetup workspace config clock outcome environ fastCacheDir) := by
  rw [runSetup]
  split
  · next hnone =>
    have h : RunsPrefix workspace (setupEnv environ config.env fastCacheDir) config clock outcome
        [] {} := atCommand_nil.finished hnone.symm
    exact ⟨[], { h with }⟩
  · obtain ⟨started, h⟩ := atCommand_nil.runsPrefix (List.nil_append config.setupCommands)
    exact ⟨started, { h with }⟩

end GithubAgent.Setup
