import Mathlib.Data.List.Basic
import Mathlib.Tactic.ByContra

/-!
# What the SDK loop reports

The loop of `_execute_sdk_loop` (`src/services/sandbox_executor/processor.py:552-746`) with the
results of its SDK runs and the sessions it starts them with. An SDK run ends by itself or is cut
short: by `stop_agent` or a message of the user, which set the same event, or by the cancel signal
of the worktree lock. Without a lock nothing is heard and every run ends by itself.
-/

namespace GithubAgent.Executor.LastRun

/-! ### The loop -/

/-- The id of an SDK session, which is not empty. -/
@[ext]
structure SessionId where
  value : String
  ne_empty : value ≠ ""

instance : DecidableEq SessionId := fun _ _ ↦ decidable_of_iff _ SessionId.ext_iff.symm

/-- `session_mode` of the job. -/
inductive StartMode where
  | new
  | resume
  | fork
  | continueRecent
  deriving DecidableEq

/-- What the builder is told about the session. -/
inductive SessionOption where
  | fresh
  | resume (id : SessionId)
  | fork (id : SessionId)
  | continueRecent
  deriving DecidableEq

/-- The fields of the dict that `execute_sdk` returns (`sdk_executor.py:250-255`). -/
structure RunResult where
  response : String
  sessionId : Option SessionId
  numTurns : Int
  isError : Bool
  deriving DecidableEq

/-- `result` of the loop; only the one made up for a stopped run has `is_cancelled`. -/
structure Result extends RunResult where
  isCancelled : Bool
  deriving DecidableEq

/-- The result of an SDK run. -/
def RunResult.toResult (r : RunResult) : Result := { r with isCancelled := false }

/-- The result made up for a run that the user stopped (`processor.py:736-742`). -/
def stoppedByUser (sessionId : Option SessionId) : Result where
  response := "Stopped by user"
  sessionId
  numTurns := 0
  isError := false
  isCancelled := true

/-- What cuts a run short: `stop_agent` or a message on the control channel, or the cancel signal of
the lock. -/
inductive Signal where
  | stopAgent
  | userMessage
  | cancel
  deriving DecidableEq

/-- An SDK run: how it ends by itself, what is sent to it before, and what the inbox holds
afterwards. -/
structure SdkRun where
  own : RunResult
  signal : Option Signal
  inbox : List String

/-- The job; `streaming` says that the bridge is there, and `maxAutoContinues` is
`MAX_AUTO_CONTINUES`. -/
structure Job where
  mode : StartMode
  sessionId : Option SessionId
  prompt : String
  lock : Bool
  streaming : Bool
  maxAutoContinues : Nat

/-- How an SDK run went. -/
inductive Outcome where
  | finished (r : RunResult)
  | stopped
  | interrupted
  | superseded
  deriving DecidableEq

/-- Only a job with a lock waits for the signals, too (`processor.py:624-692`). -/
def outcome (job : Job) (run : SdkRun) : Outcome :=
  if job.lock then
    match run.signal with
    | none => .finished run.own
    | some .stopAgent => .stopped
    | some .userMessage => .interrupted
    | some .cancel => .superseded
  else .finished run.own

/-- `result`, `interrupted` and whether the event is set, after a run. -/
def afterRun (result : Option Result) : Outcome → Option Result × Bool × Bool
  | .finished r => (some r.toResult, false, false)
  | .stopped => (result, true, true)
  | .interrupted => (result, true, true)
  | .superseded => (result, true, false)

/-- The session that a run is started with (`processor.py:581-594`). -/
def sessionOption (job : Job) (k : Nat) (currentSessionId : Option SessionId) : SessionOption :=
  if k = 0 then
    match job.mode, currentSessionId with
    | .resume, some id => .resume id
    | .fork, some id => .fork id
    | .continueRecent, _ => .continueRecent
    | _, _ => .fresh
  else
    match currentSessionId with
    | some id => .resume id
    | none => .fresh

/-- The prompt made of the messages of the inbox (`processor.py:717-721`). -/
def inboxPrompt : List String → String
  | [] => ""
  | [message] => message
  | message :: rest => message ++ "\n\n(Follow-up: " ++ "; ".intercalate rest ++ ")"

/-- The variables that are carried round the loop. -/
structure Carried where
  result : Option Result
  currentPrompt : String
  currentSessionId : Option SessionId

/-- An SDK run as it was started. -/
structure Started where
  index : Nat
  session : SessionOption
  prompt : String

/-- How the loop ends. -/
inductive LoopEnd where
  | returned (result : Option Result)
  | superseded
  | raised
  deriving DecidableEq

/-- The `for` of `_execute_sdk_loop` from iteration `k` on, with the iterations that are left: the
runs it starts, and how it ends (`processor.py:567-746`). -/
def sdkLoop (job : Job) (runs : Nat → SdkRun) : Nat → Nat → Carried → List Started × LoopEnd
  | 0, _, c => ([], .returned c.result)
  | n + 1, k, c =>
    let started : Started := ⟨k, sessionOption job k c.currentSessionId, c.currentPrompt⟩
    let (result, interrupted, event) := afterRun c.result (outcome job (runs k))
    if interrupted && !event then ([started], .superseded)
    else if result.isNone && !interrupted then ([started], .raised)
    else if job.streaming && !(runs k).inbox.isEmpty then
      let rest := sdkLoop job runs n (k + 1)
        ⟨result, inboxPrompt (runs k).inbox, result.bind fun r ↦ r.sessionId⟩
      (started :: rest.1, rest.2)
    else if interrupted && event && result.isNone then
      ([started], .returned (some (stoppedByUser c.currentSessionId)))
    else ([started], .returned result)

/-- `_execute_sdk_loop`, between its set-up and its teardown. -/
def executeSdkLoop (job : Job) (runs : Nat → SdkRun) : List Started × LoopEnd :=
  sdkLoop job runs (job.maxAutoContinues + 1) 0 ⟨none, job.prompt, job.sessionId⟩

/-! ### What should come of it -/

section Report

variable (job : Job) (runs : Nat → SdkRun)

/-- The result of the last run that finished, of the first `k`. -/
def lastFinished : Nat → Option RunResult
  | 0 => none
  | k + 1 =>
    match outcome job (runs k) with
    | .finished r => some r
    | _ => lastFinished k

/-- The session id known most recently before run `k`: from a result, or from the job. -/
def known : Nat → Option SessionId
  | 0 => job.sessionId
  | k + 1 =>
    match outcome job (runs k) with
    | .finished r => r.sessionId.or (known k)
    | _ => known k

/-- The result is that of a run with the outcome. A stopped run is reported as cancelled, with the
session it ran; one that a message interrupted has no result of its own. -/
def Reports (sessionId : Option SessionId) (result : Option Result) : Outcome → Prop
  | .finished r => result = some r.toResult
  | .stopped => ∃ r, result = some r ∧ r.isCancelled = true ∧ r.sessionId = sessionId
  | .interrupted => ∀ r, result = some r → r.isCancelled = true
  | .superseded => True

/-- The loop reports its last run, and every auto-continue resumes the session known most
recently. -/
structure Faithful (out : List Started × LoopEnd) : Prop where
  reported : ∀ result, out.2 = .returned result → ∀ last ∈ out.1.getLast?,
    Reports (known job runs last.index) result (outcome job (runs last.index))
  resumed : ∀ run ∈ out.1, 0 < run.index → ∀ id, known job runs run.index = some id →
    run.session = .resume id

/-- The loop goes on after the run, if it may. -/
def Continues (k : Nat) : Prop :=
  outcome job (runs k) ≠ .superseded ∧ job.streaming = true ∧ (runs k).inbox ≠ []

instance (k : Nat) : Decidable (Continues job runs k) :=
  inferInstanceAs (Decidable (_ ∧ _ ∧ _))

/-- The run is started. -/
def Starts (k : Nat) : Prop := k ≤ job.maxAutoContinues ∧ ∀ j < k, Continues job runs j

/-- The run is the last one. -/
def Last (k : Nat) : Prop :=
  Starts job runs k ∧ (Continues job runs k → k = job.maxAutoContinues)

/-- After the run the loop holds the session that is known: the run finished with a session id, or
without one when none was known; or it was cut short and an earlier one finished, or the job has no
session. -/
def Holds (k : Nat) : Prop :=
  match outcome job (runs k) with
  | .finished r => r.sessionId = none → known job runs k = none
  | _ => lastFinished job runs k = none → job.sessionId = none

/-- The last run is reported: it finished or was superseded, or no earlier one finished; and a
stopped one did not use up the last iteration before a message. -/
def Told (k : Nat) : Prop :=
  match outcome job (runs k) with
  | .finished _ => True
  | .superseded => True
  | .interrupted => lastFinished job runs k = none
  | .stopped => lastFinished job runs k = none ∧ ¬ Continues job runs k

/-- The loop holds the session after every run that is followed by another, and the last run is
told. -/
structure Orderly : Prop where
  held : ∀ k, Starts job runs (k + 1) → Holds job runs k
  last : ∀ k, Last job runs k → Told job runs k

end Report

/-! ### The variables of the loop -/

section Loop

variable {job : Job} {runs : Nat → SdkRun}

variable (job runs) in
/-- `current_session_id` before run `k`. -/
def currentSessionId : Nat → Option SessionId
  | 0 => job.sessionId
  | k + 1 => (lastFinished job runs (k + 1)).bind RunResult.sessionId

variable (job runs) in
/-- How the loop ends with run `k`. -/
def endOf (k : Nat) : LoopEnd :=
  match outcome job (runs k) with
  | .finished r => .returned (some r.toResult)
  | .superseded => .superseded
  | _ =>
    if lastFinished job runs k = none ∧ ¬ Continues job runs k then
      .returned (some (stoppedByUser (currentSessionId job runs k)))
    else .returned ((lastFinished job runs k).map RunResult.toResult)

/-- A run that was cut short leaves the last result. -/
theorem lastFinished_succ_of_ne {k : Nat} (h : ∀ r, outcome job (runs k) ≠ .finished r) :
    lastFinished job runs (k + 1) = lastFinished job runs k := by
  rw [lastFinished]
  split
  · next r hr => exact absurd hr (h r)
  · rfl

theorem lastFinished_succ {k : Nat} {r : RunResult} (h : outcome job (runs k) = .finished r) :
    lastFinished job runs (k + 1) = some r := by
  rw [lastFinished, h]

theorem known_succ_of_ne {k : Nat} (h : ∀ r, outcome job (runs k) ≠ .finished r) :
    known job runs (k + 1) = known job runs k := by
  rw [known]
  split
  · next r hr => exact absurd hr (h r)
  · rfl

theorem known_succ {k : Nat} {r : RunResult} (h : outcome job (runs k) = .finished r) :
    known job runs (k + 1) = r.sessionId.or (known job runs k) := by
  rw [known, h]

/-- The result after a run. -/
theorem afterRun_fst (k : Nat) : (afterRun ((lastFinished job runs k).map RunResult.toResult)
    (outcome job (runs k))).1 = (lastFinished job runs (k + 1)).map RunResult.toResult := by
  cases h : outcome job (runs k) with
  | finished r =>
    rw [lastFinished_succ h]
    rfl
  | stopped | interrupted | superseded =>
    rw [lastFinished_succ_of_ne (by simp [h])]
    rfl

variable (job runs) in
/-- The variables before run `k`. -/
def carried (k : Nat) (prompt : String) : Carried :=
  ⟨(lastFinished job runs k).map RunResult.toResult, prompt, currentSessionId job runs k⟩

variable (job runs) in
/-- Run `k` as it is started. -/
def startedAt (k : Nat) (prompt : String) : Started :=
  ⟨k, sessionOption job k (currentSessionId job runs k), prompt⟩

/-- The session that the loop holds after a run is that of the last result. -/
theorem carried_succ (k : Nat) (prompt : String) {result : Option Result}
    (h : result = (lastFinished job runs (k + 1)).map RunResult.toResult) :
    carried job runs (k + 1) prompt = ⟨result, prompt, result.bind fun r ↦ r.sessionId⟩ := by
  rw [h, carried, currentSessionId]
  cases lastFinished job runs (k + 1) with
  | none => rfl
  | some r => rfl

/-- The end with a run that was cut short. -/
theorem endOf_of_cut {k : Nat} (h : outcome job (runs k) = .stopped ∨
    outcome job (runs k) = .interrupted) : endOf job runs k =
      if lastFinished job runs k = none ∧ ¬ Continues job runs k then
        .returned (some (stoppedByUser (currentSessionId job runs k)))
      else .returned ((lastFinished job runs k).map RunResult.toResult) := by
  unfold endOf
  obtain h | h := h
  · rw [h]
  · rw [h]

theorem goes_iff (job : Job) (run : SdkRun) :
    (job.streaming && !run.inbox.isEmpty) = true ↔ job.streaming = true ∧ run.inbox ≠ [] := by
  simp

/-- An iteration whose run is cut short keeps the result of the last one. -/
theorem sdkLoop_succ_of_cut (n k : Nat) (prompt : String)
    (hcase : outcome job (runs k) = .stopped ∨ outcome job (runs k) = .interrupted) :
    sdkLoop job runs (n + 1) k (carried job runs k prompt) =
      if Continues job runs k then
        let rest := sdkLoop job runs n (k + 1)
          (carried job runs (k + 1) (inboxPrompt (runs k).inbox))
        (startedAt job runs k prompt :: rest.1, rest.2)
      else ([startedAt job runs k prompt], endOf job runs k) := by
  have hafter : afterRun (carried job runs k prompt).result (outcome job (runs k)) =
      ((lastFinished job runs k).map RunResult.toResult, true, true) := by
    obtain h | h := hcase
    · rw [h]
      rfl
    · rw [h]
      rfl
  have hsame : (lastFinished job runs k).map RunResult.toResult =
      (lastFinished job runs (k + 1)).map RunResult.toResult := by
    rw [← afterRun_fst k]
    exact (congrArg Prod.fst hafter).symm
  rw [sdkLoop, hafter]
  simp only [Bool.not_true, Bool.and_false, Bool.false_eq_true, if_false, Bool.true_and]
  by_cases hcontinues : Continues job runs k
  · rw [if_pos ((goes_iff _ _).mpr hcontinues.2), if_pos hcontinues, carried_succ k _ hsame]
    rfl
  · have hstays : ¬ (job.streaming && !(runs k).inbox.isEmpty) = true := by
      intro hgo
      apply hcontinues
      refine ⟨?_, (goes_iff _ _).mp hgo⟩
      obtain h | h := hcase
      · simp [h]
      · simp [h]
    rw [if_neg hstays, if_neg hcontinues, endOf_of_cut hcase]
    cases lastFinished job runs k with
    | none => simp [hcontinues, startedAt, carried]
    | some r => simp [startedAt, carried]

/-- One iteration: the loop goes on, or ends with the run. -/
theorem sdkLoop_succ (n k : Nat) (prompt : String) :
    sdkLoop job runs (n + 1) k (carried job runs k prompt) =
      if Continues job runs k then
        let rest := sdkLoop job runs n (k + 1)
          (carried job runs (k + 1) (inboxPrompt (runs k).inbox))
        (startedAt job runs k prompt :: rest.1, rest.2)
      else ([startedAt job runs k prompt], endOf job runs k) := by
  cases h : outcome job (runs k) with
  | finished r =>
    have hresult : (afterRun ((lastFinished job runs k).map RunResult.toResult)
        (outcome job (runs k))).1 = (lastFinished job runs (k + 1)).map RunResult.toResult :=
      afterRun_fst k
    rw [h] at hresult
    rw [sdkLoop, h]
    simp only [afterRun, Bool.false_and, Option.isNone_some, Bool.false_eq_true, if_false]
    by_cases hcontinues : Continues job runs k
    · rw [if_pos ((goes_iff _ _).mpr hcontinues.2), if_pos hcontinues, carried_succ k _ hresult]
      rfl
    · have hstays : ¬ (job.streaming && !(runs k).inbox.isEmpty) = true := by
        intro hgo
        exact hcontinues ⟨by simp [h], (goes_iff _ _).mp hgo⟩
      rw [if_neg hstays, if_neg hcontinues, endOf, h]
      rfl
  | superseded =>
    have hcontinues : ¬ Continues job runs k := fun hgo ↦ hgo.1 h
    rw [if_neg hcontinues, sdkLoop, h, endOf, h]
    rfl
  | stopped => exact sdkLoop_succ_of_cut n k prompt (.inl h)
  | interrupted => exact sdkLoop_succ_of_cut n k prompt (.inr h)

/-- The runs from `k` on: every one that starts is started, with the session the loop holds, and the
loop ends with the last one. -/
structure Traced (job : Job) (runs : Nat → SdkRun) (k : Nat) (out : List Started × LoopEnd) :
    Prop where
  session : ∀ run ∈ out.1, Starts job runs run.index ∧
    run.session = sessionOption job run.index (currentSessionId job runs run.index)
  started : ∀ i, k ≤ i → Starts job runs i → ∃ run ∈ out.1, run.index = i
  ended : ∃ last ∈ out.1.getLast?, Last job runs last.index ∧ out.2 = endOf job runs last.index

/-- Nothing starts behind the last run. -/
theorem le_of_last {k i : Nat} (hlast : Last job runs k) (hi : Starts job runs i) : i ≤ k := by
  by_contra hlt
  have hcontinues : Continues job runs k := hi.2 k (by omega)
  have hmax := hlast.2 hcontinues
  have hle := hi.1
  omega

/-- Using up the last iteration is no different from ending with it. -/
theorem endOf_of_continues {k : Nat} (h : Continues job runs k) :
    endOf job runs k = .returned ((lastFinished job runs (k + 1)).map RunResult.toResult) := by
  cases hout : outcome job (runs k) with
  | finished r => rw [lastFinished_succ hout, endOf, hout, Option.map_some]
  | superseded => exact absurd hout h.1
  | stopped =>
    rw [lastFinished_succ_of_ne (by simp [hout]), endOf_of_cut (.inl hout), if_neg fun hn ↦ hn.2 h]
  | interrupted =>
    rw [lastFinished_succ_of_ne (by simp [hout]), endOf_of_cut (.inr hout), if_neg fun hn ↦ hn.2 h]

/-- The last run is the only one from it on. -/
theorem traced_of_last {k : Nat} (hlast : Last job runs k) (prompt : String) :
    Traced job runs k ([startedAt job runs k prompt], endOf job runs k) := by
  refine ⟨?_, ?_, _, rfl, hlast, rfl⟩
  · intro run hrun
    rw [List.mem_singleton.mp hrun]
    exact ⟨hlast.1, rfl⟩
  · intro i hle hi
    have heq : i = k := Nat.le_antisymm (le_of_last hlast hi) hle
    exact ⟨_, List.mem_singleton_self _, heq.symm⟩

theorem sdkLoop_traced (n : Nat) : ∀ k prompt, n + k = job.maxAutoContinues → Starts job runs k →
    Traced job runs k (sdkLoop job runs (n + 1) k (carried job runs k prompt)) := by
  induction n with
  | zero =>
    intro k prompt hk hstarts
    have hend : sdkLoop job runs 1 k (carried job runs k prompt) =
        ([startedAt job runs k prompt], endOf job runs k) := by
      rw [sdkLoop_succ]
      split
      · next hcontinues =>
        rw [endOf_of_continues hcontinues]
        rfl
      · rfl
    have hlast : Last job runs k := ⟨hstarts, fun _ ↦ by omega⟩
    rw [hend]
    exact traced_of_last hlast prompt
  | succ n ih =>
    intro k prompt hk hstarts
    rw [sdkLoop_succ]
    split
    · next hcontinues =>
      have hnext : Starts job runs (k + 1) := by
        refine ⟨by omega, fun j hj ↦ ?_⟩
        rcases Nat.lt_succ_iff_lt_or_eq.mp hj with hj | rfl
        · exact hstarts.2 j hj
        · exact hcontinues
      obtain ⟨hsession, hstarted, last, hmem, hlast⟩ :=
        ih (k + 1) (inboxPrompt (runs k).inbox) (by omega) hnext
      refine ⟨?_, ?_, last, ?_, hlast⟩
      · intro run hrun
        rcases List.mem_cons.mp hrun with rfl | hrun
        · exact ⟨hstarts, rfl⟩
        · exact hsession run hrun
      · intro i hle hi
        rcases Nat.eq_or_lt_of_le hle with rfl | hlt
        · exact ⟨_, List.mem_cons_self, rfl⟩
        · obtain ⟨run, hrun, heq⟩ := hstarted i hlt hi
          exact ⟨run, List.mem_cons_of_mem _ hrun, heq⟩
      · rw [List.getLast?_cons, Option.mem_def.mp hmem]
        rfl
    · next hends =>
      have hlast : Last job runs k := ⟨hstarts, fun hcontinues ↦ absurd hcontinues hends⟩
      exact traced_of_last hlast prompt

/-- What the loop starts and how it ends. -/
theorem executeSdkLoop_traced (job : Job) (runs : Nat → SdkRun) :
    Traced job runs 0 (executeSdkLoop job runs) :=
  sdkLoop_traced job.maxAutoContinues 0 job.prompt rfl ⟨Nat.zero_le _, nofun⟩

/-! ### When the loop is faithful -/

/-- Before any run has finished, the job's session is the one that is known. -/
theorem known_of_lastFinished {k : Nat} (h : lastFinished job runs k = none) :
    known job runs k = job.sessionId := by
  induction k with
  | zero => rfl
  | succ k ih =>
    have hne : ∀ r, outcome job (runs k) ≠ .finished r := by
      intro r hr
      rw [lastFinished_succ hr] at h
      cases h
    rw [lastFinished_succ_of_ne hne] at h
    rw [known_succ_of_ne hne, ih h]

/-- As long as it holds the session after every run, the loop has the one that is known. -/
theorem currentSessionId_eq {k : Nat} (h : ∀ j < k, Holds job runs j) :
    currentSessionId job runs k = known job runs k := by
  induction k with
  | zero => rfl
  | succ k ih =>
    have hprev := ih fun j hj ↦ h j (Nat.lt_succ_of_lt hj)
    have hholds := h k (Nat.lt_succ_self k)
    by_cases hfinished : ∃ r, outcome job (runs k) = .finished r
    · obtain ⟨r, hr⟩ := hfinished
      rw [Holds, hr] at hholds
      rw [currentSessionId, lastFinished_succ hr, known_succ hr, Option.bind_some]
      cases hid : r.sessionId with
      | none => rw [hholds hid, Option.or_none]
      | some id => rfl
    · have hne : ∀ r, outcome job (runs k) ≠ .finished r := fun r hr ↦ hfinished ⟨r, hr⟩
      have hnone : lastFinished job runs k = none → job.sessionId = none := by
        rw [Holds] at hholds
        split at hholds
        · next r hr => exact absurd hr (hne r)
        · exact hholds
      rw [currentSessionId, lastFinished_succ_of_ne hne, known_succ_of_ne hne]
      cases hlast : lastFinished job runs k with
      | none => rw [known_of_lastFinished hlast, hnone hlast, Option.bind_none]
      | some r =>
        rw [← hprev]
        cases k with
        | zero => cases hlast
        | succ k => rw [currentSessionId, hlast]

/-- If a run resumes the session that is known then the loop has held it. -/
theorem holds_of_resumed {k : Nat} (h : ∀ id, known job runs (k + 1) = some id →
    currentSessionId job runs (k + 1) = some id) : Holds job runs k := by
  unfold Holds
  split
  · next r hr =>
    intro hid
    rw [known_succ hr, currentSessionId, lastFinished_succ hr, hid, Option.none_or,
      Option.bind_some, hid] at h
    cases hknown : known job runs k with
    | none => rfl
    | some id => cases h id hknown
  · next hne =>
    intro hnone
    have hne : ∀ r, outcome job (runs k) ≠ .finished r := fun r hr ↦ hne r hr
    rw [known_succ_of_ne hne, known_of_lastFinished hnone, currentSessionId,
      lastFinished_succ_of_ne hne, hnone, Option.bind_none] at h
    cases hid : job.sessionId with
    | none => rfl
    | some id => cases h id hid

/-- The session that an auto-continue resumes. -/
theorem sessionOption_eq_resume {k : Nat} {current : Option SessionId} {id : SessionId}
    (hk : 0 < k) : sessionOption job k current = .resume id ↔ current = some id := by
  unfold sessionOption
  rw [if_neg (by omega)]
  cases current with
  | none => simp
  | some held => simp

/-- The end with a run reports it exactly if the run is told, while the loop has the session that is
known. -/
theorem reports_endOf_iff {k : Nat} (hsession : currentSessionId job runs k = known job runs k) :
    (∀ result, endOf job runs k = .returned result →
      Reports (known job runs k) result (outcome job (runs k))) ↔ Told job runs k := by
  cases hout : outcome job (runs k) with
  | finished r => simp [endOf, Told, Reports, hout, eq_comm]
  | superseded => simp [Told, Reports, hout]
  | stopped =>
    rw [endOf_of_cut (.inl hout)]
    simp only [Told, Reports, hout]
    split
    · next h => simp [h, hsession, stoppedByUser]
    · next h =>
      cases hlast : lastFinished job runs k with
      | none =>
        rw [hlast] at h
        simp only [true_and] at h
        simp [h]
      | some r => simp [RunResult.toResult]
  | interrupted =>
    rw [endOf_of_cut (.inr hout)]
    simp only [Told, Reports, hout]
    split
    · next h => simp [h, stoppedByUser]
    · next h =>
      cases hlast : lastFinished job runs k with
      | none => simp
      | some r => simp [RunResult.toResult]

end Loop

/-- The loop is faithful exactly if it holds the session after every run that is followed by
another, and if its last run is told. -/
theorem faithful_iff (job : Job) (runs : Nat → SdkRun) :
    Faithful job runs (executeSdkLoop job runs) ↔ Orderly job runs := by
  obtain ⟨hsession, hstarted, last, hmem, hlast, hend⟩ := executeSdkLoop_traced job runs
  have hheld (h : ∀ k, Starts job runs (k + 1) → Holds job runs k) {k : Nat}
      (hk : Starts job runs k) : currentSessionId job runs k = known job runs k := by
    apply currentSessionId_eq
    intro j hj
    apply h
    exact ⟨by have hmax := hk.1; omega, fun i hi ↦ hk.2 i (by omega)⟩
  constructor
  · rintro ⟨hreported, hresumed⟩
    have hholds : ∀ k, Starts job runs (k + 1) → Holds job runs k := by
      intro k hk
      apply holds_of_resumed
      intro id hid
      obtain ⟨run, hrun, hindex⟩ := hstarted (k + 1) (Nat.zero_le _) hk
      have hresume := hresumed run hrun (by omega) id (by rw [hindex]; exact hid)
      rw [(hsession run hrun).2, hindex] at hresume
      exact (sessionOption_eq_resume (Nat.succ_pos k)).mp hresume
    refine ⟨hholds, fun k hk ↦ ?_⟩
    have heq : k = last.index := Nat.le_antisymm (le_of_last hlast hk.1) (le_of_last hk hlast.1)
    rw [heq, ← reports_endOf_iff (hheld hholds hlast.1)]
    intro result hresult
    exact hreported result (hend.trans hresult) last hmem
  · rintro ⟨hholds, htold⟩
    refine ⟨fun result hresult run hrun ↦ ?_, fun run hrun hpos id hid ↦ ?_⟩
    · obtain rfl : last = run := Option.mem_unique hmem hrun
      exact (reports_endOf_iff (hheld hholds hlast.1)).mpr (htold _ hlast) result
        (hend.symm.trans hresult)
    · rw [(hsession run hrun).2, sessionOption_eq_resume hpos,
        hheld hholds (hsession run hrun).1, hid]

/-! ### A stop that is not reported -/

/-- A job with a lock and a streaming session. -/
def streamedJob : Job where
  mode := .new
  sessionId := none
  prompt := "Review the change."
  lock := true
  streaming := true
  maxAutoContinues := 10

/-- The result of its first run. -/
def firstResult : RunResult where
  response := "Done."
  sessionId := some ⟨"s", by decide⟩
  numTurns := 3
  isError := false

/-- The first run finishes while a message waits in the inbox; the user stops the second. -/
def stoppedRuns (k : Nat) : SdkRun :=
  if k = 0 then ⟨firstResult, none, ["And the tests?"]⟩ else ⟨firstResult, some .stopAgent, []⟩

/-- The loop returns the result of the first run, as if the second had not been started. -/
theorem not_faithful : ¬ ∀ (job : Job) (runs : Nat → SdkRun),
    Faithful job runs (executeSdkLoop job runs) := by
  intro h
  obtain ⟨r, hr, hcancelled, -⟩ := (h streamedJob stoppedRuns).reported
    (some firstResult.toResult) rfl _ rfl
  rw [← Option.some.inj hr] at hcancelled
  cases hcancelled

end GithubAgent.Executor.LastRun
