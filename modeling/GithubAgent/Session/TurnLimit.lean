import GithubAgent.Base.Transition
import GithubAgent.Session.Store

/-!
# The turn count of a conversation

The runs of one thread and workflow: the request processor starts a run as the stored session
tells it, the sandbox saves the session when the run has finished, and the record may be
forgotten at any time, by its expiry or by `close_session`. Runs may overlap and need not
finish. The record is compared with the turns of the runs since the last one started `new`.
-/

namespace GithubAgent.Session

open GithubAgent.Base GithubAgent.Shared

/-- A run as it was started, and its turns once it has finished. -/
structure Run where
  mode : SessionMode
  turns : Option Int := none
  deriving DecidableEq

/-- The turns of the finished runs since the latest one that was started `new`, which counts
too; the list begins with the run started last. -/
def turnsUsed : List Run → Int
  | [] => 0
  | run :: older => run.turns.getD 0 + if run.mode = .new then 0 else turnsUsed older

/-- The run belongs to the current conversation: none of those started after it was `new`. -/
def Current (runs : List Run) (i : Nat) : Prop := ∀ run ∈ runs.take i, run.mode ≠ .new

instance (runs : List Run) (i : Nat) : Decidable (Current runs i) := List.decidableBAll ..

/-- The `result` of a finished run, with the fields `_save_session` reads
(`processor.py:775-815`). -/
structure Result where
  now : String
  sessionId : String
  worktreePath : String
  ref : String
  numTurns : Int
  streamingToken : Option String := none

/-- The stored record of the thread and the runs started so far, the last one first. -/
structure Thread where
  record : Option SessionInfo := none
  runs : List Run := []

/-- The steps: a comment that starts a run, the end of the run with this many younger ones, and
the expiry or deletion of the record. -/
inductive ThreadAction where
  | start (userQuery : String)
  | finish (i : Nat) (result : Result)
  | forget

/-- The run decided from the stored record. -/
def Thread.start (config : ConversationConfig) (issueNumber : Int) (s : Thread)
    (userQuery : String) : Thread :=
  { s with runs := ⟨(resolveSession config (some issueNumber) userQuery s.record).mode, none⟩ ::
      s.runs }

/-- A run that has not finished does, and its session is saved; a result without a session id
is not stored. -/
def Thread.finish (key : WorktreeKey) (s : Thread) (i : Nat) (result : Result) : Option Thread :=
  match s.runs[i]? with
  | some ⟨mode, none⟩ =>
    if result.sessionId = "" then none
    else some {
      record := some (saveSession s.record result.now key result.sessionId result.worktreePath
        result.ref result.numTurns none result.streamingToken)
      runs := s.runs.set i ⟨mode, some result.numTurns⟩ }
  | _ => none

/-- The system of one thread. -/
def thread (config : ConversationConfig) (key : WorktreeKey) (issueNumber : Int) :
    System Thread ThreadAction where
  init s := s = {}
  step s
    | .start userQuery => some (s.start config issueNumber userQuery)
    | .finish i result => s.finish key i result
    | .forget => some { s with record := none }

/-- The counter of every stored session is the turns of its conversation, and the decision
refuses a continuation exactly when these have reached the limit. -/
structure CountsConversation (config : ConversationConfig) (issueNumber : Int) (s : Thread)
    (session : SessionInfo) : Prop where
  turnCount : session.turnCount = turnsUsed s.runs
  refused : ∀ userQuery, requestedMode config userQuery ≠ .new →
    ((resolveSession config (some issueNumber) userQuery (some session)).mode = .new ↔
      config.maxTurns ≤ turnsUsed s.runs)
  continued : ∀ userQuery, requestedMode config userQuery ≠ .new →
    turnsUsed s.runs < config.maxTurns →
      (resolveSession config (some issueNumber) userQuery (some session)).mode =
        requestedMode config userQuery ∧
      (resolveSession config (some issueNumber) userQuery (some session)).sessionId =
        some session.sessionId

/-- A run starts `new` only beside a record without turns; turns are saved only for the current
conversation, and to an absent record only as its first ones. -/
def CountsOn (config : ConversationConfig) (issueNumber : Int) (s : Thread) :
    ThreadAction → Prop
  | .start userQuery =>
    (resolveSession config (some issueNumber) userQuery s.record).mode = .new →
      (s.record.map (·.turnCount)).getD 0 = 0
  | .finish i result =>
    (result.numTurns = 0 ∨ Current s.runs i) ∧ (s.record = none → turnsUsed s.runs = 0)
  | .forget => True

instance (config : ConversationConfig) (issueNumber : Int) (s : Thread) :
    (a : ThreadAction) → Decidable (CountsOn config issueNumber s a)
  | .start _ => inferInstanceAs (Decidable (_ → _))
  | .finish _ _ => inferInstanceAs (Decidable (_ ∧ _))
  | .forget => instDecidableTrue

/-! ### The counter over a run -/

section Counter

variable {config : ConversationConfig} {key : WorktreeKey} {issueNumber : Int} {s s' : Thread}

/-- The turns of a run that finishes are added if it is of the current conversation. -/
theorem turnsUsed_set {runs : List Run} {i : Nat} {mode : SessionMode} (n : Int)
    (h : runs[i]? = some ⟨mode, none⟩) :
    turnsUsed (runs.set i ⟨mode, some n⟩) =
      turnsUsed runs + if Current runs i then n else 0 := by
  induction runs generalizing i with
  | nil => cases h
  | cons run older ih =>
    cases i with
    | zero =>
      rw [List.getElem?_cons_zero, Option.some.injEq] at h
      subst h
      have hcurrent : Current (⟨mode, none⟩ :: older) 0 := by
        intro run hrun
        cases hrun
      rw [List.set_cons_zero, turnsUsed, turnsUsed, if_pos hcurrent]
      simp only [Option.getD_some, Option.getD_none]
      omega
    | succ i =>
      rw [List.getElem?_cons_succ] at h
      rw [List.set_cons_succ, turnsUsed, turnsUsed, ih h]
      by_cases hnew : run.mode = .new
      · have hpast : ¬ Current (run :: older) (i + 1) :=
          fun hc ↦ hc run (by simp [List.take_succ_cons]) hnew
        simp only [hnew, if_true, if_neg hpast]
        omega
      · have hsame : Current (run :: older) (i + 1) ↔ Current older i := by
          simp [Current, List.take_succ_cons, hnew]
        simp only [hnew, if_false, hsame]
        omega

/-- The invariant: the counter of the record is the turns of the conversation. -/
def Counted (s : Thread) : Prop := ∀ session ∈ s.record, session.turnCount = turnsUsed s.runs

/-- A run that starts keeps the counter right, since a fresh start finds it at 0. -/
theorem Counted.start (h : Counted s) {userQuery : String}
    (hok : CountsOn config issueNumber s (.start userQuery)) :
    Counted (s.start config issueNumber userQuery) := by
  intro session hsession
  have hused := h session hsession
  have hrecord : s.record = some session := hsession
  simp only [Thread.start, turnsUsed, Option.getD_none]
  by_cases hnew : (resolveSession config (some issueNumber) userQuery s.record).mode = .new
  · have hzero := hok hnew
    rw [hrecord, Option.map_some, Option.getD_some] at hzero
    rw [if_pos hnew, hzero]
    rfl
  · rw [if_neg hnew]
    omega

/-- A run that finishes adds its turns on both sides. -/
theorem Counted.finish (h : Counted s) {i : Nat} {result : Result}
    (hok : CountsOn config issueNumber s (.finish i result))
    (hs : s.finish key i result = some s') : Counted s' := by
  unfold Thread.finish at hs
  split at hs
  · next mode hrun =>
    split at hs
    · cases hs
    · cases hs
      intro session hsession
      cases hsession
      obtain ⟨hturns, hfirst⟩ := hok
      have hshare : (if Current s.runs i then result.numTurns else 0) = result.numTurns := by
        rcases hturns with hzero | hcurrent
        · rw [hzero, ite_self]
        · rw [if_pos hcurrent]
      have hstored : (s.record.map (·.turnCount)).getD 0 = turnsUsed s.runs := by
        cases hr : s.record with
        | none => exact (hfirst hr).symm
        | some old => exact h old hr
      rw [turnsUsed_set result.numTurns hrun, hshare]
      simp only [saveSession, hstored]
  · cases hs

/-- The run rule for the counter. -/
theorem counted_of_reachWhen
    (h : (thread config key issueNumber).ReachWhen (CountsOn config issueNumber) s) :
    Counted s := by
  refine h.invariant ?_ ?_
  · intro t ht
    rw [ht]
    intro session hsession
    cases hsession
  · intro t a t' ht hok hs
    cases a with
    | start userQuery =>
      cases hs
      exact ht.start hok
    | finish i result => exact ht.finish hok hs
    | forget =>
      cases hs
      intro session hsession
      cases hsession

/-- While no run starts fresh beside a counted record, no late run adds to a younger
conversation and no conversation loses its record between its runs, the counter is the turns
of the current conversation, and continuations are refused by it. -/
theorem countsConversation_of_countsOn (hpersist : config.persist = true)
    (hnumber : issueNumber ≠ 0)
    (h : (thread config key issueNumber).ReachWhen (CountsOn config issueNumber) s)
    {session : SessionInfo} (hsession : s.record = some session) :
    CountsConversation config issueNumber s session := by
  have hcount : session.turnCount = turnsUsed s.runs := counted_of_reachWhen h session hsession
  refine ⟨hcount, ?_, ?_⟩
  · intro userQuery hasked
    rw [resolveSession_mode hpersist hnumber, hcount]
    by_cases hlimit : config.maxTurns ≤ turnsUsed s.runs
    · simp [hlimit]
    · simp [hlimit, hasked]
  · intro userQuery hasked hbelow
    have hmode : (resolveSession config (some issueNumber) userQuery (some session)).mode =
        requestedMode config userQuery := by
      rw [resolveSession_mode hpersist hnumber, hcount, if_neg (by omega)]
    refine ⟨hmode, ?_⟩
    rw [resolveSession_sessionId hpersist hnumber, hmode, if_neg hasked]

end Counter

/-! ### A limit of ten turns -/

/-- Persistent sessions that are continued by every reply, up to ten turns. -/
def tenTurns : ConversationConfig := { persist := true, maxTurns := 10, autoContinue := true }

/-- The thread of issue 3. -/
def issueThread : WorktreeKey := ⟨"octo/repo", .issue, "3", "triage"⟩

/-- The result of a run of some turns. -/
def resultOf (numTurns : Int) : Result := ⟨"", "s", "", "main", numTurns, none⟩

/-- A conversation of two runs. -/
theorem countsConversation_of_countsOn_twoRuns :
    ∃ s session, s.record = some session ∧ CountsConversation tenTurns 3 s session := by
  obtain ⟨s, hs, hsome⟩ := System.exists_reachWhen (thread tenTurns issueThread 3)
    (CountsOn tenTurns 3) (fun s ↦ s.record.isSome = true)
    [.start "", .finish 0 (resultOf 4), .start "", .finish 0 (resultOf 5)] rfl (by decide)
  obtain ⟨session, hsession⟩ := Option.isSome_iff_exists.mp hsome
  exact ⟨s, session, hsession,
    countsConversation_of_countsOn rfl (by decide) hs hsession⟩

/-- After the limit is reached, a fresh run of two turns is stored with twelve. -/
theorem not_countsConversation :
    ¬ ∀ s session, (thread tenTurns issueThread 3).Reach s → s.record = some session →
      CountsConversation tenTurns 3 s session := by
  intro hall
  obtain ⟨s, hs, hcount, hused⟩ := System.exists_reachWhen (thread tenTurns issueThread 3)
    System.always (fun s ↦ s.record.map (·.turnCount) = some 12 ∧ turnsUsed s.runs = 2)
    [.start "", .finish 0 (resultOf 10), .start "", .finish 0 (resultOf 2)] rfl (by decide)
  obtain ⟨session, hsession, htwelve⟩ := Option.map_eq_some_iff.mp hcount
  have hright := (hall s session hs hsession).turnCount
  rw [htwelve, hused] at hright
  cases hright

end GithubAgent.Session
