import GithubAgent.Session.Store
import GithubAgent.Webhook.Command
import GithubAgent.Webhook.Conversation

/-!
# Session flags in comments

A comment starts with a command and a session flag. The webhook splits the command off and
queues the rest as the query; the request processor looks for the flag behind a slash command
in that query.
-/

namespace GithubAgent.Session

open GithubAgent.Base GithubAgent.Shared GithubAgent.Webhook

/-- A created issue comment whose body is a configured command, whitespace, a session flag, and
the end of the text or whitespace and more. -/
structure FlaggedComment (env : Env) where
  req : Request
  command : String
  gap : List Char
  flag : String
  mode : SessionMode
  tail : List Char
  created : req.eventType = "issue_comment" ∧ req.action = "created"
  body : ∃ comment, req.data.dict "comment" = some comment ∧ comment.lookup "body" =
    some (.str (String.ofList (command.toList ++ gap ++ flag.toList ++ tail)))
  configured : (env.engine.getWorkflowForCommand command).isSome = true
  wellFormed : isCommand command = true
  gap_ne_nil : gap ≠ []
  gap_isSpace : ∀ c ∈ gap, isSpace c = true
  flag_mem : (flag, mode) ∈ sessionFlags
  tail_isSpace : ∀ c ∈ tail.head?, isSpace c = true

/-- The decision on a queued job: the session of its thread and workflow is looked up
(`request_processor.py:244-263`). -/
def decideJob (configs : String → ConversationConfig) (store : String → Option SessionInfo)
    (repo : String) (job : Job) : Decision :=
  resolveSession (configs job.workflowName) job.issueNumber job.userQuery
    (store (job.keys repo).session)

/-- The job starts as the flag says: from the stored session, unless a new one is asked for. -/
def Honoured (mode : SessionMode) (session : SessionInfo) (decision : Decision) : Prop :=
  decision.mode = mode ∧
    decision.sessionId = if mode = .new then none else some session.sessionId

/-! ### What is left of the comment -/

/-- A flag starts with a hyphen. -/
theorem exists_of_mem_sessionFlags {flag : String} {mode : SessionMode}
    (h : (flag, mode) ∈ sessionFlags) : ∃ letters, flag.toList = '-' :: letters := by
  have hall : ∀ entry ∈ sessionFlags, entry.1.toList.head? = some '-' := by decide
  exact List.head?_eq_some_iff.mp (hall _ h)

/-- The webhook takes the command off a body, and the query starts with what followed. -/
theorem parseCommand_of_body {word gap : List Char} {c : Char} (text : List Char)
    (hword : word ≠ []) (hletters : ∀ x ∈ word, isSpace x = false) (hgap : gap ≠ [])
    (hspace : ∀ x ∈ gap, isSpace x = true) (hc : isSpace c = false) :
    ∃ query, parseCommand (String.ofList ('/' :: (word ++ gap ++ c :: text))) =
      some (String.ofList ('/' :: word), String.ofList (c :: query)) := by
  have hline : c ≠ '\n' := by
    rintro rfl
    cases hc
  have hhead : ∀ x ∈ (gap ++ c :: text).head?, isSpace x = true := by
    intro x hx
    rw [List.head?_append_of_ne_nil gap hgap] at hx
    exact hspace x (List.mem_of_mem_head? hx)
  have hstart : strip (gap ++ c :: text) = c :: text.rdropWhile isSpace := by
    have hquery : (gap ++ c :: text).dropWhile isSpace = c :: text := by
      rw [List.dropWhile_append_of_pos hspace]
      simp [hc]
    rw [strip_eq, hquery]
    exact stripEnd_append [] text hc
  have hcut : (c :: text.rdropWhile isSpace).takeWhile (· ≠ '\n') =
      c :: (text.rdropWhile isSpace).takeWhile (· ≠ '\n') := by
    simp [hline]
  refine ⟨((text.rdropWhile isSpace).takeWhile (· ≠ '\n')).rdropWhile isSpace, ?_⟩
  rw [List.append_assoc, parseCommand_eq hword hletters hhead, hstart, hcut, strip_cons _ hc]

/-- A query that does not start with a slash carries no flag. -/
theorem parseSessionFlag_of_ne {c : Char} (query : List Char) (hspace : isSpace c = false)
    (hslash : c ≠ '/') : (parseSessionFlag (String.ofList (c :: query))).1 = none := by
  have hstart : (c :: query).dropWhile isSpace = c :: query := by simp [hspace]
  unfold parseSessionFlag
  rw [String.toList_ofList, hstart]
  split
  · next text heq => exact absurd (List.cons.inj heq).1 hslash
  · rfl

section Comment

variable {env : Env} {c : FlaggedComment env} {job : Job}
  {configs : String → ConversationConfig} {store : String → Option SessionInfo} {repo : String}
  {n : Int} {session : SessionInfo}

/-- The job queued for a flagged comment has a query without a flag. -/
theorem FlaggedComment.flag_lost (hjob : job ∈ (webhook env c.req).jobs) :
    (parseSessionFlag job.userQuery).1 = none := by
  obtain ⟨_, _, hbuild⟩ := buildJob_of_mem_jobs hjob
  obtain ⟨_, _, command, _, _, _, hparsed, _⟩ := buildJob_cases hbuild
  obtain ⟨word, hcommand, hword, hletters⟩ := exists_of_isCommand c.wellFormed
  obtain ⟨letters, hflag⟩ := exists_of_mem_sessionFlags c.flag_mem
  have hhyphen : isSpace '-' = false := by decide
  obtain ⟨query, hquery⟩ := parseCommand_of_body (letters ++ c.tail) hword hletters
    c.gap_ne_nil c.gap_isSpace hhyphen
  obtain ⟨comment, hdict, hbody⟩ := c.body
  have htext : c.command.toList ++ c.gap ++ c.flag.toList ++ c.tail =
      '/' :: (word ++ c.gap ++ '-' :: (letters ++ c.tail)) := by
    rw [hcommand, hflag]
    simp
  rw [htext] at hbody
  unfold parseComment at hparsed
  rw [if_pos c.created, hdict] at hparsed
  simp only [getAttr, hbody, bind, pure, Except.bind, Except.pure, hquery] at hparsed
  split at hparsed
  · cases hparsed
  · split at hparsed
    · cases hparsed
    · simp only [Except.ok.injEq, Sum.inr.injEq, Prod.mk.injEq] at hparsed
      rw [← hparsed.2]
      exact parseSessionFlag_of_ne query hhyphen (by decide)

/-- A flag is honoured only where the configuration alone leads to the same mode. -/
theorem honoured_iff (hjob : job ∈ (webhook env c.req).jobs)
    (hpersist : (configs job.workflowName).persist = true)
    (hnumber : job.issueNumber = some n) (hn : n ≠ 0)
    (hstored : store (job.keys repo).session = some session)
    (hlimit : session.turnCount < (configs job.workflowName).maxTurns) :
    Honoured c.mode session (decideJob configs store repo job) ↔
      (c.mode = .resume ∧ (configs job.workflowName).autoContinue = true) ∨
        (c.mode = .new ∧ (configs job.workflowName).autoContinue = false) := by
  have hmode : (decideJob configs store repo job).mode =
      if (configs job.workflowName).autoContinue then .resume else .new := by
    rw [decideJob, hnumber, hstored, resolveSession_mode hpersist hn, if_neg (by omega),
      requestedMode, FlaggedComment.flag_lost hjob]
  have hid : (decideJob configs store repo job).sessionId =
      if (decideJob configs store repo job).mode = .new then none else some session.sessionId := by
    rw [decideJob, hnumber, hstored, resolveSession_sessionId hpersist hn]
  unfold Honoured
  rw [hid, hmode]
  cases hauto : (configs job.workflowName).autoContinue with
  | true =>
    simp only [if_true, Bool.true_eq_false, and_true, and_false, or_false]
    constructor
    · intro h
      exact h.1.symm
    · intro h
      rw [h]
      exact ⟨rfl, rfl⟩
  | false =>
    simp only [Bool.false_eq_true, if_false, and_false, and_true, false_or]
    constructor
    · intro h
      exact h.1.symm
    · intro h
      rw [h]
      exact ⟨rfl, rfl⟩

end Comment

/-! ### A comment that asks to continue -/

/-- The delivery of the comment `/review -c` on issue 7. -/
def continueRequest : Request where
  eventType := "issue_comment"
  signatureValid := true
  data := [("action", .str "created"), ("repository", .obj [("full_name", .str "o/r")]),
    ("issue", .obj [("number", .int 7)]), ("comment", .obj [("body", .str "/review -c")])]

/-- The comment with its parts. -/
def continueComment : FlaggedComment reviewEnv where
  req := continueRequest
  command := "/review"
  gap := [' ']
  flag := "-c"
  mode := .resume
  tail := []
  created := by decide
  body := ⟨_, rfl, rfl⟩
  configured := by decide
  wellFormed := by decide
  gap_ne_nil := by decide
  gap_isSpace := List.forall_mem_singleton.mpr (by decide)
  flag_mem := by decide
  tail_isSpace := by simp

/-- The job of the comment. -/
def continueJob : Job := (webhook reviewEnv continueRequest).jobs.head (by decide)

/-- The stored session of issue 7. -/
def storedSession : SessionInfo :=
  ⟨⟨"o/r", .issue, "7", "review-pr"⟩, "s", "main", "/worktree", "", "", 3, .active, none, none⟩

/-- With automatic continuation, the comment continues the session. -/
theorem honoured_iff_autoContinue :
    Honoured .resume storedSession (decideJob (fun _ ↦ { persist := true, autoContinue := true })
      (fun _ ↦ some storedSession) "o/r" continueJob) :=
  (honoured_iff (c := continueComment) (List.head_mem _) rfl (n := 7) rfl (by decide) rfl
    (by decide)).mpr (.inl ⟨rfl, rfl⟩)

/-- Without it, the same comment starts a new session. -/
theorem not_honoured :
    ¬ ∀ (env : Env) (c : FlaggedComment env) (configs : String → ConversationConfig)
      (store : String → Option SessionInfo) (repo : String) (session : SessionInfo) (n : Int),
      ∀ job ∈ (webhook env c.req).jobs, (configs job.workflowName).persist = true →
        job.issueNumber = some n → n ≠ 0 → store (job.keys repo).session = some session →
        session.turnCount < (configs job.workflowName).maxTurns →
        Honoured c.mode session (decideJob configs store repo job) := by
  intro hall
  have h := hall reviewEnv continueComment (fun _ ↦ { persist := true })
    (fun _ ↦ some storedSession) "o/r" storedSession 7 continueJob (List.head_mem _) rfl rfl
    (by decide) rfl (by decide)
  have hmode : (decideJob (fun _ ↦ { persist := true }) (fun _ ↦ some storedSession) "o/r"
      continueJob).mode = .resume := h.1
  revert hmode
  decide

end GithubAgent.Session
