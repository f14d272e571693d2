import GithubAgent.Base.Transition
import Mathlib.Data.List.Infix
import Mathlib.Tactic

/-!
# Retries and dead letters

`src/shared/dlq.py` with the three workers that use it: the indexing, memory and retrospector
loops take a message off their queue, attempt its job, and leave a message whose attempt raised
to `enqueue_for_retry`. A job is a run through its awaits, any of which may raise; what a handler
inside the job absorbs, the loop never sees.
-/

namespace GithubAgent.Queue

open GithubAgent.Base

/-- An exception: the name of its type and its text. -/
structure Failure where
  typeName : String
  text : String
  deriving DecidableEq

/-- `TRANSIENT_MARKERS` (`dlq.py:17-28`). -/
def transientMarkers : List String :=
  ["timeout", "connection", "reset", "429", "RESOURCE_EXHAUSTED", "503", "502", "ECONNREFUSED",
    "ECONNRESET", "ETIMEDOUT"]

/-- `str.lower` on the letters that markers have. -/
def lower (text : String) : List Char := text.toList.map Char.toLower

/-- `is_transient_error` (`dlq.py:31-38`). -/
def isTransientError (exc : Failure) : Bool :=
  transientMarkers.any fun marker ↦ decide (lower marker <:+: lower exc.text)

/-- `DEFAULT_MAX_JOB_RETRIES` (`dlq.py:15`), which is `MAX_JOB_RETRIES` of the indexing worker. -/
def defaultMaxJobRetries : Nat := 3

/-- A message on a queue: what its sender wrote, and the two fields of the retries. -/
structure RetryMessage (B : Type) where
  body : B
  attempts : Option Nat := none
  lastError : Option String := none

/-- An entry of a dead-letter list (`dlq.py:55-63`). -/
structure DeadLetterEntry (B : Type) where
  reason : String
  lastError : String
  attempts : Nat
  originalMessage : RetryMessage B

/-- The two lists of a worker. -/
structure RetryLists (B : Type) where
  queue : List (RetryMessage B)
  deadLetter : List (DeadLetterEntry B)

/-- `enqueue_for_retry` (`dlq.py:41-79`). -/
def enqueueForRetry {B : Type} (lists : RetryLists B) (message : RetryMessage B) (exc : Failure)
    (maxRetries : Nat) : RetryLists B :=
  let attempts := message.attempts.getD 0 + 1
  let lastError := exc.typeName ++ ": " ++ exc.text
  let message := { message with attempts := some attempts, lastError := some lastError }
  if maxRetries ≤ attempts then
    { lists with
      deadLetter := lists.deadLetter ++ [⟨"max_retries_exceeded", lastError, attempts, message⟩] }
  else { lists with queue := lists.queue ++ [message] }

/-! ### The jobs -/

/-- The workers with a dead-letter list. -/
inductive Worker where
  | indexing
  | memory
  | retrospector
  deriving DecidableEq

/-- What `process_indexing_job` awaits and does not take up with a warning. -/
inductive IndexingSite where
  | ensureSurrealdb
  | createWorktree
  | getCommitHash
  | chunkRepo
  | batchEmbed
  | upsertChunks
  | updateMetadata
  deriving DecidableEq

/-- What `process_memory_job` calls. -/
inductive MemorySite where
  | makeMemoryDir
  | extractConversation
  | repositoryContext
  | buildOptions
  | executeSdk
  deriving DecidableEq

/-- What `process_retrospector_job` calls. -/
inductive RetrospectorSite where
  | waitForRepoSync
  | ephemeralDir
  | createWorktree
  | getAuthService
  | getToken
  | validateIdentity
  | configUserName
  | configUserEmail
  | writeCredentials
  | configCredentials
  | extractSummary
  | writeSummary
  | repositoryContext
  | buildOptions
  | executeSdk
  | closeAuthService
  deriving DecidableEq

/-- The places of a job that may raise. -/
def Worker.Site : Worker → Type
  | .indexing => IndexingSite
  | .memory => MemorySite
  | .retrospector => RetrospectorSite

instance : (w : Worker) → DecidableEq w.Site
  | .indexing => inferInstanceAs (DecidableEq IndexingSite)
  | .memory => inferInstanceAs (DecidableEq MemorySite)
  | .retrospector => inferInstanceAs (DecidableEq RetrospectorSite)

/-- The exceptions an attempt meets, by place. -/
abbrev Worker.Attempt (w : Worker) := w.Site → Option Failure

/-- A call that raises, or goes on. -/
def visit {S : Type} (raises : S → Option Failure) (site : S) : Except Failure PUnit :=
  match raises site with
  | some exc => .error exc
  | none => .ok ⟨⟩

/-- The work of `process_indexing_job` inside the `try`. The helpers of the first two places turn
their exception into a result on which the job returns; `some` stands for it
(`indexing_worker.py:616-712`, `:761-798`, `:831-849`). -/
def indexMessage (raises : IndexingSite → Option Failure) :
    Except Failure (Option Failure) :=
  match raises .createWorktree with
  | some exc => .ok (some exc)
  | none =>
    match raises .getCommitHash with
    | some exc => .ok (some exc)
    | none => do
      visit raises .chunkRepo
      visit raises .batchEmbed
      visit raises .upsertChunks
      visit raises .updateMetadata
      return none

/-- `process_indexing_job`; the handler publishes the error and returns
(`indexing_worker.py:592-719`). -/
def processIndexingMessage (raises : IndexingSite → Option Failure) :
    Except Failure (Option Failure) := do
  visit raises .ensureSurrealdb
  tryCatch (indexMessage raises) fun exc ↦ .ok (some exc)

/-- `process_memory_job`; the handler around the SDK run raises again
(`memory_worker.py:45-135`). -/
def processMemoryMessage (raises : MemorySite → Option Failure) :
    Except Failure (Option Failure) := do
  visit raises .makeMemoryDir
  visit raises .extractConversation
  visit raises .repositoryContext
  visit raises .buildOptions
  tryCatch (visit raises .executeSdk) throw
  return none

/-- The work of `process_retrospector_job`; the handler around the SDK run logs
(`retrospector_worker.py:114-262`). -/
def retrospect (raises : RetrospectorSite → Option Failure) :
    Except Failure (Option Failure) := do
  visit raises .waitForRepoSync
  visit raises .ephemeralDir
  visit raises .createWorktree
  visit raises .getAuthService
  visit raises .getToken
  visit raises .validateIdentity
  visit raises .configUserName
  visit raises .configUserEmail
  visit raises .writeCredentials
  visit raises .configCredentials
  visit raises .extractSummary
  visit raises .writeSummary
  visit raises .repositoryContext
  visit raises .buildOptions
  tryCatch (do visit raises .executeSdk; return none) fun exc ↦ .ok (some exc)

/-- `process_retrospector_job`: of the clean-up in the `finally`, closing the service may raise
(`retrospector_worker.py:80-300`). -/
def processRetrospectorMessage (raises : RetrospectorSite → Option Failure) :
    Except Failure (Option Failure) := do
  let ended ← tryCatch (retrospect raises) fun exc ↦ do
    visit raises .closeAuthService
    throw exc
  visit raises .closeAuthService
  return ended

/-- The job of a worker on one attempt: it raises, or returns, then with the exception it
absorbed, if it gave up because of one. -/
def Worker.processJob : (w : Worker) → w.Attempt → Except Failure (Option Failure)
  | .indexing => processIndexingMessage
  | .memory => processMemoryMessage
  | .retrospector => processRetrospectorMessage

/-- The error with which an attempt fails, whether or not it leaves the job. -/
def Worker.failure (w : Worker) (attempt : w.Attempt) : Option Failure :=
  match w.processJob attempt with
  | .error exc => some exc
  | .ok absorbed => absorbed

/-- One turn of a worker's loop (`indexing_worker.py:943-970`, `memory_worker.py:155-184`,
`retrospector_worker.py:322-345`). -/
def Worker.turn {B : Type} (w : Worker) (lists : RetryLists B) (attempt : w.Attempt) :
    Option (RetryLists B) :=
  match lists.queue with
  | [] => none
  | message :: rest =>
    let lists := { lists with queue := rest }
    match w.processJob attempt with
    | .ok _ => some lists
    | .error exc =>
      if isTransientError exc then
        some (enqueueForRetry lists message exc defaultMaxJobRetries)
      else some (enqueueForRetry lists message exc 0)

/-! ### The life of one message -/

/-- The lists, and the attempts made so far. -/
structure Life (w : Worker) (B : Type) where
  lists : RetryLists B
  made : List w.Attempt

/-- A worker with one message; each action is what the next attempt meets. -/
def life {B : Type} (w : Worker) (body : B) : System (Life w B) w.Attempt where
  init s := s = ⟨⟨[{ body := body }], []⟩, []⟩
  step s attempt := (w.turn s.lists attempt).map fun lists ↦ ⟨lists, s.made ++ [attempt]⟩

/-- The accounting: a bounded number of attempts; a message that is on no queue ended with a
success or with one dead-letter entry that holds it; and no attempt after a permanent failure. -/
structure Accounted {w : Worker} {B : Type} (body : B) (s : Life w B) : Prop where
  bounded : s.made.length ≤ defaultMaxJobRetries
  waiting : s.lists.queue ≠ [] →
    s.lists.deadLetter = [] ∧ ∀ attempt ∈ s.made, w.failure attempt ≠ none
  ended : s.lists.queue = [] → ∃ last, s.made.getLast? = some last ∧
    (w.failure last = none ∧ s.lists.deadLetter = [] ∨
      w.failure last ≠ none ∧
        ∃ entry, s.lists.deadLetter = [entry] ∧ entry.originalMessage.body = body)
  permanent : ∀ before attempt after exc, s.made = before ++ attempt :: after →
    w.failure attempt = some exc → isTransientError exc = false →
      after = [] ∧ s.lists.queue = []

/-- The exception of a failing attempt leaves the job: always in the memory worker; in the
indexing worker unless it is raised inside the `try`; in the retrospector unless it is raised by
the SDK run and by nothing before and after it. -/
def Worker.LetsOut : (w : Worker) → w.Attempt → Prop
  | .indexing, raises =>
    raises .ensureSurrealdb ≠ none ∨ ∀ site, raises site = none
  | .memory, _ => True
  | .retrospector, raises =>
    raises .executeSdk = none ∨ ∃ site, site ≠ .executeSdk ∧ raises site ≠ none

section Jobs

variable {S α β : Type} {raises : S → Option Failure} {site : S}

/-- A job gets past a call that does not raise. -/
@[simp]
theorem visit_eq_ok {u : PUnit} : visit raises site = .ok u ↔ raises site = none := by
  cases h : raises site <;> simp [visit, h]

@[simp]
theorem bind_eq_ok {x : Except Failure α} {f : α → Except Failure β} {b : β} :
    (x >>= f) = .ok b ↔ ∃ a, x = .ok a ∧ f a = .ok b := by
  cases x <;> simp [bind, Except.bind]

@[simp]
theorem map_eq_ok {x : Except Failure α} {f : α → β} {b : β} :
    (f <$> x) = .ok b ↔ ∃ a, x = .ok a ∧ f a = b := by
  cases x <;> simp

/-- A handler that returns hides the exception. -/
@[simp]
theorem tryCatch_eq_ok {body : Except Failure α} {handler : Failure → Except Failure α} {a : α} :
    tryCatch body handler = .ok a ↔
      body = .ok a ∨ ∃ exc, body = .error exc ∧ handler exc = .ok a := by
  cases body <;> simp [tryCatch, tryCatchThe, MonadExceptOf.tryCatch, Except.tryCatch]

@[simp]
theorem throw_ne_ok {exc : Failure} {a : α} : (throw exc : Except Failure α) ≠ .ok a := by
  intro h
  cases h

/-- The memory worker returns only where nothing raised. -/
theorem processMemoryMessage_ne (raises : MemorySite → Option Failure) (exc : Failure) :
    processMemoryMessage raises ≠ .ok (some exc) := by
  simp [processMemoryMessage]

/-- The work of the indexing worker is done where nothing raised. -/
theorem indexMessage_eq_ok (raises : IndexingSite → Option Failure) :
    indexMessage raises = .ok none ↔ ∀ site, site ≠ .ensureSurrealdb → raises site = none := by
  unfold indexMessage
  cases hworktree : raises .createWorktree with
  | some exc =>
    have hraises : ¬ ∀ site, site ≠ .ensureSurrealdb → raises site = none := by
      intro h
      simpa [hworktree] using h .createWorktree (by decide)
    simpa using hraises
  | none =>
    cases hcommit : raises .getCommitHash with
    | some exc =>
      have hraises : ¬ ∀ site, site ≠ .ensureSurrealdb → raises site = none := by
        intro h
        simpa [hcommit] using h .getCommitHash (by decide)
      simpa using hraises
    | none =>
      constructor
      · intro h site hsite
        cases site <;> simp_all
      · intro h
        simp [h]

/-- The indexing worker absorbs every exception from inside its `try`. -/
theorem processIndexingMessage_ne (raises : IndexingSite → Option Failure) :
    (∀ exc, processIndexingMessage raises ≠ .ok (some exc)) ↔
      raises .ensureSurrealdb ≠ none ∨ ∀ site, raises site = none := by
  cases hschema : raises .ensureSurrealdb with
  | some exc => simp [processIndexingMessage, hschema]
  | none =>
    have hall : (∀ site, raises site = none) ↔ indexMessage raises = .ok none := by
      rw [indexMessage_eq_ok]
      constructor
      · exact fun h site _ ↦ h site
      · intro h site
        by_cases hsite : site = .ensureSurrealdb
        · exact hsite ▸ hschema
        · exact h site hsite
    rw [hall]
    match hbody : indexMessage raises with
    | .error exc => simp [processIndexingMessage, hschema, hbody]
    | .ok none => simp [processIndexingMessage, hschema, hbody]
    | .ok (some exc) => simp [processIndexingMessage, hschema, hbody]

/-- The work of the retrospector returns where only the SDK run raised, if anything did. -/
theorem retrospect_eq_ok (raises : RetrospectorSite → Option Failure) (r : Option Failure) :
    retrospect raises = .ok r ↔ raises .executeSdk = r ∧
      ∀ site, site ≠ .executeSdk → site ≠ .closeAuthService → raises site = none := by
  have hsdk : (tryCatch (do visit raises .executeSdk; return none)
      fun exc ↦ .ok (some exc) : Except Failure (Option Failure)) = .ok r ↔
        raises .executeSdk = r := by
    cases hraises : raises .executeSdk <;>
      simp [visit, hraises, bind, Except.bind, pure, Except.pure]
  unfold retrospect
  simp only [bind_eq_ok, visit_eq_ok, hsdk, exists_and_left, exists_const]
  constructor
  · intro h
    refine ⟨by tauto, fun site hsdk hclose ↦ ?_⟩
    cases site <;> tauto
  · rintro ⟨hraises, h⟩
    simp [h, hraises]

/-- The retrospector absorbs the exception of its SDK run. -/
theorem processRetrospectorMessage_eq_ok (raises : RetrospectorSite → Option Failure)
    (r : Option Failure) :
    processRetrospectorMessage raises = .ok r ↔ raises .executeSdk = r ∧
      ∀ site, site ≠ .executeSdk → raises site = none := by
  have hrun : processRetrospectorMessage raises = .ok r ↔
      retrospect raises = .ok r ∧ raises .closeAuthService = none := by
    simp [processRetrospectorMessage]
  rw [hrun, retrospect_eq_ok]
  constructor
  · rintro ⟨⟨hsdk, h⟩, hclose⟩
    refine ⟨hsdk, fun site hne ↦ ?_⟩
    by_cases hsite : site = .closeAuthService
    · exact hsite ▸ hclose
    · exact h site hne hsite
  · rintro ⟨hsdk, h⟩
    exact ⟨⟨hsdk, fun site hne _ ↦ h site hne⟩, h .closeAuthService (by decide)⟩

/-- The retrospector absorbs an exception that only its SDK run raises. -/
theorem processRetrospectorMessage_ne (raises : RetrospectorSite → Option Failure) :
    (∀ exc, processRetrospectorMessage raises ≠ .ok (some exc)) ↔
      raises .executeSdk = none ∨ ∃ site, site ≠ .executeSdk ∧ raises site ≠ none := by
  simp only [ne_eq, processRetrospectorMessage_eq_ok, not_and, not_forall, exists_prop]
  cases hsdk : raises .executeSdk with
  | none => simp
  | some exc => simp

/-- The condition says where a failing attempt raises. -/
theorem Worker.letsOut_iff {w : Worker} {attempt : w.Attempt} :
    w.LetsOut attempt ↔ ∀ exc, w.processJob attempt ≠ .ok (some exc) := by
  cases w with
  | indexing => exact (processIndexingMessage_ne attempt).symm
  | memory => exact iff_of_true trivial (processMemoryMessage_ne attempt)
  | retrospector => exact (processRetrospectorMessage_ne attempt).symm

end Jobs

/-! ### The accounting -/

section Accounting

variable {w : Worker} {B : Type} {body : B} {s : Life w B}

/-- The attempt raised an error that is worth another attempt. -/
def Worker.Retried (w : Worker) (attempt : w.Attempt) : Prop :=
  ∃ exc, w.processJob attempt = .error exc ∧ isTransientError exc = true

/-- Where a message can be, with the attempts that brought it there. -/
inductive Stage (body : B) : Life w B → Prop where
  | queued {message : RetryMessage B} {made : List w.Attempt} :
      message.body = body → message.attempts.getD 0 = made.length →
      made.length < defaultMaxJobRetries → (∀ attempt ∈ made, w.Retried attempt) →
      Stage body ⟨⟨[message], []⟩, made⟩
  | done {made : List w.Attempt} {last : w.Attempt} {absorbed : Option Failure} :
      made.length < defaultMaxJobRetries → (∀ attempt ∈ made, w.Retried attempt) →
      w.processJob last = .ok absorbed → Stage body ⟨⟨[], []⟩, made ++ [last]⟩
  | dead {made : List w.Attempt} {last : w.Attempt} {exc : Failure} {entry : DeadLetterEntry B} :
      made.length < defaultMaxJobRetries → (∀ attempt ∈ made, w.Retried attempt) →
      w.processJob last = .error exc → entry.originalMessage.body = body →
      Stage body ⟨⟨[], [entry]⟩, made ++ [last]⟩

/-- One turn of the loop. -/
theorem Stage.step {s' : Life w B} {attempt : w.Attempt} (h : Stage body s)
    (hstep : (life w body).step s attempt = some s') : Stage body s' := by
  cases h with
  | done | dead => cases hstep
  | @queued message made hbody hattempts hlt hmade =>
    simp only [life, Worker.turn] at hstep
    cases hjob : w.processJob attempt with
    | ok absorbed =>
      rw [hjob] at hstep
      cases hstep
      exact .done hlt hmade hjob
    | error exc =>
      simp only [hjob, enqueueForRetry, hattempts] at hstep
      cases htransient : isTransientError exc with
      | false =>
        simp only [htransient, Bool.false_eq_true, if_false, Nat.zero_le, if_true,
          Option.map_some, Option.some.injEq] at hstep
        subst hstep
        exact .dead hlt hmade hjob hbody
      | true =>
        simp only [htransient, if_true] at hstep
        split at hstep
        · cases hstep
          exact .dead hlt hmade hjob hbody
        · next hmore =>
          cases hstep
          refine .queued hbody ?_ ?_ ?_
          · simp
          · simpa using hmore
          · intro a ha
            rcases List.mem_append.mp ha with ha | ha
            · exact hmade a ha
            · exact List.mem_singleton.mp ha ▸ ⟨exc, hjob, htransient⟩

theorem stage (h : (life w body).Reach s) : Stage body s := by
  refine h.invariant ?_ fun t a t' ht _ hstep ↦ ht.step hstep
  rintro t rfl
  exact .queued rfl rfl (Nat.zero_lt_succ _) (by simp)

theorem Worker.Retried.letsOut {attempt : w.Attempt} (h : w.Retried attempt) :
    w.LetsOut attempt := by
  obtain ⟨exc, hjob, -⟩ := h
  rw [Worker.letsOut_iff, hjob]
  intro exc' h
  cases h

theorem Worker.Retried.failure {attempt : w.Attempt} (h : w.Retried attempt) :
    ∃ exc, w.failure attempt = some exc ∧ isTransientError exc = true := by
  obtain ⟨exc, hjob, htransient⟩ := h
  exact ⟨exc, by rw [Worker.failure, hjob], htransient⟩

/-- A permanent failure is not one of the attempts that were followed by another. -/
theorem Worker.Retried.not_permanent {attempt : w.Attempt} {exc : Failure}
    (h : w.Retried attempt) (hfailure : w.failure attempt = some exc) :
    isTransientError exc ≠ false := by
  obtain ⟨exc', hfailure', htransient⟩ := h.failure
  rw [hfailure, Option.some.injEq] at hfailure'
  rw [hfailure', htransient]
  decide

/-- Only the last of a list has nothing behind it. -/
theorem eq_nil_of_not_mem {α : Type} {made before after : List α} {last attempt : α}
    (h : made ++ [last] = before ++ attempt :: after) (hmem : attempt ∉ made) : after = [] := by
  rcases List.eq_nil_or_concat after with rfl | ⟨after', x, rfl⟩
  · rfl
  · rw [List.concat_eq_append, ← List.cons_append, ← List.append_assoc] at h
    have hmade := (List.append_inj' h rfl).1
    exact absurd (hmade ▸ by simp) hmem

/-- A message on the queue is attempted, so that with the bound every life ends. -/
theorem exists_step (attempt : w.Attempt) (h : s.lists.queue ≠ []) :
    ∃ s', (life w body).step s attempt = some s' := by
  obtain ⟨message, rest, hqueue⟩ := List.exists_cons_of_ne_nil h
  simp only [life, Worker.turn, hqueue]
  split
  · exact ⟨_, rfl⟩
  · split <;> exact ⟨_, rfl⟩

end Accounting

/-! ### A retried message, and one that is lost -/

/-- An attempt in which one place raises. -/
def Worker.raisesAt (w : Worker) (site : w.Site) (text : String) : w.Attempt :=
  fun other ↦ if other = site then some ⟨"SDKError", text⟩ else none

end GithubAgent.Queue
